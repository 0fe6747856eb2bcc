import CodeAtlas.Impact.Analysis
import CodeAtlas.AnswerForm
import CodeAtlas.Settings

/-!
The arguments of the command line. Options of every command may stand before or after the command's
name, and the later place wins; each option may be given once in a place. What follows two hyphens
that stand alone is no option.
-/

namespace CodeAtlas

/-- Which repository is meant, and what is laid over the settings for it. -/
structure SourceOptions where
  /-- A reference to a hosted repository. -/
  repo : Option String
  /-- A directory, where no hosted repository is meant. -/
  path : String
  maxFiles : Option Nat
  ambiguity : Option CandidateRule
  deriving Repr, DecidableEq

/-- How a search ranks. -/
inductive SearchKind where
  | hybrid
  | bm25
  | semantic
  deriving Repr, DecidableEq

/-- What is to be done. -/
inductive Command where
  /-- Tell what can be done. -/
  | welcome
  | build (source : SourceOptions)
  | search (query : String) (limit : Nat) (mode : SearchKind) (source : SourceOptions)
  | context (nodeId : String) (source : SourceOptions)
  | impact (symbolIds : List String) (failOn : Option Risk) (source : SourceOptions)
  | overview (source : SourceOptions)
  | chat (question : String) (showTrace : Bool) (source : SourceOptions)
  /-- Write a configuration file. -/
  | init
  deriving Repr, DecidableEq

/-- When output is coloured. -/
inductive Colouring where
  | auto
  | always
  | never
  deriving Repr, DecidableEq

/-- What the arguments say. -/
structure Invocation where
  command : Command
  /-- The path of a configuration file. -/
  config : Option String
  format : AnswerForm
  verbose : Bool
  color : Colouring
  deriving Repr, DecidableEq

namespace Arguments

/-- An option: its name, and whether a value follows it. -/
structure OptionRule where
  name : String
  takesValue : Bool
  deriving Repr, DecidableEq

/-- The options that every command has. -/
def commonRules : List OptionRule :=
  [⟨"config", true⟩, ⟨"format", true⟩, ⟨"verbose", false⟩, ⟨"color", true⟩]

/-- The options of commands that read a repository. -/
def sourceRules : List OptionRule :=
  [⟨"repo", true⟩, ⟨"path", true⟩, ⟨"max-files", true⟩, ⟨"ambiguity", true⟩]

/-- The options of one command, by its name. -/
def commandRules? (command : String) : Option (List OptionRule) :=
  match command with
  | "build" => some sourceRules
  | "search" => some (⟨"limit", true⟩ :: ⟨"mode", true⟩ :: sourceRules)
  | "context" => some sourceRules
  | "impact" => some (⟨"fail-on", true⟩ :: sourceRules)
  | "overview" => some sourceRules
  | "chat" => some (⟨"show-trace", false⟩ :: sourceRules)
  | "init" => some []
  | _ => none

/-- The name of an option that is abbreviated to one letter. -/
def shortName? (c : Char) : Option String :=
  if c = 'v' then some "verbose" else none

/-- Arguments sorted into options with their values and the others, which are in order. -/
structure Sorted where
  options : List (String × String)
  others : List String
  deriving Repr, DecidableEq

/-- Adds an option that is not there yet. -/
def Sorted.addOption (s : Sorted) (name value : String) : Option Sorted :=
  if s.options.any (·.1 == name) then none
  else some { s with options := s.options ++ [(name, value)] }

/-- Adds an argument that is no option. -/
def Sorted.addOther (s : Sorted) (value : String) : Sorted :=
  { s with others := s.others ++ [value] }

/-- Whether an argument is taken for an option: it starts with a hyphen that does not stand
alone. -/
def isOptionLike (argument : String) : Bool :=
  match argument.toList with
  | '-' :: _ :: _ => true
  | _ => false

/-- Cuts a long option at its equals sign. -/
def cutValue (text : List Char) : String × Option String :=
  (String.ofList (text.takeWhile (· ≠ '=')),
    match text.dropWhile (· ≠ '=') with
    | _ :: value => some (String.ofList value)
    | [] => none)

/-- Adds the one-letter options of an argument, none of which takes a value. -/
def addShort (rules : List OptionRule) : List Char → Sorted → Option Sorted
  | [], s => some s
  | c :: rest, s =>
    match shortName? c with
    | some name =>
      if rules.any (·.name == name) then (s.addOption name "").bind (addShort rules rest) else none
    | none => none

/-- Sorts arguments by the given options. With `upToOther` it stops before the first argument that
is no option, unless two hyphens precede it; the arguments from there on come with the result. -/
def sort (rules : List OptionRule) (upToOther : Bool) :
    List String → Sorted → Option (Sorted × List String)
  | [], s => some (s, [])
  | argument :: rest, s =>
    match argument.toList with
    | ['-', '-'] => some ({ s with others := s.others ++ rest }, [])
    | '-' :: '-' :: text =>
      let (name, value) := cutValue text
      match rules.find? (·.name == name), value with
      | none, _ => none
      | some ⟨_, false⟩, some _ => none
      | some ⟨_, false⟩, none => (s.addOption name "").bind (sort rules upToOther rest)
      | some ⟨_, true⟩, some value => (s.addOption name value).bind (sort rules upToOther rest)
      | some ⟨_, true⟩, none =>
        match rest with
        | value :: rest =>
          if isOptionLike value then none
          else (s.addOption name value).bind (sort rules upToOther rest)
        | [] => none
    | '-' :: c :: text => (addShort rules (c :: text) s).bind (sort rules upToOther rest)
    | _ =>
      if upToOther then some (s, argument :: rest)
      else sort rules upToOther rest (s.addOther argument)

/-- The value of an option. -/
def Sorted.value? (s : Sorted) (name : String) : Option String :=
  (s.options.find? (·.1 == name)).map (·.2)

/-- Reads an option that may be absent. -/
def Sorted.optional {α : Type} (s : Sorted) (name : String) (read : String → Option α) :
    Option (Option α) :=
  match s.value? name with
  | some value => (read value).map some
  | none => some none

/-- Reads an option that has a value for its absence. -/
def Sorted.withDefault {α : Type} (s : Sorted) (name : String) (default : α)
    (read : String → Option α) : Option α :=
  (s.optional name read).map (·.getD default)

/-- A number, with a plus sign or without. -/
def number? (text : String) : Option Nat :=
  let digits :=
    match text.toList with
    | '+' :: rest => rest
    | cs => cs
  if digits.isEmpty || !digits.all Char.isDigit then none
  else
    let n := digits.foldl (fun n c => 10 * n + (c.toNat - 48)) 0
    if n < countBound then some n else none

/-- A path that is not empty. -/
def path? (text : String) : Option String :=
  if text = "" then none else some text

/-- The value of a choice by its name. -/
def choice? {α : Type} (choices : List (String × α)) (text : String) : Option α :=
  (choices.find? (·.1 == text)).map (·.2)

/-- The form of answers by its name. -/
def format? (text : String) : Option AnswerForm :=
  (AnswerForm.parse text).toOption

/-- What the options of a repository say; a hosted one and a directory exclude each other. -/
def source? (s : Sorted) : Option SourceOptions := do
  let path ← s.optional "path" path?
  let maxFiles ← s.optional "max-files" number?
  let ambiguity ← s.optional "ambiguity"
    (choice? [("first-match", CandidateRule.firstMatch), ("split-all", .splitAll)])
  let repo := s.value? "repo"
  if repo.isSome && path.isSome then none
  else some ⟨repo, path.getD ".", maxFiles, ambiguity⟩

/-- The only argument that is no option. -/
def Sorted.only? (s : Sorted) : Option String :=
  match s.others with
  | [value] => some value
  | _ => none

/-- The command of a name with its arguments. -/
def command? (name : String) (s : Sorted) : Option Command :=
  match name with
  | "build" => if s.others.isEmpty then (source? s).map .build else none
  | "search" => do
    let query ← s.only?
    let limit ← s.withDefault "limit" 10 number?
    let mode ← s.withDefault "mode" .hybrid
      (choice? [("hybrid", SearchKind.hybrid), ("bm25", .bm25), ("semantic", .semantic)])
    let source ← source? s
    some (.search query limit mode source)
  | "context" => do
    let nodeId ← s.only?
    let source ← source? s
    some (.context nodeId source)
  | "impact" => do
    let failOn ← s.optional "fail-on"
      (choice? [("low", Risk.low), ("medium", .medium), ("high", .high),
        ("critical", .critical)])
    let source ← source? s
    if s.others.isEmpty then none else some (.impact s.others failOn source)
  | "overview" => if s.others.isEmpty then (source? s).map .overview else none
  | "chat" => do
    let question ← s.only?
    let source ← source? s
    some (.chat question (s.value? "show-trace").isSome source)
  | "init" => if s.others.isEmpty then some .init else none
  | _ => none

/-- What the common options say, those behind the command's name first. -/
def invocation? (command : Command) (outer inner : Sorted) : Option Invocation := do
  let outerConfig ← outer.optional "config" path?
  let outerFormat ← outer.optional "format" format?
  let colors := choice? [("auto", Colouring.auto), ("always", .always), ("never", .never)]
  let outerColor ← outer.optional "color" colors
  let config ← inner.optional "config" path?
  let format ← inner.optional "format" format?
  let color ← inner.optional "color" colors
  some {
    command := command
    config := config.or outerConfig
    format := (format.or outerFormat).getD .text
    verbose := (inner.value? "verbose").isSome || (outer.value? "verbose").isSome
    color := (color.or outerColor).getD .auto }

/-- What arguments say, if they say anything. -/
def parse? (arguments : List String) : Option Invocation := do
  let (outer, rest) ← sort commonRules true arguments ⟨[], []⟩
  match rest with
  | [] => if outer.others.isEmpty then invocation? .welcome outer ⟨[], []⟩ else none
  | name :: rest =>
    let rules ← commandRules? name
    let (inner, _) ← sort (commonRules ++ rules) false rest ⟨[], []⟩
    let command ← command? name inner
    invocation? command outer inner

end Arguments

end CodeAtlas
