import CodeAtlas.Assembly.Names
import CodeAtlas.Clustering.Communities
import CodeAtlas.Flow.Detect
import CodeAtlas.Settings
import CodeAtlas.Source.Reading
import CodeAtlas.Source.Resolution
import Std.Data.HashSet

/-!
The graph of a set of files. Every file is a node, and so is every symbol declared in one. Edges
lead from a symbol to its file, from a file to the files it imports, from a type to its supertypes,
and from the innermost function around a call, or else its file, to what is called. A called name is
looked for among the imports, then in the same file, then everywhere, with falling certainty.
-/

namespace CodeAtlas

/-- A file and what was read off it, if its text could be had. -/
structure FileReading where
  path : String
  language : Language
  outline : Option Outline
  deriving Repr, Inhabited

namespace FileReading

/-- Reads a text as the file at a path, if its language is known. -/
def ofSource? (path content : String) : Option FileReading :=
  (Language.ofPath? path).map fun language => ⟨path, language, some (Source.parse content path)⟩

/-- The file at a path whose text could not be had. -/
def unread? (path : String) : Option FileReading :=
  (Language.ofPath? path).map fun language => ⟨path, language, none⟩

/-- The symbols that a file declares, none where it was not read. -/
def declarations (f : FileReading) : List Declaration :=
  (f.outline.map Outline.declarations).getD []

/-- The imports of a file, none if it was not read. -/
def imports (f : FileReading) : List Import :=
  (f.outline.map Outline.imports).getD []

/-- The calls of a file, none if it was not read. -/
def calls (f : FileReading) : List Call :=
  (f.outline.map Outline.calls).getD []

/-- The node of a file. -/
def node (f : FileReading) : Node :=
  Node.ofFile f.path f.language.name

/-- The id of the node of a file. -/
def id (f : FileReading) : String :=
  Node.idOfFile f.path

/-- The node of a symbol that a file declares. -/
def symbol (f : FileReading) (d : Declaration) : Node :=
  Node.ofSymbol d.kind d.name f.path f.language.name d.lineStart d.lineEnd

end FileReading

namespace Assembly

/-- Of several files with one path, sorted, the first. -/
def dropRepeated : List FileReading → List FileReading
  | [] => []
  | [f] => [f]
  | f :: g :: rest =>
    if f.path = g.path then dropRepeated (f :: rest) else f :: dropRepeated (g :: rest)
termination_by files => files.length

/-- The files in order of their paths, each path once. -/
def sortedFiles (files : List FileReading) : List FileReading :=
  dropRepeated (files.mergeSort fun a b => decide (a.path ≤ b.path))

/-- A file with the nodes of the symbols it declares. -/
structure Declared where
  file : FileReading
  symbols : List Node

/-- Keeps the nodes whose ids are new. -/
def newNodes (seen : Std.HashSet String) : List Node → List Node × Std.HashSet String
  | [] => ([], seen)
  | n :: rest =>
    if seen.contains n.id then newNodes seen rest
    else
      let (nodes, seen) := newNodes (seen.insert n.id) rest
      (n :: nodes, seen)

/-- The symbols of each file; a symbol whose id is taken already is left out. -/
def declareAll (seen : Std.HashSet String) : List FileReading → List Declared
  | [] => []
  | f :: rest =>
    let (nodes, seen) := newNodes seen (f.declarations.map f.symbol)
    ⟨f, nodes⟩ :: declareAll seen rest

/-- The files of a repository with all their symbols. -/
structure Sources where
  files : List Declared
  symbols : List Node
  paths : Std.HashSet String

/-- The files of a repository, in order and with their symbols. -/
def Sources.ofFiles (files : List FileReading) : Sources :=
  let sorted := sortedFiles files
  let declared := declareAll (Std.HashSet.ofList (sorted.map FileReading.id)) sorted
  { files := declared
    symbols := declared.flatMap Declared.symbols
    paths := Std.HashSet.ofList (sorted.map FileReading.path) }

/-- The symbols that the file at a path declares. -/
def Sources.symbolsOf (s : Sources) (path : String) : List Node :=
  ((s.files.find? (·.file.path == path)).map Declared.symbols).getD []

/-! ### Edges -/

/-- How certain it is that a symbol lies in its file. -/
def declarationConfidence : Float := 1.0

/-- The certainty of an import whose file was found. -/
def importConfidence : Float := 0.95

/-- The certainty of a supertype that was found. -/
def supertypeConfidence : Float := 0.9

/-- The edges from the symbols of a file to the file. -/
def declarationEdges (d : Declared) : List Edge :=
  d.symbols.map fun n => Edge.make n.id d.file.id .definedIn declarationConfidence "declaration"

/-- The imports of a file that mean another file, with its path. -/
def resolvedImports (s : Sources) (f : FileReading) : List (Import × String) :=
  f.imports.filterMap fun i =>
    match Source.importedFile? s.paths.contains f.path i.moduleName with
    | some target => if target = f.path then none else some (i, target)
    | none => none

/-- The edges from a file to the files it imports. -/
def importEdges (f : FileReading) (resolved : List (Import × String)) : List Edge :=
  resolved.map fun (_, target) =>
    Edge.make f.id (Node.idOfFile target) .imports importConfidence "import-resolved"

/-- The file from which a name is imported: that of the last import that binds it. -/
def importedFrom? (resolved : List (Import × String)) (name : String) : Option String :=
  (resolved.reverse.find? fun (i, _) => i.names.contains name).map (·.2)

/-- What a supertype's name means: a type of the same file, of the file it is imported from, or the
first of all. -/
def supertypeOf? (s : Sources) (d : Declared) (resolved : List (Import × String)) (name : String) :
    Option String :=
  match Names.supertype? d.symbols name with
  | some id => some id
  | none =>
    match (importedFrom? resolved name).bind fun path =>
        Names.supertype? (s.symbolsOf path) name with
    | some id => some id
    | none => Names.firstSupertype? s.symbols name

/-- The edges from the types of a file to their supertypes. -/
def supertypeEdges (s : Sources) (d : Declared) (resolved : List (Import × String)) : List Edge :=
  d.file.declarations.flatMap fun declaration =>
    let source := Node.idOfSymbol declaration.kind d.file.path declaration.name
    (declaration.extended.map (·, EdgeKind.extends) ++
        declaration.implemented.map (·, EdgeKind.implements)).filterMap fun (name, kind) =>
      match supertypeOf? s d resolved name with
      | some target =>
        if target = source then none
        else some (Edge.make source target kind supertypeConfidence "supertype")
      | none => none

/-- How a called name was found. -/
inductive CallTier where
  /-- In the file it is imported from. -/
  | imported
  /-- In the file of the call. -/
  | sameFile
  /-- As the only one of all. -/
  | single
  /-- As the first of several. -/
  | first
  /-- As one of so many. -/
  | oneOf (count : Nat)
  deriving Repr, DecidableEq

namespace CallTier

/-- The certainty of a call. Candidates that share one have less of it the more there are. -/
def confidence : CallTier → Float
  | imported => 0.9
  | sameFile => 0.85
  | single => 0.5
  | first => 0.3
  | oneOf count => Scalar.max 0.05 (0.3 / Float.ofNat count)

/-- How the target of a call was found, as its edge says it. -/
def reason : CallTier → String
  | imported => "import-resolved"
  | sameFile => "same-file"
  | single => "fuzzy-global-single"
  | first => "fuzzy-global-multiple"
  | oneOf _ => "fuzzy-global-split"

end CallTier

/-- What a called name means, among all candidates for it. -/
def globalTargets (rule : CandidateRule) : List String → List (String × CallTier)
  | [] => []
  | [only] => [(only, .single)]
  | id :: more =>
    match rule with
    | .firstMatch => [(id, .first)]
    | .splitAll => (id :: more).map (·, .oneOf (more.length + 1))

/-- What a called name means in a file. -/
def callTargets (s : Sources) (rule : CandidateRule) (d : Declared)
    (resolved : List (Import × String)) (callee : String) : List (String × CallTier) :=
  match (importedFrom? resolved callee).bind fun path =>
      Names.callable? (s.symbolsOf path) callee with
  | some id => [(id, .imported)]
  | none =>
    match Names.callable? d.symbols callee with
    | some id => [(id, .sameFile)]
    | none => globalTargets rule (Names.callableIds s.symbols callee)

/-- The later of two starts, the second of two equal ones. -/
def laterStart (best : Option Node) (n : Node) : Option Node :=
  match best with
  | none => some n
  | some b => if b.lineStart.getD 0 ≤ n.lineStart.getD 0 then some n else some b

/-- Who calls on a line: the function around it that starts last, else the file. -/
def callerOf (d : Declared) (line : Nat) : String :=
  match (d.symbols.filter fun n => n.kind == .function && n.spans line).foldl laterStart
      none with
  | some n => n.id
  | none => d.file.id

/-- The edges of the calls in a file. -/
def callEdges (s : Sources) (rule : CandidateRule) (d : Declared)
    (resolved : List (Import × String)) : List Edge :=
  d.file.calls.flatMap fun call =>
    let caller := callerOf d call.line
    (callTargets s rule d resolved call.callee).map fun (target, tier) =>
      Edge.make caller target .calls tier.confidence tier.reason

/-- The edges from a file and its symbols to others. -/
def edgesOfFile (s : Sources) (rule : CandidateRule) (d : Declared) : List Edge :=
  let resolved := resolvedImports s d.file
  importEdges d.file resolved ++ supertypeEdges s d resolved ++ callEdges s rule d resolved

/-- Keeps the first edge of each id, and none from a node to itself. -/
def distinctEdges (seen : Std.HashSet String) : List Edge → List Edge
  | [] => []
  | e :: rest =>
    if e.source = e.target || seen.contains e.id then distinctEdges seen rest
    else e :: distinctEdges (seen.insert e.id) rest

/-- All edges, those of declarations first, of each id the first one. -/
def edges (s : Sources) (rule : CandidateRule) : List Edge :=
  distinctEdges {} (s.files.flatMap declarationEdges ++ s.files.flatMap (edgesOfFile s rule))

/-- The graph of files: their nodes with their communities, the edges and the flows. -/
def build (owner name branch : String) (files : List FileReading) (rule : CandidateRule) :
    RepoGraph :=
  let s := Sources.ofFiles files
  let nodes := s.files.map (·.file.node) ++ s.symbols
  let edges := edges s rule
  let communities := Communities.ofParts nodes edges
  { owner
    name
    branch
    nodes := Communities.assign communities nodes
    edges
    communities
    flows := Flows.ofParts nodes edges communities }

end Assembly

end CodeAtlas
