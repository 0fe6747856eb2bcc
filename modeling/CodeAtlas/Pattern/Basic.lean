import CodeAtlas.Text.Blank
import CodeAtlas.Text.Word

/-!
Patterns over text. A pattern is tried at a place in a text; where it allows several readings, they
come in order: the left side of an alternative before the right, a greedy repetition with as many
rounds as possible first, a lazy one with as few. The first reading after which the rest of the
pattern fits is the one that counts.
-/

namespace CodeAtlas

/-- A pattern over text. -/
inductive Pattern where
  /-- Fits everywhere and takes nothing. -/
  | empty
  /-- One character of a class. -/
  | one (test : Char → Bool)
  | seq (p q : Pattern)
  | alt (p q : Pattern)
  /-- As many rounds as possible; a round takes at least one character. -/
  | many (p : Pattern)
  /-- As few rounds as possible. -/
  | few (p : Pattern)
  /-- Remembers what the inner pattern takes. -/
  | group (number : Nat) (p : Pattern)
  /-- The start of the text. -/
  | textStart
  /-- The end of the text. -/
  | textEnd
  /-- The start of the text, or the place after a line feed. -/
  | lineStart
  /-- A place with a word character on exactly one side. -/
  | wordEdge

namespace Pattern

/-- What a group has taken: where it began, what the text was from there on, and where it ended. -/
structure Span where
  start : Nat
  rest : List Char
  stop : Nat
  deriving Repr, DecidableEq

/-- The text that a group has taken. -/
def Span.text (s : Span) : List Char :=
  s.rest.take (s.stop - s.start)

/-- A place in a text, with what lies around it and what the groups have taken so far. -/
structure Place where
  before : Option Char
  offset : Nat
  rest : List Char
  /-- Groups by number, the latest first. -/
  groups : List (Nat × Span)

/-- The place at the start of a text. -/
def Place.ofText (cs : List Char) : Place :=
  ⟨none, 0, cs, []⟩

/-- The place after the next character, given that character and what comes after it. -/
def Place.step (here : Place) (c : Char) (rest : List Char) : Place :=
  { here with before := some c, offset := here.offset + 1, rest := rest }

/-- Whether a neighbour is a word character. -/
def wordSide (c : Option Char) : Bool :=
  match c with
  | some c => Text.isWord c
  | none => false

/-- Rounds of `step` as long as they take something, then `next`; fewer rounds where that fails. The
list bounds the number of rounds. -/
def rounds {β : Type} (step : Place → (Place → Option β) → Option β) (next : Place → Option β) :
    List Char → Place → Option β
  | [], here => next here
  | _ :: bound, here =>
    match step here fun there =>
        if here.offset < there.offset then rounds step next bound there else none with
    | some b => some b
    | none => next here

/-- First `next`; one more round of `step` where that fails. The list bounds the number of
rounds. -/
def fewRounds {β : Type} (step : Place → (Place → Option β) → Option β)
    (next : Place → Option β) : List Char → Place → Option β
  | [], here => next here
  | _ :: bound, here =>
    match next here with
    | some b => some b
    | none =>
      step here fun there =>
        if here.offset < there.offset then fewRounds step next bound there else none

/-- Tries a pattern at a place and goes on with `next` after each reading, until one succeeds. -/
def run {β : Type} : Pattern → Place → (Place → Option β) → Option β
  | empty, here, next => next here
  | one test, here, next =>
    match here.rest with
    | c :: rest => if test c then next (here.step c rest) else none
    | [] => none
  | seq p q, here, next => p.run here fun there => q.run there next
  | alt p q, here, next =>
    match p.run here next with
    | some b => some b
    | none => q.run here next
  | many p, here, next => rounds (fun here next => p.run here next) next here.rest here
  | few p, here, next => fewRounds (fun here next => p.run here next) next here.rest here
  | group number p, here, next =>
    p.run here fun there =>
      next { there with groups := (number, ⟨here.offset, here.rest, there.offset⟩) :: there.groups }
  | textStart, here, next => if here.before.isNone then next here else none
  | textEnd, here, next => if here.rest.isEmpty then next here else none
  | lineStart, here, next =>
    if here.before.isNone || here.before == some '\n' then next here else none
  | wordEdge, here, next =>
    if wordSide here.before != wordSide here.rest.head? then next here else none

/-- A reading of a pattern: where it starts and ends, and what its groups took. -/
structure Match where
  start : Nat
  stop : Place

/-- Where the group with a number has matched. -/
def Match.span? (m : Match) (number : Nat) : Option Span :=
  (m.stop.groups.find? (·.1 == number)).map (·.2)

/-- The text that a group took, empty where it took no part. -/
def Match.text (m : Match) (number : Nat) : List Char :=
  ((m.span? number).map Span.text).getD []

/-- The text that a group took, as a string. -/
def Match.string (m : Match) (number : Nat) : String :=
  String.ofList (m.text number)

/-- The match that starts at a place, if there is one. -/
def matchAt (p : Pattern) (here : Place) : Option Match :=
  p.run here fun there => some ⟨here.offset, there⟩

/-- The reading at the first place, from here on, where the pattern fits. The list is the text that
is left. -/
def searchFrom (p : Pattern) : List Char → Place → Option Match
  | [], here => p.matchAt here
  | c :: rest, here =>
    match p.matchAt here with
    | some m => some m
    | none => p.searchFrom rest (here.step c rest)

/-- The first match in a text. -/
def search (p : Pattern) (cs : List Char) : Option Match :=
  p.searchFrom cs (Place.ofText cs)

/-- Whether a pattern fits anywhere in a text. -/
def fits (p : Pattern) (cs : List Char) : Bool :=
  (p.search cs).isSome

/-- The place from which the next reading is looked for: the end of the last one, moved on by a
character if that reading took nothing. -/
def Match.resume? (m : Match) : Option Place :=
  let there := { m.stop with groups := [] }
  if m.start < there.offset then some there
  else
    match there.rest with
    | c :: rest => some (there.step c rest)
    | [] => none

/-- The readings from a place on that do not overlap, from left to right. The list bounds their
number. -/
def matchesFrom (p : Pattern) : List Char → Place → List Match
  | bound, here =>
    match p.searchFrom here.rest here with
    | none => []
    | some m =>
      m ::
        match bound, m.resume? with
        | _ :: bound, some there => p.matchesFrom bound there
        | _, _ => []

/-- The readings in a text that do not overlap, from left to right. -/
def matchesIn (p : Pattern) (cs : List Char) : List Match :=
  p.matchesFrom cs (Place.ofText cs)

/-- The text with a replacement for each reading; `done` is how much of it has been copied. -/
def replaceFrom (replacement : List Char) : Nat → List Char → List Match → List Char
  | _, cs, [] => cs
  | done, cs, m :: more =>
    cs.take (m.start - done) ++ replacement ++
      replaceFrom replacement m.stop.offset (cs.drop (m.stop.offset - done)) more

/-- The text with a replacement for each reading. -/
def replaceAll (p : Pattern) (replacement cs : List Char) : List Char :=
  replaceFrom replacement 0 cs (p.matchesIn cs)

/-! ### Building patterns -/

/-- Patterns one after the other. -/
def sequence : List Pattern → Pattern
  | [] => empty
  | [p] => p
  | p :: rest => seq p (sequence rest)

/-- The first of several patterns that fits. -/
def oneOf : List Pattern → Pattern
  | [] => one fun _ => false
  | [p] => p
  | p :: rest => alt p (oneOf rest)

/-- One given character. -/
def char (c : Char) : Pattern :=
  one (· == c)

/-- A given text. -/
def literal (s : String) : Pattern :=
  sequence (s.toList.map char)

/-- The first of several texts that fits. -/
def anyLiteral (texts : List String) : Pattern :=
  oneOf (texts.map literal)

/-- A pattern or nothing, the pattern if both fit. -/
def optional (p : Pattern) : Pattern :=
  alt p empty

/-- One or more rounds, as many as possible. -/
def atLeastOne (p : Pattern) : Pattern :=
  seq p (many p)

/-- Any number of blanks. -/
def blanks : Pattern :=
  many (one Text.isBlank)

/-- At least one blank. -/
def blanks1 : Pattern :=
  atLeastOne (one Text.isBlank)

/-- One character that is none of the given ones. -/
def noneOf (excluded : List Char) : Pattern :=
  one fun c => !excluded.contains c

end Pattern

end CodeAtlas
