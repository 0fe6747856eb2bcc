/-!
Glob patterns over paths. `?` is any character and `*` any run of characters, slashes included; `**`
is a whole component and stands for any number of components; brackets hold a class of characters,
negated by an exclamation mark. Case counts.
-/

namespace CodeAtlas

namespace Glob

/-- A member of a class of characters. -/
inductive Member where
  | single (c : Char)
  | range (first last : Char)
  deriving Repr, DecidableEq

/-- Whether a character is the member or lies in its range. -/
def Member.has : Member → Char → Bool
  | single c, x => x == c
  | range first last, x => decide (first ≤ x) && decide (x ≤ last)

/-- A part of a pattern. -/
inductive Token where
  | literal (c : Char)
  | anyChar
  | anyRun
  /-- Any number of whole components. -/
  | anyComponents
  | within (members : List Member)
  | except (members : List Member)
  deriving Repr, DecidableEq

/-- The members that the inside of a pair of brackets lists. -/
def members : List Char → List Member
  | a :: '-' :: b :: rest => .range a b :: members rest
  | c :: rest => .single c :: members rest
  | [] => []

/-- Cuts a text before the first closing bracket, which is dropped. -/
def upToBracket (cs : List Char) : Option (List Char × List Char) :=
  match cs.dropWhile (· ≠ ']') with
  | _ :: rest => some (cs.takeWhile (· ≠ ']'), rest)
  | [] => none

/-- Reads a class of characters after its opening bracket. The first character inside it is a member
even if it is a closing bracket. -/
def readClass : List Char → Option (Token × List Char)
  | '!' :: c :: rest =>
    (upToBracket rest).map fun (inside, rest) => (.except (members (c :: inside)), rest)
  | '!' :: [] => none
  | c :: rest =>
    (upToBracket rest).map fun (inside, rest) => (.within (members (c :: inside)), rest)
  | [] => none

/-- Adds the token of `**`, unless one stands there already. -/
def addComponents (read : List Token) : List Token :=
  match read with
  | .anyComponents :: _ :: _ => read
  | _ => .anyComponents :: read

/-- Reads a pattern on after the character `before`; `read` holds the tokens so far, backwards. The
fuel is the length of the text. A pattern is invalid if a class is not closed, three stars follow
each other, or `**` is not a whole component. -/
def readTokens : Nat → Option Char → List Token → List Char → Option (List Token)
  | _, _, read, [] => some read.reverse
  | 0, _, _, _ :: _ => none
  | fuel + 1, before, read, c :: rest =>
    if c = '?' then readTokens fuel (some c) (.anyChar :: read) rest
    else if c = '*' then
      match rest with
      | '*' :: '*' :: _ => none
      | '*' :: rest =>
        if before = none ∨ before = some '/' then
          match rest with
          | [] => some (addComponents read).reverse
          | '/' :: rest => readTokens fuel (some '/') (addComponents read) rest
          | _ => none
        else none
      | _ => readTokens fuel (some c) (.anyRun :: read) rest
    else if c = '[' then
      match readClass rest with
      | some (token, rest) => readTokens fuel (some ']') (token :: read) rest
      | none => none
    else readTokens fuel (some c) (.literal c :: read) rest

/-- How a pattern fares on a text: it fits, it fails here, or the text is too short for it from
anywhere further on as well. -/
inductive Outcome where
  | fits
  | fails
  | tooShort
  deriving Repr, DecidableEq

/-- Tries `next` after each further character of the text, or after each slash only. -/
def extend (slashOnly : Bool) (next : List Char → Outcome) : List Char → Outcome
  | [] => next []
  | c :: rest =>
    if slashOnly && c ≠ '/' then extend slashOnly next rest
    else
      match next rest with
      | .fails => extend slashOnly next rest
      | outcome => outcome

/-- Whether a single character is what a token asks for. -/
def Token.accepts : Token → Char → Bool
  | literal c, x => x == c
  | anyChar, _ => true
  | within ms, x => ms.any (·.has x)
  | except ms, x => !ms.any (·.has x)
  | anyRun, _ => false
  | anyComponents, _ => false

/-- How a text fits what is left of a pattern. A run takes more only where the rest of the pattern
fails. -/
def tryTokens : List Token → List Char → Outcome
  | [], [] => .fits
  | [], _ :: _ => .fails
  | token :: tokens, cs =>
    if token = .anyRun ∨ token = .anyComponents then
      match tryTokens tokens cs with
      | .fails => extend (token == .anyComponents) (tryTokens tokens) cs
      | outcome => outcome
    else
      match cs with
      | [] => .tooShort
      | c :: rest => if token.accepts c then tryTokens tokens rest else .fails

end Glob

/-- A valid pattern, with the text it was read from. -/
structure Glob where
  text : String
  tokens : List Glob.Token
  deriving Repr, DecidableEq

namespace Glob

/-- The pattern that a text holds, if it is a valid one. -/
def parse? (text : String) : Option Glob :=
  (readTokens text.length none [] text.toList).map fun tokens => ⟨text, tokens⟩

/-- Whether a pattern fits a whole path. -/
def fits (g : Glob) (path : String) : Bool :=
  tryTokens g.tokens path.toList == .fits

end Glob

end CodeAtlas
