import CodeAtlas.Json.Reader
import CodeAtlas.Toml.Basic

/-!
The words of a TOML document: blanks and comments, keys, strings, numbers and moments. Every reader
takes the text that is left and returns what it found together with the rest.
-/

namespace CodeAtlas.Toml

/-- Whether a character is a blank within a line. -/
def isBlank (c : Char) : Bool :=
  c == ' ' || c == '\t'

/-- Whether a character may stand in a comment; those in strings are of the same kind. -/
def isPlain (c : Char) : Bool :=
  c == '\t' || (decide (' ' ≤ c) && c != '\x7f')

/-- What comes after the blanks at the front. -/
def skipBlanks (cs : List Char) : List Char :=
  cs.dropWhile isBlank

/-- What comes after a line ending at the front. -/
def afterNewline? : List Char → Option (List Char)
  | '\n' :: rest => some rest
  | '\r' :: '\n' :: rest => some rest
  | _ => none

/-- The text after the blanks, the comment and the end of a line. -/
def endLine? (cs : List Char) : Option (List Char) :=
  let rest :=
    match skipBlanks cs with
    | '#' :: comment => comment.dropWhile isPlain
    | rest => rest
  if rest.isEmpty then some [] else afterNewline? rest

/-- The text after the blanks, line ends and whole comments at its beginning. -/
def skipFiller : Nat → List Char → List Char
  | 0, cs => cs
  | _ + 1, [] => []
  | fuel + 1, c :: rest =>
    if isBlank c then skipFiller fuel rest
    else
      let line := if c = '#' then rest.dropWhile isPlain else c :: rest
      match afterNewline? line with
      | some next => skipFiller fuel next
      | none => c :: rest

/-- The text after the blanks and line ends at its beginning. -/
def skipLines : List Char → List Char
  | '\r' :: '\n' :: rest => skipLines rest
  | c :: rest => if isBlank c || c == '\n' then skipLines rest else c :: rest
  | [] => []

/-- A character by its code point in a fixed number of hexadecimal digits. -/
def readPoint (digits : Nat) (cs : List Char) : Option (Char × List Char) := do
  let values ← (cs.take digits).mapM Json.hexValue?
  let point := values.foldl (fun n d => 16 * n + d) 0
  if values.length = digits ∧ Nat.isValidChar point then some (Char.ofNat point, cs.drop digits)
  else none

/-- A character from what follows a backslash. -/
def readEscape : List Char → Option (Char × List Char)
  | 'b' :: rest => some ('\x08', rest)
  | 'f' :: rest => some ('\x0c', rest)
  | 'n' :: rest => some ('\n', rest)
  | 'r' :: rest => some ('\r', rest)
  | 't' :: rest => some ('\t', rest)
  | '\\' :: rest => some ('\\', rest)
  | '"' :: rest => some ('"', rest)
  | 'u' :: rest => readPoint 4 rest
  | 'U' :: rest => readPoint 8 rest
  | _ => none

/-- The rest of a string with escapes on one line, after its opening quote; `read` is what has been
read, backwards. -/
def readBasic : Nat → List Char → List Char → Option (String × List Char)
  | 0, _, _ => none
  | _ + 1, _, [] => none
  | fuel + 1, read, c :: rest =>
    if c = '"' then some (String.ofList read.reverse, rest)
    else if c = '\\' then
      (readEscape rest).bind fun (ch, rest) => readBasic fuel (ch :: read) rest
    else if isPlain c then readBasic fuel (c :: read) rest
    else none

/-- The rest of a string without escapes on one line, after its opening quote. -/
def readLiteral (cs : List Char) : Option (String × List Char) :=
  let content := cs.takeWhile fun c => isPlain c && c != '\''
  match cs.drop content.length with
  | '\'' :: rest => some (String.ofList content, rest)
  | _ => none

/-- The rest of a string over several lines, which ends at three quotes; one or two quotes more
belong to it. -/
def readLong (quote : Char) (escapes : Bool) :
    Nat → List Char → List Char → Option (String × List Char)
  | 0, _, _ => none
  | _ + 1, _, [] => none
  | fuel + 1, read, c :: rest =>
    let run := ((c :: rest).takeWhile (· == quote)).length
    if 3 ≤ run then
      let own := min run 5 - 3
      some (String.ofList (List.replicate own quote ++ read).reverse, (c :: rest).drop (own + 3))
    else if escapes && c == '\\' then
      match afterNewline? (skipBlanks rest) with
      | some next => readLong quote escapes fuel read (skipLines next)
      | none =>
        (readEscape rest).bind fun (ch, rest) => readLong quote escapes fuel (ch :: read) rest
    else if isPlain c then readLong quote escapes fuel (c :: read) rest
    else
      match afterNewline? (c :: rest) with
      | some next => readLong quote escapes fuel ('\n' :: read) next
      | none => none

/-- A string over several lines after its three opening quotes; a line's end behind them is not part
of it. -/
def readLongString (quote : Char) (escapes : Bool) (cs : List Char) :
    Option (String × List Char) :=
  readLong quote escapes (cs.length + 1) [] ((afterNewline? cs).getD cs)

/-- A string of any of the four kinds. -/
def readString : List Char → Option (String × List Char)
  | '"' :: '"' :: '"' :: rest => readLongString '"' true rest
  | '\'' :: '\'' :: '\'' :: rest => readLongString '\'' false rest
  | '"' :: rest => readBasic (rest.length + 1) [] rest
  | '\'' :: rest => readLiteral rest
  | _ => none

/-- Whether a character may stand in a key without quotes. -/
def isKeyChar (c : Char) : Bool :=
  c.isAlphanum || c == '-' || c == '_'

/-- A part of a key: quoted in one of two ways, or bare. -/
def readKeyPart : List Char → Option (String × List Char)
  | '"' :: rest => readBasic (rest.length + 1) [] rest
  | '\'' :: rest => readLiteral rest
  | cs =>
    let name := cs.takeWhile isKeyChar
    if name.isEmpty then none else some (String.ofList name, cs.drop name.length)

/-- How deep keys and values may be nested. -/
def nestingLimit : Nat := 80

/-- The parts of a dotted key, at most `fuel` of them, with the blanks around them. -/
def readKeyParts : Nat → List Char → Option (List String × List Char)
  | 0, _ => none
  | fuel + 1, cs =>
    match readKeyPart (skipBlanks cs) with
    | none => none
    | some (name, rest) =>
      match skipBlanks rest with
      | '.' :: rest => (readKeyParts fuel rest).map fun (names, rest) => (name :: names, rest)
      | rest => some ([name], rest)

/-- A dotted key: the parts before the last one, and the last. -/
def readKey (cs : List Char) : Option ((List String × String) × List Char) := do
  let (names, rest) ← readKeyParts (nestingLimit - 1) cs
  let last ← names.getLast?
  some ((names.dropLast, last), rest)

/-- Digits, between any two of which an underscore may stand. -/
def readDigits (isDigit : Char → Bool) : List Char → Option (List Char × List Char)
  | [] => none
  | c :: rest =>
    if isDigit c then
      match rest with
      | '_' :: more => (readDigits isDigit more).map fun (digits, rest) => (c :: digits, rest)
      | d :: more =>
        if isDigit d then
          (readDigits isDigit (d :: more)).map fun (digits, rest) => (c :: digits, rest)
        else some ([c], d :: more)
      | [] => some ([c], [])
    else none

/-- A sign, where there is one, and whether it is a minus. -/
def readSign : List Char → Bool × List Char
  | '-' :: rest => (true, rest)
  | '+' :: rest => (false, rest)
  | cs => (false, cs)

/-- The decimal places, where there is a point. -/
def readPlaces : List Char → Option (Option (List Char) × List Char)
  | '.' :: rest => (readDigits Char.isDigit rest).map fun (digits, rest) => (some digits, rest)
  | cs => some (none, cs)

/-- The exponent, where there is one. -/
def readExponent : List Char → Option (Option Int × List Char)
  | [] => some (none, [])
  | c :: rest =>
    if c = 'e' ∨ c = 'E' then
      let (negative, rest) := readSign rest
      (readDigits Char.isDigit rest).map fun (digits, rest) =>
        let n : Int := Decimal.digitsValue digits
        (some (if negative then -n else n), rest)
    else some (none, c :: rest)

/-- A whole number, where it is one of 64 bits with a sign. -/
def whole? (n : Int) : Option Toml :=
  if -9223372036854775808 ≤ n ∧ n ≤ 9223372036854775807 then some (int n) else none

/-- The floating-point number of a sign and digits. A positive one beyond the doubles is refused, a
negative one is minus infinity. -/
def float? (negative : Bool) (digits places : List Char) (exponent : Int) : Option Toml :=
  match Decimal.nearest? (Decimal.digitsValue (digits ++ places)) (exponent - places.length) with
  | some x => some (float (if negative then -x else x))
  | none => if negative then some (float (-(1.0 / 0.0))) else none

/-- A whole number in a base other than ten. -/
def readRadix (base : Nat) (cs : List Char) : Option (Toml × List Char) := do
  let (digits, rest) ← readDigits (fun c => ((Json.hexValue? c).filter (· < base)).isSome) cs
  let n := digits.foldl (fun n c => base * n + (Json.hexValue? c).getD 0) 0
  (whole? n).map fun v => (v, rest)

/-- Whole digits: a zero alone, or digits that start with another one. -/
def readWhole : List Char → Option (List Char × List Char)
  | '0' :: rest => some (['0'], rest)
  | cs => readDigits Char.isDigit cs

/-- A number in base ten after its sign. -/
def readDecimal (negative : Bool) : List Char → Option (Toml × List Char)
  | 'i' :: 'n' :: 'f' :: rest =>
    some (float (if negative then -(1.0 / 0.0) else 1.0 / 0.0), rest)
  | 'n' :: 'a' :: 'n' :: rest => some (float (0.0 / 0.0), rest)
  | cs => do
    let (digits, rest) ← readWhole cs
    let (places, rest) ← readPlaces rest
    let (exponent, rest) ← readExponent rest
    let v ←
      match places, exponent with
      | none, none =>
        let n : Int := Decimal.digitsValue digits
        whole? (if negative then -n else n)
      | _, _ => float? negative digits (places.getD []) (exponent.getD 0)
    some (v, rest)

/-- A number: of a base that its prefix tells, else of base ten with a sign perhaps. -/
def readNumber : List Char → Option (Toml × List Char)
  | '0' :: 'x' :: rest => readRadix 16 rest
  | '0' :: 'o' :: rest => readRadix 8 rest
  | '0' :: 'b' :: rest => readRadix 2 rest
  | cs =>
    let (negative, rest) := readSign cs
    readDecimal negative rest

/-- A number of exactly `count` digits that lies within bounds. -/
def readField (count low high : Nat) (cs : List Char) : Option (Nat × List Char) :=
  let digits := cs.take count
  let n := Decimal.digitsValue digits
  if digits.length = count ∧ digits.all Char.isDigit ∧ low ≤ n ∧ n ≤ high then
    some (n, cs.drop count)
  else none

/-- What comes after a character, if that stands at the front. -/
def after? (c : Char) : List Char → Option (List Char)
  | d :: rest => if d = c then some rest else none
  | [] => none

/-- How many days a month of a year has. -/
def daysInMonth (year month : Nat) : Nat :=
  if month = 2 then if year % 4 = 0 ∧ (year % 100 ≠ 0 ∨ year % 400 = 0) then 29 else 28
  else if [4, 6, 9, 11].contains month then 30
  else 31

/-- What comes after a date that exists. -/
def afterDate? (cs : List Char) : Option (List Char) := do
  let (year, rest) ← readField 4 0 9999 cs
  let (month, rest) ← readField 2 1 12 (← after? '-' rest)
  let (_, rest) ← readField 2 1 (daysInMonth year month) (← after? '-' rest)
  some rest

/-- The text after a time of day. -/
def afterTime? (cs : List Char) : Option (List Char) := do
  let (_, rest) ← readField 2 0 23 cs
  let (_, rest) ← readField 2 0 59 (← after? ':' rest)
  let (_, rest) ← readField 2 0 60 (← after? ':' rest)
  match rest with
  | '.' :: d :: more => if d.isDigit then some (more.dropWhile Char.isDigit) else some rest
  | _ => some rest

/-- The text after an offset from the meridian, where one stands. -/
def afterOffset (cs : List Char) : List Char :=
  match cs with
  | [] => []
  | c :: rest =>
    if c = 'Z' ∨ c = 'z' then rest
    else if c = '+' ∨ c = '-' then
      (do
        let (_, rest) ← readField 2 0 23 rest
        let (_, rest) ← readField 2 0 59 (← after? ':' rest)
        some rest).getD cs
    else cs

/-- The text after a moment: a date with or without a time of day, or a time of day alone. -/
def afterMoment? (cs : List Char) : Option (List Char) :=
  match afterDate? cs with
  | none => afterTime? cs
  | some rest =>
    match rest with
    | c :: more =>
      if c = 'T' ∨ c = 't' ∨ c = ' ' then some (((afterTime? more).map afterOffset).getD rest)
      else some rest
    | [] => some []

/-- A moment, or else a number. -/
def readMomentOrNumber (cs : List Char) : Option (Toml × List Char) :=
  match afterMoment? cs with
  | some rest => some (moment (String.ofList (cs.take (cs.length - rest.length))), rest)
  | none => readNumber cs

end CodeAtlas.Toml
