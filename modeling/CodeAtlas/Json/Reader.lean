import CodeAtlas.Decimal.Numeral
import CodeAtlas.Json.Basic

/-!
JSON values from text. Every reader takes the text that is left and returns the value it found
together with the rest; the fuel of the recursive ones is the length of the text, and each step
takes at least one character.
-/

namespace CodeAtlas.Json

/-- The four blanks that JSON allows between tokens. -/
def isSpace (c : Char) : Bool :=
  c == ' ' || c == '\t' || c == '\n' || c == '\r'

/-- The text from its next token on. -/
def skipSpace (cs : List Char) : List Char :=
  cs.dropWhile isSpace

/-- The value of a hexadecimal digit. -/
def hexValue? (c : Char) : Option Nat :=
  if '0' ≤ c ∧ c ≤ '9' then some (c.toNat - 48)
  else if 'a' ≤ c ∧ c ≤ 'f' then some (c.toNat - 87)
  else if 'A' ≤ c ∧ c ≤ 'F' then some (c.toNat - 55)
  else none

/-- Four hexadecimal digits as a number. -/
def readUnit : List Char → Option (Nat × List Char)
  | a :: b :: c :: d :: rest => do
    let a ← hexValue? a
    let b ← hexValue? b
    let c ← hexValue? c
    let d ← hexValue? d
    some (a * 4096 + b * 256 + c * 16 + d, rest)
  | _ => none

/-- The character that a letter stands for after a backslash. -/
def escape? (c : Char) : Option Char :=
  match c with
  | '"' => some '"'
  | '\\' => some '\\'
  | '/' => some '/'
  | 'b' => some '\x08'
  | 'f' => some '\x0c'
  | 'n' => some '\n'
  | 'r' => some '\r'
  | 't' => some '\t'
  | _ => none

/-- The rest of a string after its opening quote. `read` is what has been read, backwards, or `none`
once half a surrogate pair has been met. -/
def readString : Nat → Option (List Char) → List Char → Option (Option String × List Char)
  | 0, _, _ => none
  | _ + 1, _, [] => none
  | fuel + 1, read, c :: rest =>
    if c = '"' then some (read.map fun cs => String.ofList cs.reverse, rest)
    else if c.toNat < 32 then none
    else if c ≠ '\\' then readString fuel (read.map (c :: ·)) rest
    else
      match rest with
      | 'u' :: rest =>
        match readUnit rest with
        | none => none
        | some (high, rest) =>
          if high < 0xD800 ∨ 0xDFFF < high then
            readString fuel (read.map (Char.ofNat high :: ·)) rest
          else if 0xDC00 ≤ high then readString fuel none rest
          else
            match rest with
            | '\\' :: 'u' :: more =>
              match readUnit more with
              | none => none
              | some (low, after) =>
                if 0xDC00 ≤ low ∧ low ≤ 0xDFFF then
                  let point := 0x10000 + (high - 0xD800) * 1024 + (low - 0xDC00)
                  readString fuel (read.map (Char.ofNat point :: ·)) after
                else readString fuel none rest
            | _ => readString fuel none rest
      | e :: rest =>
        match escape? e with
        | some ch => readString fuel (read.map (ch :: ·)) rest
        | none => none
      | [] => none

/-- The value of a number's text: its sign, its whole digits, its decimal places and its exponent.
Without the last two it stays whole if 64 bits hold it. -/
def numberValue (negative : Bool) (whole : List Char) (places : Option (List Char))
    (exponent : Option Int) : Json :=
  let n := Decimal.digitsValue whole
  let value : Int := if negative then -(n : Int) else n
  if places.isNone && exponent.isNone && isWhole value && !(negative && n == 0) then int value
  else
    match Decimal.quick? whole (places.getD []) (exponent.getD 0) with
    | some x => float (if negative then -x else x)
    | none => hollow

/-- Decimal places after a point, at least one. -/
def readPlaces : List Char → Option (Option (List Char) × List Char)
  | '.' :: rest =>
    let digits := rest.takeWhile Char.isDigit
    if digits.isEmpty then none else some (some digits, rest.dropWhile Char.isDigit)
  | cs => some (none, cs)

/-- An exponent after its letter, with at least one digit. -/
def readExponent : List Char → Option (Option Int × List Char)
  | e :: rest =>
    if e = 'e' ∨ e = 'E' then
      let (negative, rest) :=
        match rest with
        | '-' :: rest => (true, rest)
        | '+' :: rest => (false, rest)
        | _ => (false, rest)
      let digits := rest.takeWhile Char.isDigit
      if digits.isEmpty then none
      else
        let n : Int := Decimal.digitsValue digits
        some (some (if negative then -n else n), rest.dropWhile Char.isDigit)
    else some (none, e :: rest)
  | [] => some (none, [])

/-- A number after its sign: no zero stands before other whole digits. -/
def readNumber (negative : Bool) (cs : List Char) : Option (Json × List Char) := do
  let whole := cs.takeWhile Char.isDigit
  if whole.isEmpty || (whole.length > 1 && whole.head? == some '0') then none
  let (places, rest) ← readPlaces (cs.dropWhile Char.isDigit)
  let (exponent, rest) ← readExponent rest
  some (numberValue negative whole places exponent, rest)

/-- The rest of the text after a given word. -/
def readWord (word : String) (j : Json) (cs : List Char) : Option (Json × List Char) :=
  if cs.take word.length = word.toList then some (j, cs.drop word.length) else none

mutual

/-- A value that starts at the first character. -/
def readValue : Nat → List Char → Option (Json × List Char)
  | 0, _ => none
  | _ + 1, [] => none
  | fuel + 1, c :: rest =>
    if c = '"' then
      (readString (rest.length + 1) (some []) rest).map fun (s, rest) =>
        ((match s with | some s => str s | none => hollow), rest)
    else if c = '[' then
      match skipSpace rest with
      | ']' :: rest => some (arr [], rest)
      | rest => readItems fuel [] rest
    else if c = '\x7b' then
      match skipSpace rest with
      | '\x7d' :: rest => some (obj [], rest)
      | rest => readFields fuel (some []) rest
    else if c = '-' then readNumber true rest
    else if c.isDigit then readNumber false (c :: rest)
    else if c = 't' then readWord "true" (bool true) (c :: rest)
    else if c = 'f' then readWord "false" (bool false) (c :: rest)
    else if c = 'n' then readWord "null" null (c :: rest)
    else none

/-- The items of an array from the next one on; `read` holds the earlier ones, backwards. -/
def readItems : Nat → List Json → List Char → Option (Json × List Char)
  | 0, _, _ => none
  | fuel + 1, read, cs =>
    match readValue fuel cs with
    | none => none
    | some (j, rest) =>
      match skipSpace rest with
      | ',' :: rest => readItems fuel (j :: read) (skipSpace rest)
      | ']' :: rest => some (arr (j :: read).reverse, rest)
      | _ => none

/-- The fields of an object from the next one on. `read` holds the earlier ones, backwards, or
`none` once a name has been met that holds half a surrogate pair. -/
def readFields : Nat → Option (List (String × Json)) → List Char → Option (Json × List Char)
  | 0, _, _ => none
  | fuel + 1, read, cs =>
    match cs with
    | '"' :: rest =>
      match readString (rest.length + 1) (some []) rest with
      | none => none
      | some (name, rest) =>
        match skipSpace rest with
        | ':' :: rest =>
          match readValue fuel (skipSpace rest) with
          | none => none
          | some (j, rest) =>
            let read := read.bind fun fields => name.map fun name => (name, j) :: fields
            match skipSpace rest with
            | ',' :: rest => readFields fuel read (skipSpace rest)
            | '\x7d' :: rest =>
              some ((match read with | some fields => obj fields.reverse | none => hollow), rest)
            | _ => none
        | _ => none
    | _ => none

end

/-- The value that a text holds, if it holds exactly one. -/
def parse? (text : String) : Option Json :=
  let cs := skipSpace text.toList
  match readValue (cs.length + 1) cs with
  | some (j, rest) => if (skipSpace rest).isEmpty then some j else none
  | none => none

end CodeAtlas.Json
