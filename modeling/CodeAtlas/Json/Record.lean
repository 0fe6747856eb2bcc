import CodeAtlas.Json.Basic

/-!
Records in JSON. A record is an object with known fields, each at most once and in any order, beside
unknown ones that are skipped; or an array that gives the fields by position. A field may have more
than one spelling, and it is required, optional (`null` and absence mean the same) or has a default.
-/

namespace CodeAtlas.Json

/-- The values of a record's fields, in the order in which the record declares them. -/
structure Record where
  values : List (Option Json)
  /-- Whether the fields were given by position. -/
  positional : Bool

/-- Puts a value at a position that is still free. -/
def place (position : Nat) (j : Json) (values : List (Option Json)) :
    Option (List (Option Json)) :=
  match values[position]? with
  | some none => some (values.set position (some j))
  | _ => none

/-- The fields of an object, each under one of its spellings. -/
def placeFields (names : List (List String)) :
    List (String × Json) → List (Option Json) → Option (List (Option Json))
  | [], values => some values
  | (name, j) :: rest, values =>
    match names.findIdx? (·.contains name) with
    | none => placeFields names rest values
    | some position => (place position j values).bind (placeFields names rest)

/-- Reads a record whose fields have the given spellings. -/
def record? (names : List (List String)) : Json → Option Record
  | obj fields =>
    (placeFields names fields (names.map fun _ => none)).map fun values => ⟨values, false⟩
  | arr items =>
    if items.length ≤ names.length then
      some ⟨items.map some ++ List.replicate (names.length - items.length) none, true⟩
    else none
  | _ => none

namespace Record

/-- The value of a field, where it is given. -/
def value? (r : Record) (position : Nat) : Option Json :=
  (r.values[position]?).join

/-- The value of a field that must be there. -/
def required {α : Type} (r : Record) (position : Nat) (read : Json → Option α) : Option α :=
  (r.value? position).bind read

/-- A field that may be `null` or, in an object, absent. -/
def optional {α : Type} (r : Record) (position : Nat) (read : Json → Option α) :
    Option (Option α) :=
  match r.value? position with
  | some j => option? read j
  | none => if r.positional then none else some none

/-- A field with a value for its absence. -/
def withDefault {α : Type} (r : Record) (position : Nat) (default : α) (read : Json → Option α) :
    Option α :=
  match r.value? position with
  | some j => read j
  | none => some default

end Record

/-- The text of a choice: a string, or an object whose only field is the choice with `null`. -/
def choice? : Json → Option String
  | str s => some s
  | obj [(s, null)] => some s
  | _ => none

/-- A field that is written only if it has a value. -/
def fieldIfSome {α : Type} (name : String) (write : α → Json) : Option α → List (String × Json)
  | some a => [(name, write a)]
  | none => []

end CodeAtlas.Json
