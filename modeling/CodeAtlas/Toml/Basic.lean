import CodeAtlas.Json.Basic

/-!
TOML documents: values, tables, and the rules by which keys and headers may extend a table. A table
remembers how it came to be, since that decides what may still be added to it.
-/

namespace CodeAtlas

/-- How a table came to be. -/
inductive Toml.TableForm where
  /-- Written between braces; nothing can be added. -/
  | closed
  /-- Opened by a header of its own. -/
  | header
  /-- Implied by the header of a table below it, and still without one of its own. -/
  | implied
  /-- Implied by a dotted key. -/
  | dotted
  deriving Repr, DecidableEq

/-- A TOML value. -/
inductive Toml where
  | str (s : String)
  | int (n : Int)
  | float (x : Float)
  | bool (b : Bool)
  /-- A date, a time or both, as written. -/
  | moment (text : String)
  | array (items : List Toml)
  | table (form : Toml.TableForm) (fields : List (String × Toml))
  /-- The tables of an array that is written by headers. -/
  | tables (items : List Toml)

namespace Toml

/-- The fields of a table, each name once. -/
abbrev Fields : Type :=
  List (String × Toml)

/-- Changes the field of a name, or adds one. -/
def alter (name : String) (change : Option Toml → Option Toml) : Fields → Option Fields
  | [] => (change none).map fun v => [(name, v)]
  | (other, v) :: rest =>
    if other = name then (change (some v)).map fun v => (name, v) :: rest
    else (alter name change rest).map ((other, v) :: ·)

/-- Changes the fields of a table, or those of the last table of an array written by headers. -/
def enter (change : Fields → Option Fields) : Toml → Option Toml
  | table .closed _ => none
  | table form fields => (change fields).map (table form)
  | tables items =>
    match items.getLast? with
    | some (table form fields) =>
      (change fields).map fun fields => tables (items.dropLast ++ [table form fields])
    | _ => none
  | _ => none

/-- Whether a dotted key may lead through a value: through arrays written by headers, and through
tables that have neither a header nor braces of their own. The last table on its way must have come
from a dotted key itself. -/
def admitsDotted (last : Bool) : Toml → Bool
  | table .dotted _ => true
  | table .implied _ => !last
  | tables _ => !last
  | _ => false

/-- Gives a value to a dotted key, whose parts before the last one are `path`. -/
def insert : List String → String → Toml → Fields → Option Fields
  | [], key, v, fields =>
    if fields.any (·.1 == key) then none else some (fields ++ [(key, v)])
  | name :: path, key, v, fields =>
    alter name (fun
      | none => (insert path key v []).map (table .dotted)
      | some inner =>
        if admitsDotted path.isEmpty inner then enter (insert path key v) inner else none) fields

/-- Changes what stands at a header's path, whose last part is `key`; the tables on the way are
implied where they are not there. -/
def atHeader (change : Option Toml → Option Toml) : List String → String → Fields → Option Fields
  | [], key, fields => alter key change fields
  | name :: path, key, fields =>
    alter name (fun
      | none => (atHeader change path key []).map (table .implied)
      | some inner => enter (atHeader change path key) inner) fields

/-- Opens a table by its header, unless it has one. -/
def openTable : Option Toml → Option Toml
  | none => some (table .header [])
  | some (table .implied fields) => some (table .header fields)
  | _ => none

/-- Opens the next table of an array by a header. -/
def openElement : Option Toml → Option Toml
  | none => some (tables [table .header []])
  | some (tables items) => some (tables (items ++ [table .header []]))
  | _ => none

/-- A document while it is read: what it holds so far, and the header that the next key is under. -/
structure Document where
  root : Fields
  /-- The path of the header and its last part. -/
  header : Option (List String × String)

namespace Document

/-- A document without a line, before any table is opened. -/
def empty : Document :=
  ⟨[], none⟩

/-- Gives a value to a dotted key under the current header. -/
def assign (d : Document) (path : List String) (key : String) (v : Toml) : Option Document :=
  (match d.header with
    | none => insert path key v d.root
    | some (above, name) =>
      atHeader (fun here => here.bind (enter (insert path key v))) above name d.root).map
    fun root => { d with root }

/-- Opens a table, or the next table of an array. -/
def openHeader (d : Document) (element : Bool) (path : List String) (key : String) :
    Option Document :=
  (atHeader (if element then openElement else openTable) path key d.root).map fun root =>
    ⟨root, some (path, key)⟩

end Document

/-- The name of the only field of a moment's record. -/
def momentField : String :=
  "$__toml_private_datetime"

mutual

/-- The value as JSON. A moment becomes a record of its own. -/
def toJson : Toml → Json
  | str s => .str s
  | int n => .int n
  | float x => .float x
  | bool b => .bool b
  | moment text => .obj [(momentField, .str text)]
  | array items => .arr (itemsToJson items)
  | table _ fields => .obj (fieldsToJson fields)
  | tables items => .arr (itemsToJson items)

/-- The values of an array as JSON. -/
def itemsToJson : List Toml → List Json
  | [] => []
  | v :: rest => toJson v :: itemsToJson rest

/-- The fields of a table as JSON. -/
def fieldsToJson : List (String × Toml) → List (String × Json)
  | [] => []
  | (name, v) :: rest => (name, toJson v) :: fieldsToJson rest

end

end Toml

end CodeAtlas
