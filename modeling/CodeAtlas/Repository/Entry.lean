import CodeAtlas.Graph.Record

/-!
Listings of a repository: the paths in it, each a file, a directory or a reference to another
repository.
-/

namespace CodeAtlas

/-- What a path in a listing is. -/
inductive EntryKind where
  | blob
  | tree
  | commit
  deriving Repr, DecidableEq, Inhabited

namespace EntryKind

/-- The name of a kind of entries in records. -/
def name : EntryKind → String
  | blob => "blob"
  | tree => "tree"
  | commit => "commit"

/-- The kind of entries with a name. -/
def ofName? (s : String) : Option EntryKind :=
  [blob, tree, commit].find? (·.name == s)

/-- Every kind is found under its own name. -/
theorem ofName?_name (k : EntryKind) : ofName? k.name = some k := by
  cases k <;> decide

end EntryKind

/-- A path in a listing, with its size in bytes where that is known. -/
structure ListingEntry where
  path : String
  kind : EntryKind
  size : Option Nat
  deriving Repr, DecidableEq, Inhabited

namespace ListingEntry

/-- A file of a size. -/
def blob (path : String) (size : Nat) : ListingEntry :=
  ⟨path, .blob, some size⟩

/-- Reads an entry. Only the size may be left out. -/
def ofJson? (j : Json) : Option ListingEntry := do
  let r ← j.record? [["path"], ["type"], ["size"]]
  some {
    path := ← r.required 0 Json.str?
    kind := ← r.required 1 fun k => k.choice?.bind EntryKind.ofName?
    size := ← r.optional 2 (Json.natBelow? countBound) }

end ListingEntry

end CodeAtlas
