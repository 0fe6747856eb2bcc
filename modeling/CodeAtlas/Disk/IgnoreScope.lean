import CodeAtlas.Disk.IgnoreList
import CodeAtlas.Disk.Records

/-!
What the directories above a path say about it: each may hold lists of what is ignored below it, and
those of one kind hold up to the top of the repository only.
-/

namespace CodeAtlas

/-- What a directory says about the paths below it. -/
structure IgnoreScope where
  /-- The directory's place. -/
  place : List String
  /-- The list that holds everywhere. -/
  general : IgnoreList
  /-- The list that holds within a repository. -/
  versioned : IgnoreList
  /-- The list that the repository keeps to itself. -/
  excluded : IgnoreList
  /-- Whether a repository starts here. -/
  isRepository : Bool

namespace IgnoreScope

/-- What the directory at a place says. -/
def ofPlace (d : Disk) (place : List String) : IgnoreScope where
  place := place
  general := .ofFile d (d.locateFrom place ".ignore")
  versioned := .ofFile d (d.locateFrom place ".gitignore")
  excluded := .ofFile d (d.locateExclude place)
  isRepository := d.isRepository place

/-- The scopes of a place and of all directories above it, the nearest first. -/
def chain (d : Disk) (place : List String) : List IgnoreScope :=
  ((List.range (place.length + 1)).map fun n => ofPlace d (place.take n)).reverse

/-- The scopes up to the nearest one where a repository starts; none outside of repositories. -/
def withinRepository (scopes : List IgnoreScope) : List IgnoreScope :=
  match scopes.findIdx? (·.isRepository) with
  | some n => scopes.take (n + 1)
  | none => []

/-- Whether a place is ignored, given the scopes of the directories above it, the nearest first. A
general list goes before a versioned one, and that before the excluded ones; among lists of one kind
the nearest that says anything decides. -/
def ignores (scopes : List IgnoreScope) (place : List String) (isDirectory : Bool) : Bool :=
  let verdict? (list : IgnoreScope → IgnoreList) (scopes : List IgnoreScope) : Option Bool :=
    scopes.findSome? fun s =>
      (list s).verdict? (Text.joinSegments (place.drop s.place.length)) isDirectory
  let repository := withinRepository scopes
  ((verdict? general scopes).or ((verdict? versioned repository).or
    (verdict? excluded repository))).getD false

end IgnoreScope

end CodeAtlas
