import CodeAtlas.Disk.Basic

/-!
Where a repository keeps records of its own. Its top directory holds an entry `.git` or `.jj`. The
list of what only this copy of the repository ignores lies in the directory `.git`; a file of that
name points to another directory instead, where the file `commondir` names the one that several
copies share.
-/

namespace CodeAtlas.Disk

/-- The name under which a repository keeps its records. -/
def recordsName : String :=
  ".git"

/-- The names of entries, any of which makes a directory the top of a repository. -/
def recordsNames : List String :=
  [recordsName, ".jj"]

/-- The place to which a path leads from a directory. -/
def locateFrom (d : Disk) (place : List String) (path : String) : Except DiskFault (List String) :=
  locate ⟨d.top, place⟩ path

/-- Whether a repository starts at a place. -/
def isRepository (d : Disk) (place : List String) : Bool :=
  recordsNames.any fun name => (d.locateFrom place name).isOk

/-- What stands before the path in a file that points to records. -/
def pointerMark : String :=
  "gitdir: "

/-- The path that a file in place of records points to. -/
def pointer? (content : ByteArray) : Option String :=
  match linesOf content with
  | [] => none
  | line :: _ =>
    if pointerMark.toList.isPrefixOf line then
      some (String.ofList (line.drop pointerMark.length))
    else none

mutual

/-- The paths that the files in place of records point to, at a node under a name and below it. -/
def pointersOf (name : String) : DiskNode → List String
  | .file content => if name == recordsName then (pointer? content).toList else []
  | .directory entries => pointersAmong entries
  | .link _ => []

/-- The paths that the files in place of records point to, among entries of a directory. -/
def pointersAmong : List (String × DiskNode) → List String
  | [] => []
  | (name, node) :: rest => pointersOf name node ++ pointersAmong rest

end

/-- The paths that all files in place of records point to. -/
def pointers (top : DiskNode) : List String :=
  pointersOf "" top

/-- The path of the file that names the shared directory. -/
def sharingPath (records : String) : String :=
  join records "commondir"

/-- The path of the directory that a repository with records at a path shares with others. -/
def shared? (d : Disk) (records : String) : Option String :=
  match (d.locate (sharingPath records)).bind d.contentAt with
  | .error _ => none
  | .ok content =>
    (linesOf content).head?.map fun line =>
      let path := String.ofList line
      if line.head? = some '.' then join records path else path

/-- The path of the list that a repository keeps to itself, within its records. -/
def excludePath (records : String) : String :=
  join records "info/exclude"

/-- The place of the list that the repository at a place keeps to itself. The paths in its files
start where all relative paths do. -/
def locateExclude (d : Disk) (place : List String) : Except DiskFault (List String) :=
  match (d.locateFrom place recordsName).bind d.contentAt with
  | .error _ => d.locateFrom place (excludePath recordsName)
  | .ok content =>
    match (pointer? content).bind d.shared? with
    | some shared => d.locate (excludePath shared)
    | none => .error .missing

end CodeAtlas.Disk
