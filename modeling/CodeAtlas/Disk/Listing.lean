import CodeAtlas.Disk.IgnoreScope
import CodeAtlas.Repository.Build
import CodeAtlas.Repository.Reference

/-!
A directory on disk as a repository: its listing leaves out what the repository ignores, links, and
the repository's own records at the top; its files are read by path, and no path may leave the
directory. Its only branch is the current state.
-/

namespace CodeAtlas

/-- A directory on a disk, by the path that was given for it. -/
structure LocalDirectory where
  disk : Disk
  path : String

namespace LocalDirectory

/-- The branch of a directory that is read as it is. -/
def branch : String :=
  "HEAD"

/-- The last name of the place where the directory is, or the path if it leads nowhere. -/
def name (d : LocalDirectory) : String :=
  match d.disk.locate d.path with
  | .ok place => place.getLast?.getD d.path
  | .error _ => d.path

mutual

/-- The listing of what stands at a place, `path` being its path in the listing. -/
def listNode (disk : Disk) (scopes : List IgnoreScope) (place path : List String) :
    DiskNode → List ListingEntry
  | .file content =>
    if IgnoreScope.ignores scopes place false then []
    else [.blob (Text.joinSegments path) content.size]
  | .directory entries =>
    if IgnoreScope.ignores scopes place true then []
    else
      ⟨Text.joinSegments path, .tree, none⟩ ::
        listEntries disk (.ofPlace disk place :: scopes) place path entries
  | .link _ => []

/-- The listing of what stands in a directory. -/
def listEntries (disk : Disk) (scopes : List IgnoreScope) (place path : List String) :
    List (String × DiskNode) → List ListingEntry
  | [] => []
  | (name, node) :: rest =>
    (if path.isEmpty && name == Disk.recordsName then []
      else listNode disk scopes (place ++ [name]) (path ++ [name]) node) ++
      listEntries disk scopes place path rest

end

/-- What is listed below a directory. -/
def tree (d : LocalDirectory) : Except Fault (List ListingEntry) :=
  match d.disk.locate d.path with
  | .ok place =>
    match d.disk.top.at? place with
    | some (.directory entries) =>
      .ok (listEntries d.disk (IgnoreScope.chain d.disk place) place [] entries)
    | _ => .error (.provider (d.path ++ " is not a directory"))
  | .error _ => .error (.provider (d.path ++ " is not a directory"))

/-- The place of a file in the directory. -/
def locateFile (d : LocalDirectory) (path : String) : Except Fault (List String) :=
  match d.disk.locate d.path, d.disk.locate (Disk.join d.path path) with
  | .error e, _ => .error (.io e.message)
  | .ok _, .error e => .error (.io e.message)
  | .ok root, .ok place =>
    if root.isPrefixOf place then .ok place
    else .error (.provider ("path " ++ path ++ " escapes repository root"))

/-- The text of a file in the directory. -/
def content (d : LocalDirectory) (path : String) : Except Fault String :=
  (d.locateFile path).bind fun place => (d.disk.textAt place).mapError fun e => .io e.message

/-- The directory as the only repository of a provider. -/
def provider (d : LocalDirectory) : Provider where
  defaultBranch _ _ := .ok branch
  listing _ _ _ := d.tree
  contents _ _ _ path := d.content path

/-- The directory as a source of graphs. -/
def source (d : LocalDirectory) : RepoOrigin :=
  .directory d.path d.name

end LocalDirectory

end CodeAtlas
