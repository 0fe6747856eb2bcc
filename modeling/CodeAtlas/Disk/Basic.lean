import CodeAtlas.Fault
import CodeAtlas.Text.Lines
import CodeAtlas.Text.Path

/-!
A disk: directories with files, further directories and symbolic links in them. A path is followed
from its first component to its last, links included, and ends at a place whose own path has neither
links nor dots in it.
-/

namespace CodeAtlas

/-- What stands at a place on a disk. -/
inductive DiskNode where
  | file (content : ByteArray)
  | directory (entries : List (String × DiskNode))
  | link (target : String)

/-- Why a path leads nowhere, or a file's text cannot be read. -/
inductive DiskFault where
  | missing
  | notDirectory
  | isDirectory
  | tooManyLinks
  | nameTooLong
  | holdsNul
  | notText
  deriving Repr, DecidableEq

/-- What is said about a fault. -/
def DiskFault.message : DiskFault → String
  | missing => "No such file or directory (os error 2)"
  | notDirectory => "Not a directory (os error 20)"
  | isDirectory => "Is a directory (os error 21)"
  | tooManyLinks => "Too many levels of symbolic links (os error 40)"
  | nameTooLong => "File name too long (os error 36)"
  | holdsNul => "file name contained an unexpected NUL byte"
  | notText => "stream did not contain valid UTF-8"

namespace DiskNode

/-- What stands under a name in a directory. -/
def child? (name : String) : DiskNode → Option DiskNode
  | directory entries => (entries.find? (·.1 == name)).map (·.2)
  | _ => none

/-- What stands at a place below a node. -/
def at? : DiskNode → List String → Option DiskNode
  | node, [] => some node
  | node, name :: rest => (node.child? name).bind (at? · rest)

/-- A place below another one is found from there. -/
theorem at?_append (node : DiskNode) (above below : List String) :
    node.at? (above ++ below) = (node.at? above).bind (·.at? below) := by
  induction above generalizing node with
  | nil => rfl
  | cons name rest ih =>
    simp only [List.cons_append, at?]
    cases node.child? name with
    | none => rfl
    | some inner => exact ih inner

/-- What stands in a directory, by name. -/
def entries : DiskNode → List (String × DiskNode)
  | directory entries => entries
  | _ => []

/-- Puts something at a place; directories on the way are made where they are not there. -/
def put : DiskNode → List String → DiskNode → DiskNode
  | _, [], new => new
  | node, name :: rest, new =>
    directory (node.entries.filter (·.1 != name) ++
      [(name, ((node.child? name).getD (directory [])).put rest new)])

/-- What is put at a place stands there. -/
theorem at?_put_self (node new : DiskNode) (place : List String) :
    (node.put place new).at? place = some new := by
  induction place generalizing node with
  | nil => simp [put, at?]
  | cons name rest ih =>
    have fresh : (node.put (name :: rest) new).child? name =
        some (((node.child? name).getD (directory [])).put rest new) := by
      simp only [put, child?, List.find?_append]
      rw [List.find?_eq_none.mpr (by simp)]
      simp
    simp only [at?, fresh, Option.bind_some, ih]

/-- Below a place at which something is put there is what stands below that. -/
theorem at?_put_append (node new : DiskNode) (place below : List String) :
    (node.put place new).at? (place ++ below) = new.at? below := by
  rw [at?_append, at?_put_self, Option.bind_some]

end DiskNode

/-- A disk with the place that relative paths start from. -/
structure Disk where
  top : DiskNode
  /-- The names on the way from the top. -/
  here : List String

namespace Disk

/-- How many links may be followed on one path. -/
def linkLimit : Nat := 40

/-- How many bytes a name has at most. -/
def nameLimit : Nat := 255

/-- Whether a path starts at the top. -/
def isAbsolute (path : String) : Bool :=
  path.toList.head? == some '/'

/-- The place to which the components `rest` lead from a place, over at most `links` links. -/
def follow (top : DiskNode) (links : Nat) (place : List String) :
    List String → Except DiskFault (List String)
  | [] => .ok place
  | name :: rest =>
    if name = "" ∨ name = "." then follow top links place rest
    else if name = ".." then follow top links place.dropLast rest
    else if nameLimit < name.utf8ByteSize then .error .nameTooLong
    else
      match top.at? (place ++ [name]) with
      | none => .error .missing
      | some (.directory _) => follow top links (place ++ [name]) rest
      | some (.file _) => if rest.isEmpty then .ok (place ++ [name]) else .error .notDirectory
      | some (.link target) =>
        match links with
        | 0 => .error .tooManyLinks
        | links + 1 =>
          follow top links (if isAbsolute target then [] else place) (Text.segments target ++ rest)
termination_by rest => (links, rest.length)

/-- The place to which a path leads. -/
def locate (d : Disk) (path : String) : Except DiskFault (List String) :=
  if path.toList.contains '\x00' then .error .holdsNul
  else if path = "" then .error .missing
  else follow d.top linkLimit (if isAbsolute path then [] else d.here) (Text.segments path)

/-- What stands at the end of a path. -/
def find? (d : Disk) (path : String) : Option DiskNode :=
  match d.locate path with
  | .ok place => d.top.at? place
  | .error _ => none

/-- A path with another one behind it; an absolute one replaces it. -/
def join (base path : String) : String :=
  if isAbsolute path then path
  else if base = "" ∨ base.toList.getLast? = some '/' then base ++ path
  else base ++ "/" ++ path

/-- The bytes of the file at a place. -/
def contentAt (d : Disk) (place : List String) : Except DiskFault ByteArray :=
  match d.top.at? place with
  | some (.file content) => .ok content
  | some _ => .error .isDirectory
  | none => .error .missing

/-- The lines of a file, up to the first that is not text. -/
def linesOf (content : ByteArray) : List (List Char) :=
  let pieces := content.toList.splitOn 10
  let text (bytes : List UInt8) : Option (List Char) :=
    (String.fromUTF8? ⟨bytes.toArray⟩).map String.toList
  let ended := pieces.dropLast.map fun bytes => (text bytes).map Text.dropReturn
  let unended := (pieces.getLast?.filter (! ·.isEmpty)).toList.map text
  ((ended ++ unended).takeWhile Option.isSome).filterMap id

/-- The text of the file at a place. -/
def textAt (d : Disk) (place : List String) : Except DiskFault String :=
  (d.contentAt place).bind fun content =>
    match String.fromUTF8? content with
    | some text => .ok text
    | none => .error .notText

/-- The text of the file at the end of a path. -/
def read (d : Disk) (path : String) : Except DiskFault String :=
  (d.locate path).bind d.textAt

end Disk

end CodeAtlas
