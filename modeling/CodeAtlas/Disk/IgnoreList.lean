import CodeAtlas.Disk.Basic
import CodeAtlas.Disk.IgnorePattern

/-!
Lists of what a repository ignores. A line holds a pattern; an exclamation mark in front keeps what
an earlier line ignores, a slash at the end restricts the line to directories, and a pattern without
a slash before its end holds at any depth. Of the lines that fit a path the last one decides.
-/

namespace CodeAtlas

/-- A line of a list. -/
structure IgnoreRule where
  pattern : IgnorePattern
  keeps : Bool
  directoriesOnly : Bool

namespace IgnoreRule

/-- A line without the slash at its end, which may be escaped, and whether it had one. -/
def dropSlash (line : List Char) : List Char × Bool :=
  match line.reverse with
  | '/' :: '\\' :: before => (before.reverse, true)
  | '/' :: before => (before.reverse, true)
  | _ => (line, false)

/-- Whether a text starts with `**` as a whole component. -/
def startsAnywhere : List Char → Bool
  | ['*', '*'] => true
  | '*' :: '*' :: '/' :: _ => true
  | _ => false

/-- The pattern's text for a line: one without a slash holds at any depth, and one that ends in `**`
does not stand for the directory itself. -/
def patternText (anchored : Bool) (line : List Char) : List Char :=
  let anywhere := !anchored && !line.contains '/' && !startsAnywhere line
  let text := if anywhere then '*' :: '*' :: '/' :: line else line
  if text.reverse.take 3 == ['*', '*', '/'] then text ++ ['/', '*'] else text

/-- What is in front of a line's pattern: whether it keeps, whether it is anchored at the list's
directory, and the pattern. -/
def dropMarks : List Char → Bool × Bool × List Char
  | '\\' :: '!' :: rest => (false, false, '!' :: rest)
  | '\\' :: '#' :: rest => (false, false, '#' :: rest)
  | '!' :: '/' :: rest => (true, true, rest)
  | '!' :: rest => (true, false, rest)
  | '/' :: rest => (false, true, rest)
  | line => (false, false, line)

/-- The rule of a line. Comments, blank lines and lines whose pattern is not valid have none. -/
def parse? (line : List Char) : Option IgnoreRule :=
  if line.head? = some '#' then none
  else
    let line := if line.reverse.take 2 = [' ', '\\'] then line else Text.trimEnd line
    if line.isEmpty then none
    else
      let (keeps, anchored, line) := dropMarks line
      let (line, directoriesOnly) := dropSlash line
      (IgnorePattern.parse? (patternText anchored line)).map fun pattern =>
        ⟨pattern, keeps, directoriesOnly⟩

end IgnoreRule

/-- The rules of a list, in order of its lines. -/
abbrev IgnoreList : Type :=
  List IgnoreRule

namespace IgnoreList

/-- The lines of a list's file; a byte order mark in front is dropped. -/
def linesOf (content : ByteArray) : List (List Char) :=
  match Disk.linesOf content with
  | first :: rest => first.dropWhile (· == '\ufeff') :: rest
  | [] => []

/-- The list of the file at the end of a path, empty where none can be read. -/
def ofFile (d : Disk) (path : Except DiskFault (List String)) : IgnoreList :=
  match path.bind d.contentAt with
  | .ok content => (linesOf content).filterMap IgnoreRule.parse?
  | .error _ => []

/-- Whether the list ignores a path or keeps it, if it says anything about it. -/
def verdict? (rules : IgnoreList) (path : String) (isDirectory : Bool) : Option Bool :=
  (rules.reverse.find? fun r => (isDirectory || !r.directoriesOnly) && r.pattern.fits path).map
    (! ·.keeps)

end IgnoreList

end CodeAtlas
