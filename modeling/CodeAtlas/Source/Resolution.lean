import CodeAtlas.Source.Language

/-!
The file that an import means. A script's specifier counts only if it is relative; it is joined to
the directory of the importing file, and nine endings are tried in turn. A Python module is relative
to the importing file's package if it starts with dots, else it is looked for from the root and then
from the top directory of the importing file.
-/

namespace CodeAtlas.Source

/-- What may be missing at the end of a script's specifier. -/
def scriptEndings : List String :=
  ["", ".ts", ".tsx", ".js", ".jsx", "/index.ts", "/index.tsx", "/index.js", "/index.jsx"]

/-- What a module may end with as a file. -/
def pythonEndings : List String :=
  [".py", "/__init__.py"]

/-- The first path that exists, among a base with each of several endings. -/
def firstPresent (present : String → Bool) (suffixes : List String) (base : String) :
    Option String :=
  (suffixes.map (base ++ ·)).find? present

/-- Follows the segments of a relative path from a directory, whose segments are given backwards;
there is no way above the root. -/
def walk : List String → List String → Option (List String)
  | dir, [] => some dir
  | dir, segment :: rest =>
    if segment = "" ∨ segment = "." then walk dir rest
    else if segment = ".." then
      match dir with
      | _ :: up => walk up rest
      | [] => none
    else walk (segment :: dir) rest

/-- The path that a relative specifier means in a directory. -/
def joinFrom (dir relative : String) : Option String :=
  (walk ((Text.segments dir).filter (· ≠ "")).reverse (Text.segments relative)).map fun parts =>
    Text.joinSegments parts.reverse

/-- The file that a script's specifier means. -/
def scriptFile? (present : String → Bool) (importer specifier : String) : Option String :=
  if specifier.startsWith "./" || specifier.startsWith "../" then
    (joinFrom (Text.folderOf importer) specifier).bind (firstPresent present scriptEndings)
  else none

/-- The directory some levels up; there is none above the root. -/
def ancestor : Nat → String → Option String
  | 0, dir => some dir
  | n + 1, dir => if dir = "" then none else ancestor n (Text.folderOf dir)

/-- Two parts of a path with a slash between them, where both are there. -/
def joinParts (dir rest : String) : String :=
  if rest = "" then dir else if dir = "" then rest else dir ++ "/" ++ rest

/-- The file that a Python module means. -/
def pythonFile? (present : String → Bool) (importer module_ : String) : Option String :=
  let chars := module_.toList
  let dots := (chars.takeWhile (· == '.')).length
  let rest :=
    String.ofList ((chars.dropWhile (· == '.')).map fun c => if c = '.' then '/' else c)
  let dir := Text.folderOf importer
  match dots with
  | levels + 1 =>
    (ancestor levels dir).bind fun dir =>
      let base := joinParts dir rest
      if base = "" then none else firstPresent present pythonEndings base
  | 0 =>
    if rest = "" then none
    else
      match firstPresent present pythonEndings rest with
      | some path => some path
      | none =>
        if dir = "" then none
        else
          firstPresent present pythonEndings
            (String.ofList (dir.toList.takeWhile (· ≠ '/')) ++ "/" ++ rest)

/-- The file that an import in a file means, among the files that are present. -/
def importedFile? (present : String → Bool) (importer module_ : String) : Option String :=
  match Language.ofPath? importer with
  | some language =>
    if language.usesBraces then scriptFile? present importer module_
    else pythonFile? present importer module_
  | none => none

/-- An import means a file that is present or none. -/
theorem present_of_firstPresent {present : String → Bool} {suffixes : List String}
    {base path : String} (h : firstPresent present suffixes base = some path) :
    present path = true :=
  List.find?_some h

end CodeAtlas.Source
