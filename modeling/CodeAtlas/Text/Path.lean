import CodeAtlas.Text.Blank

/-!
Paths within a repository: segments with slashes between them.
-/

namespace CodeAtlas.Text

/-- What comes after the last slash of a path. -/
def fileName (path : String) : String :=
  String.ofList (afterLast '/' path.toList)

/-- What precedes the last slash, empty where there is none. -/
def folderOf (path : String) : String :=
  String.ofList ((beforeLast? '/' path.toList).getD [])

/-- The parts of a path between slashes. -/
def segments (path : String) : List String :=
  (splitAt '/' path.toList).map String.ofList

/-- The path of parts. -/
def joinSegments (parts : List String) : String :=
  "/".intercalate parts

/-- Joining its segments gives a path back. -/
theorem joinSegments_segments (path : String) : joinSegments (segments path) = path := by
  apply String.toList_inj.mp
  have joined := intercalate_splitAt '/' path.toList
  have pieces : (segments path).map String.toList = splitAt '/' path.toList := by
    simp [segments, Function.comp_def]
  rw [joinSegments, String.toList_intercalate, pieces]
  exact joined

end CodeAtlas.Text
