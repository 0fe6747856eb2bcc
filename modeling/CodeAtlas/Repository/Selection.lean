import CodeAtlas.Repository.Entry
import CodeAtlas.Repository.Glob
import CodeAtlas.Settings
import CodeAtlas.Source.Language

/-!
Which files of a listing are read. Files in noise directories, in unknown languages, too large ones
and those that a pattern names are skipped; of the others, in order of their paths, as many are kept
as the limit allows.
-/

namespace CodeAtlas

/-- Why a file is not read. -/
inductive Exclusion where
  | noiseDirectory (name : String)
  | unsupportedLanguage
  | tooLarge (size : Nat)
  | patternMatch (pattern : String)
  | fileLimit
  deriving Repr, DecidableEq

/-- What is said about an exclusion. -/
def Exclusion.text : Exclusion → String
  | noiseDirectory name => "noise directory: " ++ name
  | unsupportedLanguage => "unsupported language"
  | tooLarge size => "too large (" ++ toString size ++ " bytes)"
  | patternMatch pattern => "pattern: " ++ pattern
  | fileLimit => "file limit reached"

/-- The rules by which files are skipped; patterns that are not valid have no effect. -/
structure FileSelector where
  noiseDirs : List String
  skipPatterns : List Glob
  maxFileSize : Nat
  maxFiles : Nat
  deriving Repr

/-- The files of a listing that are read and those that are not. -/
structure Selection where
  kept : List ListingEntry
  skipped : List (String × Exclusion)
  deriving Repr

namespace FileSelector

/-- The selection that settings ask for. A pattern that cannot be read is left out. -/
def ofSettings (s : BuildSettings) : FileSelector where
  noiseDirs := s.noiseDirs
  skipPatterns := s.skipPatterns.filterMap Glob.parse?
  maxFileSize := s.maxFileSize
  maxFiles := s.maxFiles

/-- The first directory above a path that is a noise directory. -/
def noiseDir? (f : FileSelector) (path : String) : Option String :=
  (Text.segments path).dropLast.find? (f.noiseDirs.contains ·)

/-- The size, if it is known and too large. -/
def oversize? (f : FileSelector) (size : Option Nat) : Option Nat :=
  size.filter (f.maxFileSize < ·)

/-- Why a path of a given size is skipped, the limit on their number apart. -/
def check (f : FileSelector) (path : String) (size : Option Nat) : Option Exclusion :=
  match f.noiseDir? path with
  | some dir => some (.noiseDirectory dir)
  | none =>
    if (Language.ofPath? path).isNone then some .unsupportedLanguage
    else
      match f.oversize? size with
      | some n => some (.tooLarge n)
      | none => (f.skipPatterns.find? (·.fits path)).map fun g => .patternMatch g.text

/-- Whether a path of a given size is skipped by itself. -/
def excludes (f : FileSelector) (path : String) (size : Nat) : Bool :=
  (f.check path (some size)).isSome

/-- The order of entries by their paths. -/
def byPath (a b : ListingEntry) : Bool :=
  decide (a.path ≤ b.path)

/-- Sorts the files of a listing into those that are read and those that are not. -/
def filter (f : FileSelector) (entries : List ListingEntry) : Selection :=
  let blobs := entries.filter (·.kind == .blob)
  let passing := (blobs.filter fun e => (f.check e.path e.size).isNone).mergeSort byPath
  let refused := blobs.filterMap fun e => (f.check e.path e.size).map fun reason => (e.path, reason)
  ⟨passing.take f.maxFiles,
    refused ++ (passing.drop f.maxFiles).map fun e => (e.path, .fileLimit)⟩

/-- No more files are kept than the limit allows. -/
theorem length_kept_filter_le (f : FileSelector) (entries : List ListingEntry) :
    (f.filter entries).kept.length ≤ f.maxFiles := by
  simp only [filter, List.length_take]
  omega

end FileSelector

end CodeAtlas
