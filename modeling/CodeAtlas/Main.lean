import CodeAtlas.CommandLine.Run

/-!
The program. It takes a picture of the disk as far as a command can look, has the command answered
from that picture, and writes what the answer says. It reaches neither hosted repositories nor
language models.
-/

namespace CodeAtlas

namespace Terminal

/-- What stands at an entry of a directory; what cannot be read is left out. -/
partial def readEntry (entry : IO.FS.DirEntry) : IO (Option DiskNode) := do
  try
    match (← entry.path.symlinkMetadata).type with
    | .file => return some (.file (← IO.FS.readBinFile entry.path))
    | .dir =>
      let children ← entry.path.readDir
      let sorted := children.toList.mergeSort fun a b => decide (a.fileName ≤ b.fileName)
      let nodes ← sorted.filterMapM fun child => do
        return (← readEntry child).map fun node => (child.fileName, node)
      return some (.directory nodes)
    | .symlink => return some (.link (← IO.FS.realPath entry.path).toString)
    | .other => return none
  catch _ => return none

/-- The place of a path without links and dots in it. -/
def placeOf (path : String) : List String :=
  (Text.segments path).filter (· ≠ "")

/-- Adds what stands at a name in the directory at a place. -/
def addEntry (picture : DiskNode) (place : List String) (name : String) : IO DiskNode := do
  match ← readEntry ⟨"/" ++ Text.joinSegments place, name⟩ with
  | some node => return picture.put (place ++ [name]) node
  | none => return picture

/-- Adds the links on the way along a path, from the directory at a place. -/
def addLinks : List String → List String → DiskNode → IO DiskNode
  | _, [], picture => return picture
  | place, name :: rest, picture => do
    let path := "/" ++ Text.joinSegments (place ++ [name])
    let picture ←
      try
        let entry : IO.FS.DirEntry := ⟨"/" ++ Text.joinSegments place, name⟩
        match (← entry.path.symlinkMetadata).type with
        | .symlink => addEntry picture place name
        | _ => pure picture
      catch _ => pure picture
    let next ←
      try pure (placeOf (← IO.FS.realPath path).toString)
      catch _ => pure (place ++ [name])
    addLinks next rest picture

/-- Adds what the directories above a place say about what is ignored below them. -/
def addIgnoreLists (place : List String) (picture : DiskNode) : IO DiskNode :=
  ((List.range place.length).map place.take).foldlM (fun picture above =>
    (".ignore" :: ".gitignore" :: Disk.recordsNames).foldlM (fun picture name =>
      addEntry picture above name) picture) picture

/-- Adds all that stands at the end of a path, and what leads there. -/
def addPath (here : List String) (path : String) (picture : DiskNode) : IO DiskNode := do
  let start := if Disk.isAbsolute path then [] else here
  let picture ← addLinks start (placeOf path) picture
  try
    let place := placeOf
      (← IO.FS.realPath (Disk.join ("/" ++ Text.joinSegments here) path)).toString
    let picture ← addIgnoreLists place picture
    match place.getLast? with
    | some name => addEntry picture place.dropLast name
    | none => return picture
  catch _ => return picture

/-- Adds the lists that repositories keep to themselves in directories that they share. -/
def addExcludes (here : List String) (picture : DiskNode) : IO DiskNode :=
  (Disk.pointers picture).foldlM (fun picture records => do
    let picture ← addPath here (Disk.sharingPath records) picture
    match Disk.shared? ⟨picture, here⟩ records with
    | some shared => addPath here (Disk.excludePath shared) picture
    | none => return picture) picture

/-- The directory that an invocation reads, if it reads one. -/
def placeOfDirectory? : Command → Option String
  | .build source | .search _ _ _ source | .context _ source | .impact _ _ source
  | .overview source | .chat _ _ source => if source.repo.isNone then some source.path else none
  | .welcome | .init => none

/-- The paths that an invocation reads: a configuration file and perhaps a directory. -/
def pathsOf (i : Invocation) : List String :=
  i.config.getD CommandLine.configName :: (placeOfDirectory? i.command).toList

/-- The picture of the disk that arguments need. -/
def picture (arguments : List String) : IO Disk := do
  let here := placeOf (← IO.currentDir).toString
  let paths := ((Arguments.parse? arguments).map pathsOf).getD []
  let top ← paths.foldlM (fun picture path => addPath here path picture)
    ((DiskNode.directory []).put here (.directory []))
  return ⟨← addExcludes here top, here⟩

/-- Why nothing outside of this machine answers. -/
def offline : Fault :=
  .providerUnreachable "there is no connection to a host"

/-- Hosted repositories, none of which is reached. -/
def host (_ : Settings) (_ : Credential) : Provider where
  defaultBranch _ _ := .error offline
  listing _ _ _ := .error offline
  contents _ _ _ _ := .error offline

/-- A language model that is not reached. -/
def model (_ : ModelSettings) : LanguageModel :=
  fun _ => ⟨0, .error (.model "there is no connection to a model"), false⟩

/-- What a command may use on this machine. -/
def environment (arguments : List String) : IO Environment := do
  return {
    disk := ← picture arguments
    hostToken := ← IO.getEnv "GITHUB_TOKEN"
    modelKey := ← IO.getEnv "OPENAI_API_KEY"
    wantsColor := (← (← IO.getStdout).isTty) && (← IO.getEnv "NO_COLOR").isNone
    host := host
    model := model }

end Terminal

end CodeAtlas

/-- Runs the command that the arguments name. -/
def main (arguments : List String) : IO UInt32 := do
  let env ← CodeAtlas.Terminal.environment arguments
  let outcome := CodeAtlas.CommandLine.run env arguments (← IO.monoMsNow)
  match outcome.written with
  | some (path, text) => IO.FS.writeFile path text
  | none => pure ()
  IO.print outcome.output
  unless outcome.complaint.isEmpty do IO.eprintln outcome.complaint
  return outcome.exitCode.toUInt32
