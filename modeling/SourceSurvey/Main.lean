import SourceSurvey.Program

/-!
# The command line

`main` takes the name of a command and its arguments. It copies what the command can see of the
disk into a `FileSystem`, runs the command on the copy, and writes what the run shows: the text to
the standard output, log and failure to the standard error.

The copy holds the working directory, the settings files above it, and the files that a link or an
argument names. Programs are no part of it: `code-spelunk` goes through its plan until the first
program that it would have to start, and reports that there is none.
-/

set_option autoImplicit false

namespace SourceSurvey.Disk

/-- The result of an action, if it does not fail. -/
def attempt {α : Type} (action : IO α) : IO (Option α) := do
  try
    return some (← action)
  catch _ =>
    return none

/-- The content of a file, if it can be read. -/
def content? (place : String) : IO (Option Content) := do
  return (← attempt (IO.FS.readBinFile place)).map fun bytes => .data bytes.toList

/-- A copy of a file; one that cannot be read is known to be there and no more. -/
def fileNode (place : String) : IO Node := do
  match ← content? place with
  | some content => return .file content .all
  | none => return .file (.data []) ⟨false, true, false⟩

/-- A copy of a directory, from the action that lists it. The places to which links in it lead are
collected. -/
partial def directoryNode (listing : IO (Array IO.FS.DirEntry)) : StateT (List String) IO Node := do
  match ← attempt listing with
  | none => return .directory [] ⟨false, true, true⟩
  | some entries =>
    let nodes ← entries.toList.mapM fun entry => do
      return (Utf8.ofString entry.fileName, ← entryNode entry)
    return .directory nodes .all
where
  /-- A copy of an entry of a directory. -/
  entryNode (entry : IO.FS.DirEntry) : StateT (List String) IO Node := do
    let known ← attempt entry.path.symlinkMetadata
    match known.map IO.FS.Metadata.type with
    | some .dir => directoryNode entry.path.readDir
    | some .file => fileNode entry.path.toString
    | some .symlink =>
      match ← attempt (IO.FS.realPath entry.path) with
      | some place =>
        modify (place.toString :: ·)
        return .link (Utf8.ofString place.toString)
      | none => return .link (Utf8.ofString entry.fileName)
    | _ => return .special .device

/-- Adds a file of the disk to a copy, if it can be read and the copy has nothing there. -/
def addFile (fs : FileSystem) (place : String) : IO FileSystem := do
  if fs.exists? (.ofString place) then return fs
  match ← content? place with
  | some content => return fs.plant (.ofString place) (.file content .all)
  | none => return fs

/-- The places that an argument may name: the whole argument, and what follows its first `=`. -/
def placesOf (argument : String) : List String :=
  [argument, String.ofList ((argument.toList.dropWhile (· ≠ '=')).drop 1)]

/-- A copy of what a command with these arguments can see of the disk. -/
def copy (arguments : List String) : IO FileSystem := do
  let here ← IO.currentDir
  let directory := Path.ofString here.toString
  let (node, linked) ← (directoryNode here.readDir).run []
  let fs := FileSystem.plant ⟨.emptyDirectory, []⟩ directory node
  let fs := (fs.enter directory).toOption.getD fs
  let settings := directory.ancestors.map fun above =>
    (above ++ Path.ofString Config.fileName).display
  (settings ++ linked ++ arguments.flatMap placesOf).foldlM addFile fs

/-- Runs a command on a copy of the disk and writes what the run shows. -/
def runCommand (command : Command) (arguments : List String) : IO UInt32 := do
  let environment : Environment :=
    ⟨← copy arguments, .ofString "/bin", (← IO.getEnv "RUST_LOG").map Utf8.ofString⟩
  let outcome := run command environment (arguments.map Utf8.ofString)
  IO.print outcome.output
  for line in outcome.log ++ outcome.error do
    IO.eprintln line
  return UInt32.ofNat outcome.exit

end SourceSurvey.Disk

/-- The first argument names the command. -/
def main (arguments : List String) : IO UInt32 := do
  match arguments with
  | "what" :: rest => SourceSurvey.Disk.runCommand .what rest
  | "code-spelunk" :: rest => SourceSurvey.Disk.runCommand .codeSpelunk rest
  | _ =>
    IO.eprintln "the first argument is the name of a command: what, code-spelunk"
    return 2
