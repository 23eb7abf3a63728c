import SourceSurvey.FileSystem.Resolve

/-!
# Changing files

Making, overwriting and removing files and directories. Adding or removing an entry needs the
permission to write to the directory that holds it; a file that exists is overwritten and keeps its
permissions.
-/

set_option autoImplicit false

namespace SourceSurvey.FileSystem

/-- Applies `f` to the entries of the directory at the end of a trail. -/
def modifyEntriesAt (fs : FileSystem) (trail : Trail)
    (f : List (Name × Node) → List (Name × Node)) : FileSystem :=
  { fs with root := fs.root.modifyEntries f trail.place }

/-- Adds an entry to the directory at the end of a trail. -/
def addEntry (fs : FileSystem) (trail : Trail) (name : Name) (node : Node) :
    Except IoError FileSystem :=
  match trail.node fs.root with
  | .directory _ permissions =>
    if permissions.write then .ok (fs.modifyEntriesAt trail (Node.putEntry name node))
    else .error .permissionDenied
  | _ => .error .notDirectory

/-- Puts a node where a path leads, unless something is there. -/
def create (fs : FileSystem) (path : Path) (node : Node) : Except IoError FileSystem :=
  match fs.locate path false with
  | .ok (.absent trail name) => fs.addEntry trail name node
  | .ok (.found _) => .error (.other "File exists (os error 17)")
  | .error e => .error e

/-- Writes a file: makes it, or replaces the content of the file that is there. -/
def writeFile (fs : FileSystem) (path : Path) (content : Content) : Except IoError FileSystem :=
  match fs.locate path true with
  | .ok (.absent trail name) => fs.addEntry trail name (.file content .all)
  | .ok (.found ((name, .file _ permissions) :: trail)) =>
    if permissions.write then
      .ok (fs.modifyEntriesAt trail (Node.putEntry name (.file content permissions)))
    else .error .permissionDenied
  | .ok (.found ((_, .special _) :: _)) => .ok fs
  | .ok (.found _) => .error .isDirectory
  | .error e => .error e

/-- Sets the permissions of what a path leads to. -/
def setPermissions (fs : FileSystem) (path : Path) (permissions : Permissions) : FileSystem :=
  match fs.find path true with
  | .ok [] => { fs with root := fs.root.withPermissions permissions }
  | .ok ((name, node) :: trail) =>
    fs.modifyEntriesAt trail (Node.putEntry name (node.withPermissions permissions))
  | .error _ => fs

/-- Removes the entry that a path leads to, whatever it is; a link is removed itself. -/
def removeTree (fs : FileSystem) (path : Path) : Except IoError FileSystem :=
  match fs.find path false with
  | .ok [] => .error .permissionDenied
  | .ok ((name, _) :: trail) =>
    match Trail.node fs.root trail with
    | .directory _ permissions =>
      if permissions.write then .ok (fs.modifyEntriesAt trail (Node.eraseEntry name))
      else .error .permissionDenied
    | _ => .error .notDirectory
  | .error e => .error e

/-- Removes a file. -/
def removeFile (fs : FileSystem) (path : Path) : Except IoError FileSystem :=
  match fs.linkStat path with
  | .ok (.directory ..) => .error .isDirectory
  | .ok _ => fs.removeTree path
  | .error e => .error e

/-- Enters a directory: relative paths start there from now on. -/
def enter (fs : FileSystem) (path : Path) : Except IoError FileSystem :=
  match fs.find path true with
  | .ok trail =>
    match trail.node fs.root with
    | .directory .. => .ok { fs with cwd := trail.place }
    | _ => .error .notDirectory
  | .error e => .error e

/-- Enters a directory that is made first if it is missing. -/
def enterMaking (fs : FileSystem) (directory : Path) : FileSystem :=
  let fs := (fs.create directory .emptyDirectory).toOption.getD fs
  (fs.enter directory).toOption.getD fs

/-- Puts a node at a path of any length, making the directories above it. The path is followed one
name at a time, so the bound on the length of paths does not matter. -/
def plant (fs : FileSystem) (path : Path) (node : Node) : FileSystem :=
  let start := if path.isRooted then { fs with cwd := [] } else fs
  let names := (path.firstPiece :: path.otherPieces).filter (· ≠ [])
  let inside := names.dropLast.foldl (fun fs name => fs.enterMaking ⟨name⟩) start
  let name : Path := ⟨names.getLastD []⟩
  let planted := match node with
    | .file content _ => inside.writeFile name content
    | node => inside.create name node
  { planted.toOption.getD inside with cwd := fs.cwd }

end SourceSurvey.FileSystem
