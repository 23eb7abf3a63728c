import SourceSurvey.FileSystem.Resolve

/-!
# Looking at files

What a process can learn about the file system without changing it: whether a path exists, whether
it leads to a regular file, the entries of a directory, and the bytes of a file. Opening and
reading are two operations that fail for different reasons: a directory can be opened and cannot be
read.
-/

set_option autoImplicit false

namespace SourceSurvey.FileSystem

/-- Whether a path leads to anything. -/
def exists? (fs : FileSystem) (path : Path) : Bool :=
  (fs.stat path).toBool

/-- Whether a path leads to a regular file, links followed. -/
def isRegularFile (fs : FileSystem) (path : Path) : Bool :=
  match fs.stat path with
  | .ok (.file ..) => true
  | _ => false

/-- The entries of the directory that a path leads to, in listing order. -/
def listing (fs : FileSystem) (path : Path) : Except IoError (List (Name × Node)) :=
  match fs.stat path with
  | .ok (.directory entries permissions) =>
    if permissions.read then .ok entries else .error .permissionDenied
  | .ok _ => .error .notDirectory
  | .error e => .error e

/-- Something opened for reading. -/
inductive Opened where
  /-- A directory, of which nothing can be read. -/
  | directory
  /-- A source of bytes. -/
  | stream (bytes : List UInt8)
  deriving DecidableEq, Repr

/-- Opens what a path leads to. A pipe or a device can be opened and is taken to give no bytes, as
an empty file does. That is an idealisation: a process that opens a pipe waits until another one
writes to it, and what it reads then, or from a device, is not part of a file system. -/
def openForReading (fs : FileSystem) (path : Path) : Except IoError Opened :=
  match fs.stat path with
  | .ok (.file content permissions) =>
    if permissions.read then .ok (.stream content.bytes) else .error .permissionDenied
  | .ok (.directory _ permissions) =>
    if permissions.read then .ok .directory else .error .permissionDenied
  | .ok (.special .socket) => .error .noSuchDevice
  | .ok _ => .ok (.stream [])
  | .error e => .error e

/-- Reads everything. -/
def Opened.read : Opened → Except IoError (List UInt8)
  | .directory => .error .isDirectory
  | .stream bytes => .ok bytes

/-- The text of a file. -/
def readText (fs : FileSystem) (path : Path) : Except IoError String := do
  let opened ← fs.openForReading path
  let bytes ← opened.read
  match Utf8.toString? bytes with
  | some text => .ok text
  | none => .error .notUtf8

end SourceSurvey.FileSystem
