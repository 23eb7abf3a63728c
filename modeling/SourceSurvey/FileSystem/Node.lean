import SourceSurvey.Path

/-!
# The nodes of a file system

A file system is a tree of nodes: regular files, directories, symbolic links and special files. A
directory holds its entries in the order in which it lists them. Some regular files are programs;
what such a program does when it is started is part of its content. Regular files and directories
carry permissions, and an operation that is refused says why (`IoError`).

`Node.modifyEntries` changes the entries of one directory and leaves the rest of the tree alone.
-/

set_option autoImplicit false

namespace SourceSurvey

/-- Why an operation on files or programs is refused. -/
inductive IoError where
  /-- Nothing has that path. -/
  | notFound
  /-- The permissions forbid it. -/
  | permissionDenied
  /-- A path goes through something that is not a directory. -/
  | notDirectory
  /-- A directory stands where a file is wanted. -/
  | isDirectory
  /-- Too many symbolic links lead on. -/
  | tooManyLinks
  /-- A path or a name is too long. -/
  | nameTooLong
  /-- A socket cannot be opened. -/
  | noSuchDevice
  /-- A path holds a zero byte. -/
  | zeroInPath
  /-- A program name or an argument holds a zero byte. -/
  | zeroInCommand
  /-- A text was expected and the bytes are not UTF-8. -/
  | notUtf8
  /-- A failure of another kind, with its wording. -/
  | other (message : String)
  deriving DecidableEq, Repr

/-- The wording of an error. -/
def IoError.message : IoError → String
  | .notFound => "No such file or directory (os error 2)"
  | .permissionDenied => "Permission denied (os error 13)"
  | .notDirectory => "Not a directory (os error 20)"
  | .isDirectory => "Is a directory (os error 21)"
  | .tooManyLinks => "Too many levels of symbolic links (os error 40)"
  | .nameTooLong => "File name too long (os error 36)"
  | .noSuchDevice => "No such device or address (os error 6)"
  | .zeroInPath => "file name contained an unexpected NUL byte"
  | .zeroInCommand => "nul byte found in provided data"
  | .notUtf8 => "stream did not contain valid UTF-8"
  | .other message => message

/-- The name of an entry of a directory. -/
abbrev Name := List UInt8

/-- What the user may do with a file or a directory. -/
structure Permissions where
  /-- Open a file, list a directory. -/
  read : Bool
  /-- Change a file, add and remove entries of a directory. -/
  write : Bool
  /-- Reach what is below a directory, start a program. -/
  search : Bool
  deriving DecidableEq, Repr

/-- Everything is allowed. -/
def Permissions.all : Permissions := ⟨true, true, true⟩

/-- The permissions that an octal digit stands for. -/
def Permissions.ofDigit (digit : Nat) : Permissions :=
  ⟨digit.testBit 2, digit.testBit 1, digit.testBit 0⟩

/-- How a program ends. -/
inductive Ending where
  /-- It returns an exit code. -/
  | exit (code : UInt8)
  /-- A signal kills it. -/
  | killed
  deriving DecidableEq, Repr

/-- What a program does: it shows how it was called, may make an empty file, and ends. -/
structure Script where
  /-- The file it makes. -/
  creates : Option Path
  /-- How it ends. -/
  ending : Ending
  deriving DecidableEq, Repr

/-- The content of a regular file. -/
inductive Content where
  /-- Bytes. -/
  | data (bytes : List UInt8)
  /-- A program. -/
  | program (script : Script)
  deriving DecidableEq, Repr

/-- The bytes that reading gives. -/
def Content.bytes : Content → List UInt8
  | .data bytes => bytes
  | .program _ => []

/-- The files that are neither regular files nor directories nor links. -/
inductive Special where
  | pipe
  | socket
  | device
  deriving DecidableEq, Repr

/-- A node of a file system. -/
inductive Node where
  /-- A regular file. -/
  | file (content : Content) (permissions : Permissions)
  /-- A directory with its entries in listing order. -/
  | directory (entries : List (List UInt8 × Node)) (permissions : Permissions)
  /-- A symbolic link. -/
  | link (target : List UInt8)
  /-- A pipe, a socket or a device. -/
  | special (kind : Special)
  deriving Inhabited

/-- What a listing tells about an entry. -/
inductive Kind where
  | file
  | directory
  | link
  | special
  deriving DecidableEq, Repr

namespace Node

/-- What a listing tells about a node. -/
def kind : Node → Kind
  | .file .. => .file
  | .directory .. => .directory
  | .link _ => .link
  | .special _ => .special

/-- An empty directory. -/
def emptyDirectory : Node := .directory [] .all

/-- Puts a node under a name: in the place of the entry of that name, or behind all entries. -/
def putEntry (name : Name) (node : Node) : List (Name × Node) → List (Name × Node)
  | [] => [(name, node)]
  | (n, old) :: rest =>
    if n = name then (n, node) :: rest else (n, old) :: putEntry name node rest

/-- Removes the entry of a name. -/
def eraseEntry (name : Name) (entries : List (Name × Node)) : List (Name × Node) :=
  entries.filter (·.1 ≠ name)

/-- Applies `f` to the entry of a name. -/
def modifyEntry (name : Name) (f : Node → Node) (entries : List (Name × Node)) :
    List (Name × Node) :=
  entries.map fun (n, node) => if n = name then (n, f node) else (n, node)

/-- Applies `f` to the entries of the directory that is reached through the names of `place`. -/
def modifyEntries (f : List (Name × Node) → List (Name × Node)) : (place : List Name) → Node → Node
  | [], .directory entries permissions => .directory (f entries) permissions
  | name :: place, .directory entries permissions =>
    .directory (modifyEntry name (modifyEntries f place) entries) permissions
  | _, node => node

/-- The same node with other permissions. -/
def withPermissions (permissions : Permissions) : Node → Node
  | .file content _ => .file content permissions
  | .directory entries _ => .directory entries permissions
  | node => node

end Node

end SourceSurvey
