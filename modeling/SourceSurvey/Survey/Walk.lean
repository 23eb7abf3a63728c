import SourceSurvey.FileSystem.Access

/-!
# Walking a tree

A walk visits a directory, its entries in listing order, and below each entry that is a directory
that directory's entries. Links below the root are visited and never followed; a root that is a
link is followed. An entry that the caller does not want is left out together with everything below
it. A directory that cannot be listed is visited, and a failure takes the place of its entries.

The recursion is on the tree itself, so every walk ends.
-/

set_option autoImplicit false

namespace SourceSurvey

/-- An entry of a walk. -/
structure Entry where
  /-- The path from the root of the walk. -/
  path : Path
  /-- The number of directories above it. -/
  depth : Nat
  /-- Its name. -/
  name : Name
  /-- What the listing tells about it. -/
  kind : Kind
  deriving DecidableEq, Repr

/-- What a walk comes across. -/
inductive Visit where
  /-- An entry. -/
  | entry (entry : Entry)
  /-- A directory, or a root, that cannot be looked into. -/
  | failure (path : Path) (cause : IoError)
  deriving DecidableEq, Repr

/-- The directory that is never walked into. -/
def vcsDirectory : String := "CVS"

/-- Whether an entry is left out of a walk with everything below it: a directory below the root
with one of the given names, or with that of the directory that is never walked into. -/
def Entry.isExcluded (names : List String) (entry : Entry) : Bool :=
  entry.depth ≠ 0 && entry.kind = .directory &&
    match Utf8.toString? entry.name with
    | some name => name = vcsDirectory || names.contains name
    | none => false

namespace Walk

mutual

/-- The visits at a node and below it. -/
def visitNode (fs : FileSystem) (skip : Entry → Bool) (path : Path) (depth : Nat) (name : Name)
    (node : Node) : List Visit :=
  let entry : Entry := ⟨path, depth, name, node.kind⟩
  if skip entry then []
  else .entry entry ::
    match node with
    -- The listing by the path tells whether the directory can be read; its entries are known from
    -- the node.
    | .directory entries _ =>
      match fs.listing path with
      | .error e => [.failure path e]
      | .ok _ => visitEntries fs skip path (depth + 1) entries
    | _ => []

/-- The visits at the entries of the directory `path` and below them. -/
def visitEntries (fs : FileSystem) (skip : Entry → Bool) (path : Path) (depth : Nat) :
    List (Name × Node) → List Visit
  | [] => []
  | (name, node) :: rest =>
    visitNode fs skip (path.child name) depth name node ++ visitEntries fs skip path depth rest

end

/-- The visits below a root that is a link. -/
def visitLinkedRoot (fs : FileSystem) (skip : Entry → Bool) (root : Path) : List Visit :=
  match fs.listing root with
  | .error e => [.failure root e]
  | .ok entries => visitEntries fs skip root 1 entries

/-- The visits of a walk from `root`; entries for which `skip` holds are left out. -/
def visits (fs : FileSystem) (skip : Entry → Bool) (root : Path) : List Visit :=
  let name := root.fileName?.getD root.bytes
  match fs.linkStat root with
  | .error e => [.failure root e]
  | .ok (.link _) =>
    match fs.stat root with
    | .error e => [.failure root e]
    -- The root is shown as the link that it is and walked as what it leads to.
    | .ok (.directory ..) =>
      .entry ⟨root, 0, name, .link⟩ :: visitLinkedRoot fs skip root
    | .ok _ => [.entry ⟨root, 0, name, .link⟩]
  | .ok node => visitNode fs skip root 0 name node

end Walk

/-- Whether an entry is a file to count: a regular file that exists, or a link that leads to a
regular file. -/
def Entry.isCountable (fs : FileSystem) (entry : Entry) : Bool :=
  match entry.kind with
  | .link => fs.isRegularFile entry.path
  | .file => fs.exists? entry.path
  | _ => false

end SourceSurvey
