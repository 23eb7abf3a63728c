import SourceSurvey.FileSystem.Node

/-!
# Finding the node of a path

A path is followed step by step from the root or from the working directory. Each step needs a
directory that may be searched; a symbolic link is replaced by the steps of its target. At most
forty links are followed, so the search ends: every link uses up one of them, and every other step
leaves fewer steps to do.

The result is a trail, the names and nodes on the way from the root to the node that was found. Two
dots go back along the trail, so they lead to the directory that really holds the current one.
Where only the last name is missing the result says so (`Spot.absent`), for that is where a new
file can be made.
-/

set_option autoImplicit false

namespace SourceSurvey

/-- One step along a path. -/
inductive Step where
  /-- To the entry of that name. -/
  | name (name : Name)
  /-- Nowhere. -/
  | here
  /-- To the directory that holds this one. -/
  | up
  /-- Nowhere, but what has been reached has to be a directory: a slash at the end of a path. -/
  | directory
  deriving DecidableEq, Repr

/-- The step that a piece of a path stands for. -/
def Step.ofPiece? (piece : List UInt8) : Option Step :=
  if piece = [] then none
  else if piece = [Path.dot] then some .here
  else if piece = [Path.dot, Path.dot] then some .up
  else some (.name piece)

/-- The steps of a path. -/
def Path.steps (p : Path) : List Step :=
  (p.firstPiece :: p.otherPieces).filterMap Step.ofPiece? ++
    if p.bytes.getLast? = some Path.slash then [.directory] else []

/-- The way from the root to a node, innermost first: names and the nodes they lead to. -/
abbrev Trail := List (List UInt8 × Node)

namespace Trail

/-- The node at the end of a trail. -/
def node (root : Node) : Trail → Node
  | [] => root
  | (_, node) :: _ => node

/-- The names from the root to the end of a trail. -/
def place (trail : Trail) : List Name := (trail.map (·.1)).reverse

/-- The trail through the names of a place, as far as it exists. -/
def ofPlace (root : Node) (trail : Trail) : List Name → Trail
  | [] => trail
  | name :: names =>
    match node root trail with
    | .directory entries _ =>
      match entries.lookup name with
      | some node => ofPlace root ((name, node) :: trail) names
      | none => trail
    | _ => trail

end Trail

/-- Where a path leads. -/
inductive Spot where
  /-- To a node. -/
  | found (trail : Trail)
  /-- To a name that the directory at the end of the trail does not have. -/
  | absent (directory : Trail) (name : Name)

/-- The greatest number of links on the way to a node. -/
def maxLinks : Nat := 40

/-- The greatest length of a path. -/
def maxPathLength : Nat := 4095

/-- The greatest length of a name. -/
def maxNameLength : Nat := 255

/-- Follows steps from the end of a trail. `links` more links may be followed; a link that is the
last step itself is followed only if `followLast` says so. -/
def followSteps (root : Node) (followLast : Bool) (links : Nat) (trail : Trail) :
    List Step → Except IoError Spot
  | [] => .ok (.found trail)
  | step :: rest =>
    match trail.node root with
    | .directory entries permissions =>
      -- A slash at the end needs a directory and no permission to search it.
      if step = .directory then followSteps root followLast links trail rest
      else if !permissions.search then .error .permissionDenied
      else match step with
        | .up => followSteps root followLast links trail.tail rest
        | .name name =>
          if maxNameLength < name.length then .error .nameTooLong
          else match entries.lookup name with
            -- Only the last name may be missing, and no slash may follow it.
            | none => if rest = [] then .ok (.absent trail name) else .error .notFound
            | some (.link target) =>
              if rest = [] && !followLast then .ok (.found ((name, .link target) :: trail))
              else match links with
                | 0 => .error .tooManyLinks
                | links + 1 =>
                  -- The steps of the target take the place of the link.
                  let target : Path := ⟨target⟩
                  followSteps root followLast links (if target.isRooted then [] else trail)
                    (target.steps ++ rest)
            | some node => followSteps root followLast links ((name, node) :: trail) rest
        | _ => followSteps root followLast links trail rest
    | _ => .error .notDirectory
termination_by steps => (links, steps.length)

/-- A file system as one process sees it: the tree and the process's working directory. -/
structure FileSystem where
  /-- The root of the tree. -/
  root : Node
  /-- The names from the root to the working directory. -/
  cwd : List Name

namespace FileSystem

/-- The working directory as an absolute path. -/
def cwdPath (fs : FileSystem) : Path :=
  match fs.cwd with
  | [] => ⟨[Path.slash]⟩
  | names => ⟨Path.join [] names⟩

/-- Where a path leads. -/
def locate (fs : FileSystem) (path : Path) (followLast : Bool) : Except IoError Spot :=
  if (0 : UInt8) ∈ path.bytes then .error .zeroInPath
  else if path.bytes = [] then .error .notFound
  else if maxPathLength < path.bytes.length then .error .nameTooLong
  else
    followSteps fs.root followLast maxLinks
      (if path.isRooted then [] else Trail.ofPlace fs.root [] fs.cwd) path.steps

/-- The trail to the node of a path. -/
def find (fs : FileSystem) (path : Path) (followLast : Bool) : Except IoError Trail :=
  match fs.locate path followLast with
  | .ok (.found trail) => .ok trail
  | .ok (.absent ..) => .error .notFound
  | .error e => .error e

/-- The node of a path, links followed. -/
def stat (fs : FileSystem) (path : Path) : Except IoError Node :=
  (fs.find path true).map (Trail.node fs.root)

/-- The node of a path; a link stands for itself. -/
def linkStat (fs : FileSystem) (path : Path) : Except IoError Node :=
  (fs.find path false).map (Trail.node fs.root)

end FileSystem

end SourceSurvey
