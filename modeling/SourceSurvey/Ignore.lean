import SourceSurvey.Glob.Match
import SourceSurvey.Path
import SourceSurvey.Text.Blank

/-!
# Lists of files to ignore

An ignore list is made of lines. Blank lines and lines that begin with a number sign say nothing;
every other line is a glob pattern, written with or without `./` before it. A path is ignored if a
pattern accepts the whole path or the last name in it.
-/

set_option autoImplicit false

namespace SourceSurvey

/-- A list of patterns for files to ignore. -/
structure IgnoreList where
  /-- The patterns in the order in which they were added. -/
  globs : List Glob
  deriving DecidableEq, Repr

/-- A line of an ignore list that is not a pattern. -/
structure IgnoreError where
  /-- The pattern as it was read: without blanks at its ends and without `./` before it. -/
  pattern : List Char
  /-- What is wrong with it. -/
  cause : Glob.ParseError
  deriving DecidableEq, Repr

/-- The wording of an error, without its cause. -/
def IgnoreError.message (e : IgnoreError) : String :=
  "Invalid ignore pattern: " ++ String.ofList e.pattern

namespace IgnoreList

/-- The list that ignores nothing. -/
def empty : IgnoreList := ⟨[]⟩

/-- Whether the list has no patterns. -/
def isEmpty (list : IgnoreList) : Bool := list.globs.isEmpty

/-- The pattern that a line holds, if it is neither blank nor a comment. -/
def patternOf? (line : List Char) : Option (List Char) :=
  match Blank.trim line with
  | [] => none
  | '#' :: _ => none
  | '.' :: '/' :: pattern => some pattern
  | pattern => some pattern

/-- Reads a line: the pattern in it, or nothing. -/
def parseLine (line : List Char) : Except IgnoreError (Option Glob) :=
  match patternOf? line with
  | none => .ok none
  | some pattern =>
    match Glob.parse pattern with
    | .ok glob => .ok (some glob)
    | .error cause => .error ⟨pattern, cause⟩

/-- The list with one more line. -/
def add (list : IgnoreList) (line : List Char) : Except IgnoreError IgnoreList :=
  match parseLine line with
  | .ok none => .ok list
  | .ok (some glob) => .ok ⟨list.globs ++ [glob]⟩
  | .error e => .error e

/-- The list of some lines; the first line that is wrong is reported. -/
def ofLines (lines : List (List Char)) : Except IgnoreError IgnoreList :=
  lines.foldlM add empty

/-- The path without a dot at its beginning. -/
def withoutDot (path : Path) : Path :=
  (path.relativeTo? ⟨[Path.dot]⟩).getD path

/-- Whether a pattern accepts a byte string, which it can only if the bytes are UTF-8. -/
def acceptsBytes (glob : Glob) (bytes : List UInt8) : Bool :=
  match Utf8.decode? bytes with
  | some text => glob.accepts text
  | none => false

/-- Whether a pattern accepts a path or its last name. -/
def acceptsPath (glob : Glob) (path : Path) : Bool :=
  acceptsBytes glob path.bytes ||
    match path.fileName? with
    | some name => acceptsBytes glob name
    | none => false

/-- Whether a path is ignored. -/
def ignores (list : IgnoreList) (path : Path) : Bool :=
  list.globs.any (acceptsPath · (withoutDot path))

end IgnoreList

end SourceSurvey
