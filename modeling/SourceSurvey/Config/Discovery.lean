import SourceSurvey.Config.Schema
import SourceSurvey.FileSystem.Access
import SourceSurvey.Log.Event

/-!
# Finding the settings

Settings are read from a given file, or from the nearest settings file: the one in a directory, in
its parent, in the parent of that, and so on. Parents are taken from the text of the path alone.
The first place that holds a regular file of the right name decides, whatever is in that file.
-/

set_option autoImplicit false

namespace SourceSurvey

/-- Why no settings can be had. -/
inductive ConfigError where
  /-- The file cannot be read. -/
  | unreadable (path : Path) (cause : IoError)
  /-- The file gives no settings. -/
  | invalid (path : Path) (cause : SchemaFault)
  deriving DecidableEq, Repr

/-- The wording of an error, without its cause. -/
def ConfigError.message : ConfigError → String
  | .unreadable path _ => "Failed to read config file: " ++ path.display
  | .invalid path _ => "Failed to parse config file: " ++ path.display

namespace Config

/-- Reads the settings from a file. -/
def loadFile (fs : FileSystem) (path : Path) : Except ConfigError Config :=
  match fs.readText path with
  | .error cause => .error (.unreadable path cause)
  | .ok text =>
    match Config.parse text with
    | .error cause => .error (.invalid path cause)
    | .ok config => .ok config

/-- The settings file of a directory. -/
def fileIn (directory : Path) : Path := directory ++ Path.ofString fileName

/-- The directory in which the search begins: the given one, below the working directory if it is
relative. The working directory is taken to have a path. That the system cannot tell it, as when the
directory has been removed, is not modelled, so that the search always has a beginning. -/
def searchStart (fs : FileSystem) (directory : Path) : Path :=
  if directory.isRooted then directory else fs.cwdPath ++ directory

/-- The first settings file from a directory upwards. Directories that were `visited` already, under
whatever spelling, end the search. -/
def search (fs : FileSystem) (visited : List (List Path.Component)) (directory : Path) :
    Option Path :=
  -- Two spellings of one path count as one directory.
  if directory.components ∈ visited then none
  else if fs.isRegularFile (fileIn directory) then some (fileIn directory)
  else
    match h : directory.parent? with
    | none => none
    | some parent =>
      have := Path.length_lt_of_parent? h
      search fs (directory.components :: visited) parent
termination_by directory.bytes.length

/-- The settings file that counts for a directory. -/
def discover (fs : FileSystem) (directory : Path) : Option Path :=
  search fs [] (searchStart fs directory)

/-- The settings for a directory. -/
def load (fs : FileSystem) (directory : Path) : Except ConfigError Config :=
  match discover fs directory with
  | some path => loadFile fs path
  | none => .ok .default

/-- The settings for a directory, unless a file is named. -/
def resolve (fs : FileSystem) (directory : Path) (file : Option Path) : Except ConfigError Config :=
  match file with
  | some path => loadFile fs path
  | none => load fs directory

/-! ## The log of the search -/

/-- The part of the program that looks for settings. -/
def target : String := "spelunk::config::loader"

/-- The events of reading a file. -/
def fileEvents (fs : FileSystem) (path : Path) : List Log.Event :=
  match loadFile fs path with
  | .error _ => []
  | .ok _ => [⟨.debug, target, "loaded configuration", [("path", path.display)]⟩]

/-- The events of looking for the settings. -/
def events (fs : FileSystem) (directory : Path) (file : Option Path) : List Log.Event :=
  match file.or (discover fs directory) with
  | some path => fileEvents fs path
  | none => [⟨.debug, target, "no " ++ fileName ++ " found, using defaults", []⟩]

end Config

end SourceSurvey
