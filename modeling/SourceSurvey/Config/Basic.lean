import SourceSurvey.Path
import SourceSurvey.SortedMap

/-!
# Settings

What a settings file can say: which directories and files a survey leaves out, which extensions it
knows beyond the built-in ones, and where the indexing tools are. Everything has a default.
-/

set_option autoImplicit false

namespace SourceSurvey

/-- The settings of a survey. -/
structure SurveySettings where
  /-- The names of directories to leave out. -/
  exclude : List String
  /-- The lines of an ignore list. -/
  ignore : List String
  /-- More extensions with their categories. -/
  extensions : SortedMap String
  deriving DecidableEq

/-- Nothing is left out and nothing is added. -/
def SurveySettings.default : SurveySettings := ⟨[], [], .empty⟩

/-- The programs of the indexing tools. -/
structure ToolPaths where
  /-- The program that builds the cross reference. -/
  cscope : Path
  /-- The program that builds the tag files. -/
  gtags : Path
  /-- The program that builds the tag pages. -/
  htags : Path
  /-- The program that builds the documentation. -/
  doxygen : Path
  deriving DecidableEq

/-- Each tool is called by its own name. -/
def ToolPaths.default : ToolPaths :=
  ⟨.ofString "cscope", .ofString "gtags", .ofString "htags", .ofString "doxygen"⟩

/-- All settings. -/
structure Config where
  /-- The settings of a survey. -/
  survey : SurveySettings
  /-- The programs of the indexing tools. -/
  tools : ToolPaths
  deriving DecidableEq

/-- The settings when no file says anything. -/
def Config.default : Config := ⟨.default, .default⟩

/-- The name of a settings file. -/
def Config.fileName : String := ".spelunk.toml"

end SourceSurvey
