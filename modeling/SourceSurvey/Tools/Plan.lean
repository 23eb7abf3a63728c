import SourceSurvey.Config.Basic

/-!
# Which tools run

The indexing tools in the order in which they run, with their arguments. The tag files are always
built; the other tools run if they are asked for.
-/

set_option autoImplicit false

namespace SourceSurvey

/-- An indexing tool. -/
inductive Tool where
  /-- Builds documentation. -/
  | doxygen
  /-- Builds the cross reference. -/
  | cscope
  /-- Builds tag files. -/
  | gtags
  /-- Builds tag pages. -/
  | htags
  deriving DecidableEq, Repr

/-- The name of a tool. -/
def Tool.name : Tool → String
  | .doxygen => "doxygen"
  | .cscope => "cscope"
  | .gtags => "gtags"
  | .htags => "htags"

/-- The program of a tool. -/
def ToolPaths.program (tools : ToolPaths) : Tool → Path
  | .doxygen => tools.doxygen
  | .cscope => tools.cscope
  | .gtags => tools.gtags
  | .htags => tools.htags

/-- What is asked for. -/
structure PlanOptions where
  /-- The sources are those of a kernel: the system's headers stay out of the cross reference. -/
  kernel : Bool
  /-- Documentation is built. -/
  doxygen : Bool
  /-- The cross reference is built. -/
  cscope : Bool
  /-- Tag pages are built. -/
  web : Bool
  /-- The title of the tag pages. -/
  title : Option String
  deriving DecidableEq, Repr

/-- A tool and its arguments. -/
structure Invocation where
  /-- The tool. -/
  tool : Tool
  /-- The arguments. -/
  arguments : List String
  deriving DecidableEq, Repr

/-- The file that says how documentation is built. -/
def doxyfile : String := "Doxyfile"

namespace PlanOptions

/-- The arguments of the tool that builds the cross reference. -/
def cscopeArguments (options : PlanOptions) : List String :=
  ["-R", "-q", "-b"] ++ if options.kernel then ["-k"] else []

/-- The arguments of the tool that builds tag pages. -/
def htagsArguments (options : PlanOptions) : List String :=
  ["--line-number", "--symbol"] ++
    match options.title with
    | none => []
    | some title => ["--title", title]

/-- The tools that run, in order. -/
def plan (options : PlanOptions) : List Invocation :=
  (if options.doxygen then [⟨.doxygen, [doxyfile]⟩] else []) ++
  (if options.cscope then [⟨.cscope, options.cscopeArguments⟩] else []) ++
  [⟨.gtags, []⟩] ++
  (if options.web then [⟨.htags, options.htagsArguments⟩] else [])

end PlanOptions

end SourceSurvey
