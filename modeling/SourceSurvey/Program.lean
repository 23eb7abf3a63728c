import SourceSurvey.CommandLine.Index
import SourceSurvey.CommandLine.What
import SourceSurvey.Config.Discovery
import SourceSurvey.Log.Filter
import SourceSurvey.Survey.Scan
import SourceSurvey.Tools.Process

/-!
# The two commands

`what` surveys the working directory and writes a report; `code-spelunk` runs the indexing tools
over it. Both read their command line, then the settings, and then do their work; `Outcome` is what
is seen of a run from outside.

`whatReport` is the survey itself. It fails in three ways only (`WhatError`): the settings cannot
be had, a line of the ignore list is no pattern, or the root cannot be listed.
-/

set_option autoImplicit false

namespace SourceSurvey

open CommandLine (WhatArguments IndexArguments Problem)

/-! ## The survey -/

/-- Why there is no report. -/
inductive WhatError where
  /-- The settings cannot be had. -/
  | config (error : ConfigError)
  /-- A line of the ignore list is no pattern. -/
  | ignore (error : IgnoreError)
  /-- The root cannot be listed. -/
  | survey (error : SurveyError)
  deriving DecidableEq, Repr

namespace What

/-- What a survey looks at, given the settings. -/
def surveyOptions (arguments : WhatArguments) (settings : SurveySettings) :
    Except IgnoreError SurveyOptions :=
  (IgnoreList.ofLines (settings.ignore.map String.toList)).map fun ignore =>
    ⟨arguments.exclude ++ settings.exclude, arguments.language, ignore⟩

/-- The table of extensions, given the settings; the settings count in the order of their keys. -/
def classifier (settings : SurveySettings) : Classifier :=
  .withExtensions settings.extensions.entries

/-- The report of a survey. -/
def report (fs : FileSystem) (root : Path) (arguments : WhatArguments) :
    Except WhatError Report :=
  match Config.resolve fs root arguments.config with
  | .error e => .error (.config e)
  | .ok config =>
    match surveyOptions arguments config.survey with
    | .error e => .error (.ignore e)
    | .ok options =>
      match Survey.scan fs options (classifier config.survey) root with
      | .error e => .error (.survey e)
      | .ok report => .ok report

/-- The events of a survey. -/
def events (fs : FileSystem) (root : Path) (arguments : WhatArguments) : List Log.Event :=
  Config.events fs root arguments.config ++
    match Config.resolve fs root arguments.config with
    | .error _ => []
    | .ok config =>
      match surveyOptions arguments config.survey with
      | .error _ => []
      | .ok options => Survey.events fs options (classifier config.survey) root

end What

/-- The text of a survey's report. -/
def whatReport (fs : FileSystem) (root : Path) (arguments : WhatArguments) :
    Except WhatError String :=
  (What.report fs root arguments).map fun report =>
    report.render arguments.format arguments.showLocations

/-! ## How failures are reported -/

/-- The kind of the innermost cause of a failure. -/
inductive FailureKind where
  /-- Files or programs. -/
  | io
  /-- A pattern. -/
  | pattern
  /-- A settings file. -/
  | toml
  deriving DecidableEq, Repr

/-- A failure with its causes, the outermost message first. -/
structure Failure where
  /-- The kind of the innermost cause; none if there is no cause. -/
  kind : Option FailureKind
  /-- The outermost message. -/
  message : String
  /-- The causes, outermost first. -/
  causes : List String
  deriving DecidableEq, Repr

/-- The failure of an ignore list. -/
def IgnoreError.failure (e : IgnoreError) : Failure :=
  ⟨some .pattern, e.message, [e.cause.message]⟩

/-- The failure of a survey of a directory. -/
def SurveyError.failure (e : SurveyError) : Failure :=
  ⟨some .io, e.message, [e.cause.message]⟩

/-- The failure of finding or reading the settings. -/
def ConfigError.failure (e : ConfigError) : Failure :=
  match e with
  | .unreadable _ cause => ⟨some .io, e.message, [cause.message]⟩
  | .invalid _ cause => ⟨some .toml, e.message, [cause.message]⟩

/-- The failure of a survey. -/
def WhatError.failure : WhatError → Failure
  | .config e => e.failure
  | .ignore e => e.failure
  | .survey e =>
    ⟨some .io, "Failed to scan directory: " ++ e.root.display, [e.message, e.cause.message]⟩

/-- The failure of a run of tools. -/
def RunError.failure (e : RunError) : Failure :=
  ⟨e.cause?.map fun _ => .io, e.message, (e.cause?.map IoError.message).toList⟩

namespace Failure

/-- The lines of a text, without blanks at their ends and without the blank ones. -/
def linesOf (text : List Char) : List (List Char) :=
  ((text.splitOn '\n').map Blank.trim).filter (· ≠ [])

/-- The causes with their numbers, if there is more than one. -/
def numbered (causes : List String) : List String :=
  match causes with
  | _ :: _ :: _ => causes.zipIdx.map fun (cause, n) => toString n ++ ": " ++ cause
  | causes => causes

/-- The causes as they are shown to the user. What exactly is wrong with a settings file is shown in
detail that is no matter here. -/
def shownCauses (failure : Failure) : List String :=
  if failure.kind = some .toml then failure.causes.map fun _ => "TOML parse error"
  else failure.causes

/-- The lines that tell the user about a failure. -/
def lines (failure : Failure) : List String :=
  (("Error: " ++ failure.message) :: numbered failure.shownCauses).flatMap fun text =>
    (linesOf text.toList).map String.ofList

end Failure

/-! ## The commands -/

/-- What is seen of a run. -/
structure Outcome where
  /-- The exit status. -/
  exit : Nat
  /-- What is written to the standard output. -/
  output : String
  /-- The lines about a failure. -/
  error : List String
  /-- The lines of the log. -/
  log : List String
  deriving DecidableEq, Repr

/-- A command. -/
inductive Command where
  /-- The survey. -/
  | what
  /-- Indexing. -/
  | codeSpelunk
  deriving DecidableEq, Repr

/-- The name of a command. -/
def Command.name : Command → String
  | .what => "what"
  | .codeSpelunk => "code-spelunk"

/-- The version of the commands. -/
def version : String := "0.1.0"

/-- What a process starts with. -/
structure Environment where
  /-- The file system and the working directory. -/
  files : FileSystem
  /-- The directory in which programs are looked for. -/
  searchDirectory : Path
  /-- The log filter that the environment asks for. -/
  logFilter : Option (List UInt8)

namespace Environment

/-- The log lines of some events. -/
def log (environment : Environment) (verbose : Bool) (events : List Log.Event) : List String :=
  let filter := Log.Filter.choose (environment.logFilter.bind Utf8.decode?) verbose
  (events.filter filter.admits).map Log.Event.line

end Environment

/-- The directory on which both commands work. -/
def workDirectory : Path := .ofString "."

/-- A run that ends when the command line has been read. -/
def Problem.outcome (command : Command) (problem : CommandLine.Problem) : Outcome where
  exit := if problem.isRequest then 0 else 2
  output := if problem = .version then command.name ++ " " ++ version ++ "\n" else ""
  error := []
  log := []

/-- A run of the survey. -/
def runWhat (environment : Environment) (arguments : WhatArguments) : Outcome :=
  let events := What.events environment.files workDirectory arguments
  let log := environment.log arguments.verbose events
  match whatReport environment.files workDirectory arguments with
  | .ok text => ⟨0, text, [], log⟩
  | .error e => ⟨1, "", e.failure.lines, log⟩

/-- What is asked for by the options of indexing. -/
def CommandLine.IndexArguments.planOptions (arguments : IndexArguments) : PlanOptions :=
  ⟨arguments.kernel, arguments.doxygen, arguments.cscope, arguments.web, arguments.title⟩

/-- A run of indexing. -/
def runIndex (environment : Environment) (arguments : IndexArguments) : Outcome :=
  let configEvents := Config.events environment.files workDirectory arguments.config
  match Config.resolve environment.files workDirectory arguments.config with
  | .error e => ⟨1, "", e.failure.lines, environment.log arguments.verbose configEvents⟩
  | .ok config =>
    -- The events of the search come first; the run notes its own behind them.
    let (result, world) := runTools (.process environment.searchDirectory workDirectory)
      arguments.planOptions config.tools ⟨environment.files, "", configEvents⟩
    let log := environment.log arguments.verbose world.events
    match result with
    | .ok _ => ⟨0, world.output, [], log⟩
    | .error e => ⟨1, world.output, e.failure.lines, log⟩

/-- A run of a command with the arguments after its name. -/
def run (command : Command) (environment : Environment) (arguments : List (List UInt8)) : Outcome :=
  let line := Utf8.ofString command.name :: arguments
  match command with
  | .what =>
    match WhatArguments.parse line with
    | .error problem => Problem.outcome command problem
    | .ok arguments => runWhat environment arguments
  | .codeSpelunk =>
    match IndexArguments.parse line with
    | .error problem => Problem.outcome command problem
    | .ok arguments => runIndex environment arguments

end SourceSurvey
