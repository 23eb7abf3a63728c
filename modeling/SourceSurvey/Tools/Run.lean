import SourceSurvey.FileSystem.Node
import SourceSurvey.Log.Event
import SourceSurvey.Tools.Plan

/-!
# Running the tools

The tools of a plan run one after the other until one of them fails. Everything that a run does to
the world goes through a host (`Host`): launching a program, asking whether the `Doxyfile` exists,
writing a line of progress, noting an event. The host's state is of any type, so a run can be
studied with any program and any writer.

Documentation cannot be built without a `Doxyfile`. If there is none the documentation tool is
asked for one, and the run ends: the user has to edit that file first.
-/

set_option autoImplicit false

namespace SourceSurvey

/-- What a run can do to the world. `σ` is the state of the world. -/
structure Host (σ : Type) where
  /-- Launches a program with arguments: its exit status, or why it could not be started. -/
  launch : σ → Path → List String → Except IoError Int × σ
  /-- Whether there is a `Doxyfile`. -/
  hasDoxyfile : σ → Bool
  /-- Writes a text of progress. -/
  write : σ → String → Except IoError Unit × σ
  /-- Notes an event. -/
  note : σ → Log.Event → σ

/-- Why a run ends early. -/
inductive RunError where
  /-- A tool ends with an exit status that is not zero. -/
  | stepFailed (tool : Tool) (status : Int)
  /-- The program of a tool cannot be started. -/
  | launchFailed (tool : Tool) (program : Path) (cause : IoError)
  /-- There was no `Doxyfile`, and now there is one. -/
  | doxyfileCreated
  /-- There is no `Doxyfile`. -/
  | noDoxyfile
  /-- The progress cannot be written. -/
  | outputFailed (cause : IoError)
  deriving DecidableEq, Repr

namespace RunError

/-- The wording of an error, without its cause. -/
def message : RunError → String
  | stepFailed tool status => tool.name ++ " failed (exit status " ++ toString status ++ ")"
  | launchFailed tool program _ => tool.name ++ " failed: could not run " ++ program.display
  | doxyfileCreated =>
    "doxygen option selected but no Doxyfile; " ++
      "Doxyfile created, please update it and re-run, or run doxygen directly"
  | noDoxyfile => "doxygen option selected but no Doxyfile, and doxygen could not create one"
  | outputFailed _ => "failed to write progress output"

/-- The cause of an error. -/
def cause? : RunError → Option IoError
  | launchFailed _ _ cause => some cause
  | outputFailed cause => some cause
  | _ => none

end RunError

namespace Run

/-- The part of the program that runs the tools. -/
def target : String := "spelunk::core::spelunk"

/-- The line that says that a tool is done. -/
def completeLine (tool : Tool) : String := tool.name ++ " complete\n"

/-- The line at the end of a run. -/
def readyLine : String := "ready to spelunk\n"

variable {σ : Type} (host : Host σ)

/-- Writes a line of progress. -/
def progress (state : σ) (line : String) : Except RunError Unit × σ :=
  match host.write state line with
  | (.ok _, state) => (.ok (), state)
  | (.error cause, state) => (.error (.outputFailed cause), state)

/-- The event of having asked for a `Doxyfile`. -/
def requestEvent : Except IoError Int → Log.Event
  | .ok status => ⟨.debug, target, "doxygen -g finished", [("status", toString status)]⟩
  | .error cause =>
    ⟨.debug, target, "doxygen -g could not be launched", [("error", cause.message)]⟩

/-- Asks the documentation tool for a `Doxyfile`. Its answer is not trusted; the file is. -/
def requestDoxyfile (program : Path) (state : σ) : RunError × σ :=
  let (answer, state) := host.launch state program ["-g"]
  let state := host.note state (requestEvent answer)
  (if host.hasDoxyfile state then .doxyfileCreated else .noDoxyfile, state)

/-- Runs one tool. -/
def step (tools : ToolPaths) (invocation : Invocation) (state : σ) : Except RunError Unit × σ :=
  let program := tools.program invocation.tool
  -- Whether the file exists is asked when the tool's turn comes, and then the run ends.
  if invocation.tool = .doxygen && !host.hasDoxyfile state then
    let (error, state) := requestDoxyfile host program state
    (.error error, state)
  else
    let state := host.note state ⟨.info, target, "running", [("step", invocation.tool.name)]⟩
    match host.launch state program invocation.arguments with
    | (.error cause, state) => (.error (.launchFailed invocation.tool program cause), state)
    | (.ok status, state) =>
      if status ≠ 0 then (.error (.stepFailed invocation.tool status), state)
      else progress host state (completeLine invocation.tool)

/-- Runs tools one after the other. -/
def steps (tools : ToolPaths) : List Invocation → σ → Except RunError Unit × σ
  | [], state => progress host state readyLine
  | invocation :: rest, state =>
    match step host tools invocation state with
    | (.ok _, state) => steps tools rest state
    | (.error e, state) => (.error e, state)

end Run

/-- Runs the tools that are asked for. -/
def runTools {σ : Type} (host : Host σ) (options : PlanOptions) (tools : ToolPaths) (state : σ) :
    Except RunError Unit × σ :=
  Run.steps host tools options.plan state

/-! ## Hosts made of a runner and a writer -/

/-- Launches programs and knows whether there is a `Doxyfile`. `ρ` is the state of the runner. -/
structure Runner (ρ : Type) where
  /-- Launches a program with arguments. -/
  launch : ρ → Path → List String → Except IoError Int × ρ
  /-- Whether there is a `Doxyfile`. -/
  hasDoxyfile : ρ → Bool

/-- Takes texts. `ω` is the state of the writer. -/
structure Writer (ω : Type) where
  /-- Writes a text. -/
  write : ω → String → Except IoError Unit × ω

/-- A launch of a program. -/
structure Launch where
  /-- The program. -/
  program : Path
  /-- Its arguments. -/
  arguments : List String
  deriving DecidableEq, Repr

/-- The state of a host made of a runner and a writer, with the launches so far. -/
structure Session (ρ ω : Type) where
  /-- The state of the runner. -/
  runner : ρ
  /-- The state of the writer. -/
  writer : ω
  /-- The launches so far, in order. -/
  launches : List Launch

/-- The host made of a runner and a writer; it notes no events. -/
def Host.ofParts {ρ ω : Type} (runner : Runner ρ) (writer : Writer ω) : Host (Session ρ ω) where
  launch session program arguments :=
    let (answer, state) := runner.launch session.runner program arguments
    (answer, { session with
      runner := state
      launches := session.launches ++ [⟨program, arguments⟩] })
  hasDoxyfile session := runner.hasDoxyfile session.runner
  write session text :=
    let (result, state) := writer.write session.writer text
    (result, { session with writer := state })
  note session _ := session

/-- What a bounded writer holds: the characters that it has taken, and the number of bytes for which
there is room. -/
structure BoundedOutput where
  /-- The bytes taken. -/
  bytes : List UInt8
  /-- The number of bytes that it still takes; no bound if none. -/
  room : Option Nat
  deriving DecidableEq, Repr

/-- A writer that takes a number of bytes in all. What does not fit is cut off, and the write
fails. -/
def Writer.bounded : Writer BoundedOutput where
  write output text :=
    let bytes := Utf8.ofString text
    match output.room with
    | none => (.ok (), { output with bytes := output.bytes ++ bytes })
    | some room =>
      let taken : BoundedOutput := ⟨output.bytes ++ bytes.take room, some (room - bytes.length)⟩
      if bytes.length ≤ room then (.ok (), taken)
      else (.error (.other "writer is full"), taken)

end SourceSurvey
