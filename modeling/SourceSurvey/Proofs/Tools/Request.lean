import Mathlib
import SourceSurvey.Proofs.Tools.Transcript
import SourceSurvey.Tools.Process

/-!
# Asking for a `Doxyfile`

Documentation is built first if it is built at all, so a missing `Doxyfile` is noticed before
anything else has happened. The run then consists of one launch, which asks the documentation tool
for the file, and ends: nothing is written and no other tool starts. What the launch reports does
not matter. The result is read off the file system as the launch has left it.

`Run.step_request` is that course of a single tool, and `Run.launches_steps` says what the runs that
ask for nothing launch, whatever their writer does. `runTools_requests` puts the two together for a
runner that looks for the `Doxyfile` in a file system.
-/

set_option autoImplicit false

namespace SourceSurvey

/-- The launch that asks the documentation tool for a `Doxyfile`. -/
def ToolPaths.request (tools : ToolPaths) : Launch := ⟨tools.doxygen, ["-g"]⟩

/-! ## Plans with and without a `Doxyfile` -/

theorem PlanOptions.exists_plan_eq {options : PlanOptions} (h : options.doxygen = true) :
    ∃ rest, options.plan = ⟨.doxygen, [doxyfile]⟩ :: rest := by
  rw [plan, if_pos h]
  exact ⟨_, rfl⟩

/-- A plan never asks for a `Doxyfile`, and it gives the documentation tool the one that there is.
-/
theorem PlanOptions.arguments_of_mem_plan {options : PlanOptions} {invocation : Invocation}
    (h : invocation ∈ options.plan) :
    invocation.arguments ≠ ["-g"] ∧
      (invocation.tool = .doxygen → invocation.arguments = [doxyfile]) := by
  simp only [plan, List.mem_append, List.mem_singleton, List.mem_ite_nil_right] at h
  rcases h with ((⟨-, rfl⟩ | ⟨-, rfl⟩) | rfl) | ⟨-, rfl⟩
  · exact ⟨by decide, fun _ => rfl⟩
  · exact ⟨by simp [cscopeArguments], fun htool => by cases htool⟩
  · exact ⟨by decide, fun htool => by cases htool⟩
  · exact ⟨by simp [htagsArguments], fun htool => by cases htool⟩

/-! ## What runs launch, whatever their writer does -/

namespace Run

section Steps

variable {ρ ω : Type} (runner : Runner ρ) (writer : Writer ω) (tools : ToolPaths)

/-- Without a `Doxyfile` the documentation tool is asked for one, its answer is put aside, and
the run ends. -/
theorem step_request {invocation : Invocation} (htool : invocation.tool = .doxygen)
    {session : Session ρ ω} (hmissing : runner.hasDoxyfile session.runner = false) :
    step (Host.ofParts runner writer) tools invocation session =
      (.error (if runner.hasDoxyfile (runner.answer session.runner tools.request).2
        then .doxyfileCreated else .noDoxyfile),
        session.afterLaunch runner tools.request) := by
  have hasked : (decide (invocation.tool = .doxygen) &&
      !(Host.ofParts runner writer).hasDoxyfile session) = true := by
    simp [Host.ofParts, htool, hmissing]
  rw [step, if_pos hasked, htool]
  rfl

/-- Progress launches nothing. -/
theorem launches_progress (session : Session ρ ω) (line : String) :
    (progress (Host.ofParts runner writer) session line).2.launches = session.launches := by
  rw [progress]
  cases h : (Host.ofParts runner writer).write session line with
  | mk written session' =>
    have hsession : session'.launches = session.launches := by
      rw [← show ((Host.ofParts runner writer).write session line).2 = session' by rw [h]]
      rfl
    cases written <;> exact hsession

/-- A tool that is ready is launched once, as planned. -/
theorem launches_step {invocation : Invocation} {session : Session ρ ω}
    (hready : invocation.tool = .doxygen → runner.hasDoxyfile session.runner = true) :
    (step (Host.ofParts runner writer) tools invocation session).2.launches =
      session.launches ++ [invocation.launch tools] := by
  rw [step_ofParts runner tools writer hready]
  split
  · rfl
  · split
    · rfl
    · exact launches_progress runner writer _ _

/-- A run launches the first tools of its plan, as planned, if there is a `Doxyfile` where one
is needed. -/
theorem launches_steps (plan : List Invocation) (session : Session ρ ω)
    (hready : IsReady (runner.hasDoxyfile session.runner) plan) :
    ∃ launched, (steps (Host.ofParts runner writer) tools plan session).2.launches =
      session.launches ++ (plan.take launched).map (·.launch tools) := by
  -- One tool changes the session, so the induction is over all sessions.
  induction plan generalizing session with
  | nil => exact ⟨0, by rw [steps, launches_progress]; simp⟩
  | cons invocation rest ih =>
    have hstep := launches_step runner writer tools hready.1
    rw [steps]
    cases h : step (Host.ofParts runner writer) tools invocation session with
    | mk result session' =>
      rw [h] at hstep
      -- A step that fails ends the run after its launch; the others go on.
      cases result with
      | error e => exact ⟨1, by simpa using hstep⟩
      | ok _ =>
        obtain ⟨launched, hlaunches⟩ := ih session' hready.tail
        refine ⟨launched + 1, ?_⟩
        rw [hlaunches, hstep, List.take_succ_cons, List.map_cons, List.append_assoc]
        rfl

end Steps

end Run

/-! ## Runs that ask for a `Doxyfile` -/

section RunTools

variable {ρ ω : Type} {runner : Runner ρ} {writer : Writer ω}

/-- A missing `Doxyfile` is asked for, and that is the whole run. Let the runner look for the
`Doxyfile` of `directory` in a file system, which its launches may change in any way. If
documentation is asked for and the file does not exist, a run makes one launch, that of the
documentation tool with the argument `-g`; the writer is left as it was; and the result says whether
the file exists after the launch, whatever the launch has reported. If there is a `Doxyfile` or no
documentation is asked for, a run launches tools as planned, and no plan has the argument list
`-g`. -/
theorem runTools_requests {files : ρ → FileSystem} {directory : Path}
    (hfiles : ∀ state, runner.hasDoxyfile state =
      (files state).exists? (directory ++ Path.ofString doxyfile))
    (options : PlanOptions) (tools : ToolPaths) {session after : Session ρ ω}
    {result : Except RunError Unit}
    (hrun : runTools (Host.ofParts runner writer) options tools session = (result, after)) :
    let hasDoxyfile (state : ρ) : Bool :=
      (files state).exists? (directory ++ Path.ofString doxyfile)
    (options.doxygen = true → hasDoxyfile session.runner = false →
      after.launches = session.launches ++ [⟨tools.doxygen, ["-g"]⟩] ∧
      after.runner = (runner.launch session.runner tools.doxygen ["-g"]).2 ∧
      after.writer = session.writer ∧
      result = .error (if hasDoxyfile after.runner then .doxyfileCreated else .noDoxyfile)) ∧
    ((options.doxygen = true → hasDoxyfile session.runner = true) →
      (∃ launched, after.launches =
        session.launches ++ (options.plan.take launched).map (·.launch tools)) ∧
      ∀ invocation ∈ options.plan, invocation.arguments ≠ ["-g"] ∧
        (invocation.tool = .doxygen → invocation.arguments = [doxyfile])) := by
  intro hasDoxyfile
  rw [runTools] at hrun
  constructor
  · intro hdoxygen hmissing
    -- Documentation comes first in the plan, so the run ends with the request before anything else
    -- is launched.
    obtain ⟨rest, hplan⟩ := options.exists_plan_eq hdoxygen
    rw [hplan, Run.steps, Run.step_request runner writer tools rfl ((hfiles _).trans hmissing),
      hfiles] at hrun
    cases hrun
    exact ⟨rfl, rfl, rfl, rfl⟩
  · intro hthere
    have hready : options.doxygen = true → runner.hasDoxyfile session.runner = true := by
      intro hdoxygen
      rw [hfiles]
      exact hthere hdoxygen
    obtain ⟨launched, hlaunches⟩ :=
      Run.launches_steps runner writer tools options.plan session (Run.isReady_plan hready)
    rw [hrun] at hlaunches
    refine ⟨⟨launched, hlaunches⟩, ?_⟩
    intro invocation hinvocation
    exact PlanOptions.arguments_of_mem_plan hinvocation

end RunTools

/-- The beginning of a run in a directory whose `Doxyfile` is a link to a file that does not exist;
`response` is how the first launch is answered. -/
def danglingSession (response : Response) : Session Rehearsal BoundedOutput where
  runner := ⟨⟨.directory [(Utf8.ofString doxyfile, .link (Utf8.ofString "template"))] .all, []⟩,
    [response]⟩
  writer := ⟨[], none⟩
  launches := []

/-- A launch that fails and leaves the file behind the link has made a `Doxyfile`; one that succeeds
and leaves nothing has not. -/
theorem runTools_requests_dangling :
    (danglingSession .success).runner.files.exists? (.ofString "./Doxyfile") = false ∧
      ∀ exit response, (exit, response) ∈
          [(RunError.doxyfileCreated, (⟨some (.ofString "template"), none, some "no", 0⟩ : Response)),
            (.noDoxyfile, .success)] →
        ∃ after, runTools (Host.ofParts (.rehearsal (.ofString ".")) .bounded)
            ⟨false, true, true, true, none⟩ .default (danglingSession response) =
              (.error exit, after) ∧
          after.launches = [⟨.ofString "doxygen", ["-g"]⟩] ∧ after.writer.bytes = [] := by
  have hmissing : ∀ response, (danglingSession response).runner.files.exists?
      (Path.ofString "." ++ Path.ofString doxyfile) = false := by
    intro response
    cbv
  have hleft : (Rehearsal.launch (danglingSession
      ⟨some (.ofString "template"), none, some "no", 0⟩).runner).2.files.exists?
        (Path.ofString "." ++ Path.ofString doxyfile) = true := by cbv
  have hnothing : (Rehearsal.launch (danglingSession .success).runner).2.files.exists?
      (Path.ofString "." ++ Path.ofString doxyfile) = false := by cbv
  have hfiles : ∀ state, (Runner.rehearsal (.ofString ".")).hasDoxyfile state =
      (Rehearsal.files state).exists? (Path.ofString "." ++ Path.ofString doxyfile) :=
    fun _ => rfl
  refine ⟨hmissing .success, ?_⟩
  intro exit response hmem
  cases hrun : runTools (Host.ofParts (.rehearsal (.ofString ".")) .bounded)
      ⟨false, true, true, true, none⟩ .default (danglingSession response) with
  | mk result after =>
    obtain ⟨hrequest, -⟩ := runTools_requests hfiles _ _ hrun
    obtain ⟨hlaunches, hrunner, hwriter, hresult⟩ := hrequest rfl (hmissing response)
    refine ⟨after, Prod.ext (hresult.trans ?_) rfl, hlaunches,
      congrArg BoundedOutput.bytes hwriter⟩
    rw [hrunner]
    rcases hmem with _ | ⟨_, _ | ⟨_, ⟨⟩⟩⟩
    · exact congrArg Except.error (if_pos hleft)
    · exact congrArg Except.error (if_neg (Bool.eq_false_iff.1 hnothing))

end SourceSurvey
