import SourceSurvey.Survey.Scan

/-!
# Coherent reports

The tables of a report are kept apart, but not every report can come from a survey: what has lines
or directories has files, and no category is kept without a directory. `Report.Coherent` says so.
The report that has counted nothing is coherent, and every finding leaves a coherent report
coherent (`Report.Coherent.add`), since the file is counted before all else; so the report of a
survey is coherent (`Report.coherent_of_scan`).
-/

set_option autoImplicit false

namespace SourceSurvey

namespace Report

/-- What has lines or directories has files, and what has directories has at least one. Files that
are `unknown` have no directories. -/
structure Coherent (report : Report) : Prop where
  lines_subset : report.lines.keys ⊆ report.files.keys
  locations_subset : report.locations.keys ⊆ report.files.keys
  unknown_notMem : unknown ∉ report.locations.keys
  ne_nil : ∀ directories ∈ report.locations.values, directories.keys ≠ []

/-- The report of nothing is coherent. -/
theorem coherent_empty : empty.Coherent where
  lines_subset := List.Subset.refl _
  locations_subset := List.Subset.refl _
  unknown_notMem := List.not_mem_nil
  ne_nil _ h := absurd h List.not_mem_nil

section Steps

variable {report : Report} {category : String}

/-- Recording a file keeps a report coherent. -/
theorem Coherent.recordFile (h : report.Coherent) (category : String) :
    (report.recordFile category).Coherent where
  lines_subset _ hc := SortedMap.mem_keys_alter.2 (.inr (h.lines_subset hc))
  locations_subset _ hc := SortedMap.mem_keys_alter.2 (.inr (h.locations_subset hc))
  unknown_notMem := h.unknown_notMem
  ne_nil := h.ne_nil

theorem Coherent.recordLines (h : report.Coherent) (hfiles : category ∈ report.files.keys)
    (lines : Count) : (report.recordLines category lines).Coherent where
  lines_subset c hc := by
    rcases SortedMap.mem_keys_alter.1 hc with rfl | hc
    · exact hfiles
    · exact h.lines_subset hc
  locations_subset := h.locations_subset
  unknown_notMem := h.unknown_notMem
  ne_nil := h.ne_nil

/-- Recording where a file is keeps a report coherent, if the file was recorded. -/
theorem Coherent.recordLocation (h : report.Coherent) (hfiles : category ∈ report.files.keys)
    (directory : String) : (report.recordLocation category directory).Coherent := by
  rw [Report.recordLocation]
  split
  · exact h
  rename_i hunknown
  refine ⟨h.lines_subset, ?files, ?known, ?places⟩
  case files =>
    intro c hc
    rcases SortedMap.mem_keys_alter.1 hc with rfl | hc
    · exact hfiles
    · exact h.locations_subset hc
  case known =>
    intro hmem
    rcases SortedMap.mem_keys_alter.1 hmem with heq | hmem
    · exact hunknown heq.symm
    · exact h.unknown_notMem hmem
  case places =>
    intro directories hdirectories
    rcases SortedMap.eq_or_mem_of_mem_values_alter hdirectories with rfl | hold
    -- The new directory is one of them.
    · exact List.ne_nil_of_mem (SortedMap.mem_keys_alter.2 (.inl rfl))
    · exact h.ne_nil directories hold

/-- A finding leaves a coherent report coherent. -/
theorem Coherent.add (h : report.Coherent) (finding : Finding) : (report.add finding).Coherent := by
  cases finding with
  | unreadable | notCountable | ignored | otherLanguage => exact h
  | counted path category lines =>
    have hfile := h.recordFile category
    have hmem : category ∈ (report.recordFile category).files.keys :=
      SortedMap.mem_keys_alter.2 (.inl rfl)
    rw [Report.add]
    cases lines.lines? with
    | none => exact hfile
    -- The file is counted by now, so its category may have lines and directories.
    | some lines => exact (hfile.recordLines hmem lines).recordLocation hmem path.parentDisplay

end Steps

/-- Every report of findings is coherent. The induction is on the findings. -/
theorem coherent_ofFindings (findings : List Finding) : (ofFindings findings).Coherent := by
  have hrun : ∀ report : Report, report.Coherent → (findings.foldl add report).Coherent := by
    induction findings with
    | nil => exact fun _ h => h
    | cons finding rest ih => exact fun report h => ih _ (h.add finding)
  exact hrun .empty coherent_empty

/-- The report of a survey is that of its findings. -/
theorem eq_ofFindings_of_scan {fs : FileSystem} {options : SurveyOptions} {classifier : Classifier}
    {root : Path} {report : Report} (h : Survey.scan fs options classifier root = .ok report) :
    report = ofFindings (Survey.findings fs options classifier root) := by
  unfold Survey.scan at h
  split at h
  · cases h
  · exact (Except.ok.inj h).symm

/-- The report of a survey is coherent. -/
theorem coherent_of_scan {fs : FileSystem} {options : SurveyOptions} {classifier : Classifier}
    {root : Path} {report : Report} (h : Survey.scan fs options classifier root = .ok report) :
    report.Coherent := by
  rw [eq_ofFindings_of_scan h]
  exact coherent_ofFindings _

end Report

end SourceSurvey
