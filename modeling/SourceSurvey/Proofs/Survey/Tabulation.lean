import Mathlib
import SourceSurvey.Proofs.Survey.Reached

/-!
# The report of a survey as a table

The files that a survey counts are a set of entries of the tree, and so are those of them that can
be opened. This module reads every number of the report off these two sets: how many there are of a
category (`get?_files_scan`), how many lines the opened ones have (`get?_lines_scan`), how many of
them are shown in a directory (`placeOf?_scan`), and how many are shown in any (`tally_scan`). A set
has no order, so the order in which directories list their entries does not matter.

`scan_tabulates` puts these together.
-/

set_option autoImplicit false

namespace SourceSurvey

/-! ## Counting in lists and in sets -/

section Lists

variable {α β : Type}

/-- If each element brings one amount or none, the amounts of a list are those of the elements that
bring one. -/
theorem filterMap_flatMap_eq_map {f : α → List β} {g : β → Option Count} {p : α → Prop}
    [DecidablePred p] {v : α → Count}
    (h : ∀ x, (f x).filterMap g = if p x then [v x] else []) (xs : List α) :
    (xs.flatMap f).filterMap g = (xs.filter fun x => decide (p x)).map v := by
  induction xs with
  | nil => rfl
  | cons x rest ih =>
    rw [List.flatMap_cons, List.filterMap_append, h, ih]
    by_cases hp : p x <;> simp [hp]

variable [DecidableEq α] {xs : List α} {p : α → Prop} [DecidablePred p]

/-- A sum over a list without repetitions is a sum over a set. -/
theorem sum_filter_eq (h : xs.Nodup) (f : α → Nat) :
    ((xs.filter fun x => decide (p x)).map f).sum = ∑ x ∈ xs.toFinset with p x, f x := by
  have hfilter : xs.toFinset.filter p = (xs.filter fun x => decide (p x)).toFinset := by
    ext x
    simp
  rw [hfilter, List.sum_toFinset f (h.filter _)]

/-- The amounts of the elements with a property, added up. -/
theorem accumulate_filter (h : xs.Nodup) (old : Option Count) (v : α → Count) :
    Count.accumulate old ((xs.filter fun x => decide (p x)).map v) =
      if xs.toFinset.filter p = ∅ then old
      else some (Count.ofNat ((old.getD 0).toNat + ∑ x ∈ xs.toFinset with p x, (v x).toNat)) := by
  have hempty : (xs.filter fun x => decide (p x)).map v = [] ↔ xs.toFinset.filter p = ∅ := by
    simp [Finset.filter_eq_empty_iff, List.filter_eq_nil_iff]
  unfold Count.accumulate
  simp only [hempty, ← sum_filter_eq h fun x => (v x).toNat, List.map_map, Function.comp_def]

end Lists

/-! ## What is recorded for one file -/

namespace Recording

variable (path : Path) (category : String) (lines : LineCount)

/-- A file brings one file to its category. -/
theorem filterMap_fileAmount?_ofFile (c : String) :
    (ofFile path category lines).filterMap (·.fileAmount? c) =
      if category = c then [1] else [] := by
  unfold ofFile
  cases lines.lines? <;> by_cases h : category = c <;> simp [fileAmount?, h]

/-- A file that can be opened brings its lines to its category. -/
theorem filterMap_lineAmount?_ofFile (c : String) :
    (ofFile path category lines).filterMap (·.lineAmount? c) =
      if lines.lines?.isSome ∧ category = c then [lines.lines?.getD 0] else [] := by
  unfold ofFile
  cases lines.lines? <;> by_cases h : category = c <;> simp [lineAmount?, h]

/-- A file that can be opened brings one file to its directory. -/
theorem filterMap_placeAmount?_ofFile {c : String} (hc : c ≠ unknown) (d : String) :
    (ofFile path category lines).filterMap (·.placeAmount? c d) =
      if lines.lines?.isSome ∧ category = c ∧ path.parentDisplay = d then [1] else [] := by
  unfold ofFile
  -- A file that cannot be opened is given no directory.
  cases lines.lines? with
  | none => simp [placeAmount?]
  | some amount =>
    by_cases h : category = c
    · subst h
      by_cases hd : path.parentDisplay = d <;> simp [placeAmount?, hd, hc]
    · simp [placeAmount?, h]

/-- A file that can be opened and has a category brings one to the tally. -/
theorem filterMap_tallyAmount?_ofFile :
    (ofFile path category lines).filterMap tallyAmount? =
      if lines.lines?.isSome ∧ category ≠ unknown then [1] else [] := by
  unfold ofFile
  cases lines.lines? <;> by_cases h : category = unknown <;>
    simp [tallyAmount?, h, List.filterMap_cons]

theorem any_locates_ofFile (c : String) :
    (ofFile path category lines).any (·.locates c) =
      decide (lines.lines?.isSome ∧ category = c ∧ c ≠ unknown) := by
  unfold ofFile
  cases lines.lines? with
  | none => simp [locates]
  | some amount =>
    by_cases h : category = c
    · subst h
      simp [locates]
    · simp [locates, h]

end Recording

/-! ## The sets that a survey counts -/

namespace Survey

section Sets

variable (fs : FileSystem) (options : SurveyOptions) (classifier : Classifier) (root : Path)

/-- The entries below a root that a survey counts. -/
def countedFiles : Finset (List Name × Kind) :=
  {e ∈ (fs.entriesBelow root).toFinset | IsCounted fs options classifier root e.1 e.2}

/-- The category of an entry. -/
def categoryOf (e : List Name × Kind) : String := classifier.classify (root.descend e.1)

/-- The directory that an entry is shown in. -/
def directoryOf (e : List Name × Kind) : String := (root.descend e.1).parentDisplay

/-- The lines of an entry, none if it cannot be opened. -/
def linesOf? (e : List Name × Kind) : Option Count := (countFile fs (root.descend e.1)).lines?

/-- The counted entries that can be opened. -/
def openedFiles : Finset (List Name × Kind) :=
  {e ∈ countedFiles fs options classifier root | (linesOf? fs root e).isSome}

end Sets

section Lookups

variable {fs : FileSystem} {options : SurveyOptions} {classifier : Classifier} {root : Path}
variable {report : Report}

/-- No entry is counted twice. -/
theorem nodup_countedEntries (hfs : fs.root.WellFormed) :
    (countedEntries fs options classifier root).Nodup :=
  (nodup_entriesBelow hfs).filter _

theorem toFinset_countedEntries :
    (countedEntries fs options classifier root).toFinset =
      countedFiles fs options classifier root := by
  ext e
  simp [countedEntries, countedFiles]

/-- The opened files with a property are counted files that can be opened and have it. -/
theorem filter_openedFiles (p : List Name × Kind → Prop) [DecidablePred p] :
    {e ∈ openedFiles fs options classifier root | p e} =
      {e ∈ countedFiles fs options classifier root | (linesOf? fs root e).isSome ∧ p e} := by
  rw [openedFiles, Finset.filter_filter]

/-- What has been added up in a survey for the files with a property. -/
theorem accumulate_countedEntries (hfs : fs.root.WellFormed) {old : Option Count}
    {amount? : Recording → Option Count} {p : List Name × Kind → Prop} [DecidablePred p]
    {v : List Name × Kind → Count}
    (h : ∀ e, (fileRecordings fs classifier (root.descend e.1)).filterMap amount? =
      if p e then [v e] else []) :
    Count.accumulate old (((countedEntries fs options classifier root).flatMap fun e =>
        fileRecordings fs classifier (root.descend e.1)).filterMap amount?) =
      if {e ∈ countedFiles fs options classifier root | p e} = ∅ then old
      else some (Count.ofNat ((old.getD 0).toNat +
        ∑ e ∈ countedFiles fs options classifier root with p e, (v e).toNat)) := by
  rw [filterMap_flatMap_eq_map h, accumulate_filter (nodup_countedEntries hfs),
    toFinset_countedEntries]

/-- A survey gives the number of counted files of each category that has any. -/
theorem get?_files_scan (hfs : fs.root.WellFormed)
    (h : scan fs options classifier root = .ok report) (c : String) :
    report.files.get? c =
      if {e ∈ countedFiles fs options classifier root | categoryOf classifier root e = c} = ∅ then
        none
      else some (Count.ofNat
        {e ∈ countedFiles fs options classifier root | categoryOf classifier root e = c}.card) := by
  rw [scan_eq_recordAll hfs h, Report.get?_files_recordAll,
    accumulate_countedEntries hfs (p := fun e => categoryOf classifier root e = c) (v := fun _ => 1)
      fun e => Recording.filterMap_fileAmount?_ofFile _ _ _ c,
    Finset.card_eq_sum_ones]
  simp [Report.empty]

/-- A survey gives the sum of the lines of the opened files of each category that has any. -/
theorem get?_lines_scan (hfs : fs.root.WellFormed)
    (h : scan fs options classifier root = .ok report) (c : String) :
    report.lines.get? c =
      if {e ∈ openedFiles fs options classifier root | categoryOf classifier root e = c} = ∅ then
        none
      else some (Count.ofNat
        (∑ e ∈ openedFiles fs options classifier root with categoryOf classifier root e = c,
          ((linesOf? fs root e).getD 0).toNat)) := by
  rw [scan_eq_recordAll hfs h, Report.get?_lines_recordAll,
    accumulate_countedEntries hfs
      (p := fun e => (linesOf? fs root e).isSome ∧ categoryOf classifier root e = c)
      (v := fun e => (linesOf? fs root e).getD 0)
      fun e => Recording.filterMap_lineAmount?_ofFile _ _ _ c,
    ← filter_openedFiles]
  simp [Report.empty]

/-- A survey gives the number of opened files of a category in each directory that has any. -/
theorem placeOf?_scan (hfs : fs.root.WellFormed)
    (h : scan fs options classifier root = .ok report) {c : String} (hc : c ≠ unknown)
    (d : String) :
    report.placeOf? c d =
      if {e ∈ openedFiles fs options classifier root |
          categoryOf classifier root e = c ∧ directoryOf root e = d} = ∅ then none
      else some (Count.ofNat {e ∈ openedFiles fs options classifier root |
          categoryOf classifier root e = c ∧ directoryOf root e = d}.card) := by
  rw [scan_eq_recordAll hfs h, Report.placeOf?_recordAll,
    accumulate_countedEntries hfs
      (p := fun e => (linesOf? fs root e).isSome ∧ categoryOf classifier root e = c ∧
        directoryOf root e = d) (v := fun _ => 1)
      fun e => Recording.filterMap_placeAmount?_ofFile _ _ _ hc d,
    ← filter_openedFiles, Finset.card_eq_sum_ones]
  simp [Report.empty, Report.placeOf?]

/-- A survey gives directories for the categories that have opened files, but for `unknown`. -/
theorem isSome_locations_scan (hfs : fs.root.WellFormed)
    (h : scan fs options classifier root = .ok report) (c : String) :
    (report.locations.get? c).isSome = true ↔
      c ≠ unknown ∧ {e ∈ openedFiles fs options classifier root |
        categoryOf classifier root e = c}.Nonempty := by
  -- A file is recorded under a directory of its category if it can be opened and has one.
  have hany : ∀ e : List Name × Kind,
      (fileRecordings fs classifier (root.descend e.1)).any (·.locates c) = true ↔
        (linesOf? fs root e).isSome ∧ categoryOf classifier root e = c ∧ c ≠ unknown := by
    intro e
    rw [fileRecordings, Recording.any_locates_ofFile, decide_eq_true_iff]
    rfl
  rw [scan_eq_recordAll hfs h, Report.isSome_locations_recordAll]
  simp only [Report.empty, SortedMap.get?_empty, Option.isSome_none, Bool.false_or,
    List.any_flatMap, List.any_eq_true, hany, filter_openedFiles, Finset.Nonempty, Finset.mem_filter,
    ← toFinset_countedEntries, List.mem_toFinset]
  constructor
  · rintro ⟨e, he, hopened, hcategory, hunknown⟩
    exact ⟨hunknown, e, he, hopened, hcategory⟩
  · rintro ⟨hunknown, e, he, hopened, hcategory⟩
    exact ⟨e, he, hopened, hcategory, hunknown⟩

/-- The tally of a survey is the number of opened files that have a category. -/
theorem tally_scan (hfs : fs.root.WellFormed)
    (h : scan fs options classifier root = .ok report) :
    report.tally = Count.ofNat {e ∈ openedFiles fs options classifier root |
      categoryOf classifier root e ≠ unknown}.card := by
  -- The tally goes up by one for each opened file with a category, so it is the sum of as many
  -- ones.
  have htally := Report.tally_recordAll Report.empty
    ((countedEntries fs options classifier root).flatMap fun e =>
      fileRecordings fs classifier (root.descend e.1))
  rw [← scan_eq_recordAll hfs h, accumulate_countedEntries hfs
    (p := fun e => (linesOf? fs root e).isSome ∧ categoryOf classifier root e ≠ unknown)
    (v := fun _ => 1) fun e => Recording.filterMap_tallyAmount?_ofFile _ _ _,
    ← filter_openedFiles] at htally
  split at htally
  -- Without a file in a directory the tally is the one of the empty report.
  · rename_i hempty
    rw [hempty]
    exact Option.some.inj htally
  · rw [Finset.card_eq_sum_ones]
    simpa [Report.empty] using htally

/-- The report of a survey is a table of the files that it counts. A survey succeeds exactly
when its root can be listed. Its report then gives for each category the number of counted files,
the number of lines of those that can be opened, and for each directory in which such files are
shown their number; a key is there exactly if there is something to count under it. No file that
is `unknown` is shown in a directory, and the tally is the number of all files that are. -/
theorem scan_tabulates (fs : FileSystem) (options : SurveyOptions) (classifier : Classifier)
    (root : Path) (hfs : fs.root.WellFormed) :
    (∀ place kind, (place, kind) ∈ countedFiles fs options classifier root ↔
      (place ≠ [] ∧ ∃ node x, fs.stat root = .ok node ∧ node.descend? place = some x ∧
        x.kind = kind) ∧ IsCounted fs options classifier root place kind) ∧
    ((∃ report, scan fs options classifier root = .ok report) ↔
      ∃ entries, fs.listing root = .ok entries) ∧
    ∀ report, scan fs options classifier root = .ok report →
      (∀ c, report.files.get? c =
        if {e ∈ countedFiles fs options classifier root | categoryOf classifier root e = c} = ∅ then
          none
        else some (Count.ofNat
          {e ∈ countedFiles fs options classifier root |
            categoryOf classifier root e = c}.card)) ∧
      (∀ c, report.lines.get? c =
        if {e ∈ openedFiles fs options classifier root | categoryOf classifier root e = c} = ∅ then
          none
        else some (Count.ofNat
          (∑ e ∈ openedFiles fs options classifier root with categoryOf classifier root e = c,
            ((linesOf? fs root e).getD 0).toNat))) ∧
      (∀ c, (report.locations.get? c).isSome = true ↔
        c ≠ unknown ∧ {e ∈ openedFiles fs options classifier root |
          categoryOf classifier root e = c}.Nonempty) ∧
      (∀ c, c ≠ unknown → ∀ d, report.placeOf? c d =
        if {e ∈ openedFiles fs options classifier root |
            categoryOf classifier root e = c ∧ directoryOf root e = d} = ∅ then none
        else some (Count.ofNat {e ∈ openedFiles fs options classifier root |
            categoryOf classifier root e = c ∧ directoryOf root e = d}.card)) ∧
      report.tally = Count.ofNat {e ∈ openedFiles fs options classifier root |
        categoryOf classifier root e ≠ unknown}.card := by
  refine ⟨?_, scan_isOk_iff.trans canList_iff, ?_⟩
  · intro place kind
    rw [countedFiles, Finset.mem_filter, List.mem_toFinset, mem_entriesBelow hfs]
  · intro report h
    exact ⟨get?_files_scan hfs h, get?_lines_scan hfs h, isSome_locations_scan hfs h,
      fun c hc d => placeOf?_scan hfs h hc d, tally_scan hfs h⟩

end Lookups

/-- A tree with a file, a link to it, a directory that is left out, and one that cannot be listed.
-/
def sampleTree : Node :=
  .directory
    [(Utf8.ofString "a.c", .file (.data (Utf8.ofString "int a;")) .all),
      (Utf8.ofString "alias.c", .link (Utf8.ofString "a.c")),
      (Utf8.ofString "CVS", .directory [(Utf8.ofString "b.c", .file (.data []) .all)] .all),
      (Utf8.ofString "locked", .directory [(Utf8.ofString "c.c", .file (.data []) .all)]
        ⟨false, true, true⟩)]
    .all

theorem wellFormed_sampleTree : sampleTree.WellFormed := by decide

/-- In the sample the file and the link to it are counted, nothing in the other two directories. -/
theorem scan_tabulates_sampleTree :
    sampleTree.WellFormed ∧
      ∃ report, scan ⟨sampleTree, []⟩ ⟨[], none, .empty⟩ .builtin ⟨[Path.slash]⟩ = .ok report ∧
        report.files.get? "C" = some (Count.ofNat 2) ∧ report.tally = Count.ofNat 2 := by
  obtain ⟨-, hok, htable⟩ := scan_tabulates ⟨sampleTree, []⟩ ⟨[], none, .empty⟩ .builtin
    ⟨[Path.slash]⟩ wellFormed_sampleTree
  obtain ⟨report, hreport⟩ := hok.2 (canList_iff.1 (by cbv))
  obtain ⟨hfiles, -, -, -, htally⟩ := htable report hreport
  refine ⟨wellFormed_sampleTree, report, hreport, ?_, ?_⟩
  · rw [hfiles]
    cbv
  · rw [htally]
    cbv

end Survey

end SourceSurvey
