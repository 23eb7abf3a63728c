import Mathlib.Algebra.GroupWithZero.Nat
import Mathlib.Data.Option.Basic
import SourceSurvey.Survey.Scan

/-!
# What a report holds after a number of recordings

A report changes by recordings of three kinds: a file of a category, lines of a category, a file of
a category in a directory. This module says what every look-up gives after any list of recordings,
from any report: the counter it had before plus the amounts that were recorded for it, cut off at
the greatest counter, with the key present as soon as there is one amount (`get?_files_recordAll`,
`get?_lines_recordAll`, `placeOf?_recordAll`, `tally_recordAll`). A report is determined by its
look-ups (`ext_lookups`), so the order of the recordings does not matter (`recordAll_perm`).

A survey records once for each finding (`ofFindings_eq_recordAll`).
-/

set_option autoImplicit false

namespace SourceSurvey

/-! ## Adding up amounts -/

namespace Count

/-- A counter, if there was one, after some amounts have been added to it. The first amount makes
the counter. -/
def accumulate (old : Option Count) (amounts : List Count) : Option Count :=
  if amounts = [] then old
  else some (ofNat ((old.getD 0).toNat + (amounts.map toNat).sum))

@[simp]
theorem accumulate_nil (old : Option Count) : accumulate old [] = old := rfl

/-- Adding amounts one after the other and adding them all at once come to the same: a sum that is
cut off early stays cut off. -/
theorem accumulate_cons (old : Option Count) (n : Count) (amounts : List Count) :
    accumulate old (n :: amounts) = accumulate (some (old.getD 0 + n)) amounts := by
  unfold accumulate
  rw [if_neg (List.cons_ne_nil n amounts)]
  split
  · rename_i hnil
    subst hnil
    simp only [List.map_cons, List.map_nil, List.sum_cons, List.sum_nil, Option.some.injEq]
    ext
    simp
  -- Both sides are the lesser of the greatest counter and the whole sum.
  · simp only [List.map_cons, List.sum_cons, Option.getD_some, Option.some.injEq]
    ext
    simp only [toNat_ofNat, toNat_add]
    omega

/-- The sum does not depend on the order of the amounts. -/
theorem accumulate_perm {old : Option Count} {amounts amounts' : List Count}
    (h : amounts.Perm amounts') : accumulate old amounts = accumulate old amounts' := by
  unfold accumulate
  have hnil : amounts = [] ↔ amounts' = [] := by
    constructor
    · rintro rfl
      exact h.nil_eq.symm
    · rintro rfl
      exact h.eq_nil
  simp only [hnil, (h.map toNat).sum_nat]

end Count

/-! ## Recordings -/

/-- One change of a report. -/
inductive Recording where
  /-- A file of a category. -/
  | file (category : String)
  /-- Lines of a category. -/
  | lines (category : String) (amount : Count)
  /-- A file of a category in a directory. -/
  | location (category directory : String)
  deriving DecidableEq, Repr

namespace Recording

/-- What is added to the files of a category. -/
def fileAmount? (category : String) : Recording → Option Count
  | .file c => if c = category then some 1 else none
  | _ => none

/-- What is added to the lines of a category. -/
def lineAmount? (category : String) : Recording → Option Count
  | .lines c amount => if c = category then some amount else none
  | _ => none

/-- What is added to the files of a category in a directory. -/
def placeAmount? (category directory : String) : Recording → Option Count
  | .location c d => if c = category ∧ d = directory ∧ c ≠ unknown then some 1 else none
  | _ => none

/-- What is added to the files with a directory. -/
def tallyAmount? : Recording → Option Count
  | .location c _ => if c = unknown then none else some 1
  | _ => none

/-- Whether a recording gives a category a directory. -/
def locates (category : String) : Recording → Bool
  | .location c _ => c = category && c ≠ unknown
  | _ => false

end Recording

namespace Report

/-- The report with one more recording. -/
def record (report : Report) : Recording → Report
  | .file category => report.recordFile category
  | .lines category amount => report.recordLines category amount
  | .location category directory => report.recordLocation category directory

/-- The report with more recordings, made in order. -/
def recordAll (report : Report) (recordings : List Recording) : Report :=
  recordings.foldl record report

@[simp]
theorem recordAll_nil (report : Report) : report.recordAll [] = report := rfl

@[simp]
theorem recordAll_cons (report : Report) (r : Recording) (recordings : List Recording) :
    report.recordAll (r :: recordings) = (report.record r).recordAll recordings := rfl

/-- A list of recordings can be recorded in two parts. -/
theorem recordAll_append (report : Report) (first second : List Recording) :
    report.recordAll (first ++ second) = (report.recordAll first).recordAll second :=
  List.foldl_append

/-- The number of files of a category in a directory. -/
def placeOf? (report : Report) (category directory : String) : Option Count :=
  (report.locations.get? category).bind (·.get? directory)

/-! ## One recording -/

/-- Adding to a key changes what is counted for that key only. -/
theorem get?_bump (map : SortedMap Count) (key : String) (n : Count) (k : String) :
    (bump map key n).get? k = if k = key then some ((map.get? key).getD 0 + n) else map.get? k :=
  SortedMap.get?_alter map key _ k

/-- A recording adds its files to their category. -/
theorem get?_files_record (report : Report) (r : Recording) (category : String) :
    (report.record r).files.get? category =
      Count.accumulate (report.files.get? category) (r.fileAmount? category).toList := by
  cases r with
  | file c =>
    simp only [record, recordFile, get?_bump, Recording.fileAmount?]
    by_cases h : c = category
    · subst h
      simp [Count.accumulate_cons]
    · simp [h, Ne.symm h]
  | lines c amount => rfl
  | location c d =>
    simp only [record, recordLocation, Recording.fileAmount?]
    split <;> rfl

/-- A recording adds its lines to their category. -/
theorem get?_lines_record (report : Report) (r : Recording) (category : String) :
    (report.record r).lines.get? category =
      Count.accumulate (report.lines.get? category) (r.lineAmount? category).toList := by
  cases r with
  | file c => rfl
  | lines c amount =>
    simp only [record, recordLines, get?_bump, Recording.lineAmount?]
    by_cases h : c = category
    · subst h
      simp [Count.accumulate_cons]
    · simp [h, Ne.symm h]
  | location c d =>
    simp only [record, recordLocation, Recording.lineAmount?]
    split <;> rfl

/-- A recording adds its file to one directory of one category. -/
theorem placeOf?_record (report : Report) (r : Recording) (category directory : String) :
    (report.record r).placeOf? category directory =
      Count.accumulate (report.placeOf? category directory)
        (r.placeAmount? category directory).toList := by
  cases r with
  | file c => rfl
  | lines c amount => rfl
  | location c d =>
    simp only [record, recordLocation, Recording.placeAmount?]
    -- Files of no category are in no directory; of the others the category and the directory have
    -- to be the ones looked up.
    by_cases hu : c = unknown
    · simp [hu]
    by_cases hc : c = category
    · subst hc
      simp only [if_neg hu, placeOf?, SortedMap.get?_alter, if_pos, Option.bind_some, get?_bump]
      by_cases hd : d = directory
      · subst hd
        cases report.locations.get? c <;> simp [Count.accumulate_cons, hu]
      · cases report.locations.get? c <;> simp [hd, Ne.symm hd]
    · simp [hu, hc, placeOf?, SortedMap.get?_alter, Ne.symm hc]

/-- A category has directories from the first recording that locates a file of it. -/
theorem isSome_locations_record (report : Report) (r : Recording) (category : String) :
    ((report.record r).locations.get? category).isSome =
      ((report.locations.get? category).isSome || r.locates category) := by
  cases r with
  | file c => simp [record, recordFile, Recording.locates]
  | lines c amount => simp [record, recordLines, Recording.locates]
  | location c d =>
    simp only [record, recordLocation, Recording.locates]
    by_cases hu : c = unknown
    · simp [hu]
    by_cases hc : c = category
    · subst hc
      simp [hu, SortedMap.get?_alter]
    · simp [hu, hc, SortedMap.get?_alter, Ne.symm hc]

/-- A recording adds its file to the tally if it locates it. -/
theorem tally_record (report : Report) (r : Recording) :
    some (report.record r).tally =
      Count.accumulate (some report.tally) r.tallyAmount?.toList := by
  cases r with
  | file c => rfl
  | lines c amount => rfl
  | location c d =>
    simp only [record, recordLocation, Recording.tallyAmount?]
    split
    · rfl
    · simp [Count.accumulate_cons]

/-! ## Any number of recordings -/

section Recordings

variable (report : Report) (recordings : List Recording)

/-- A look-up that every recording changes by the amount it brings is changed by a list of
recordings by the amounts that they bring. -/
theorem lookup_recordAll (look : Report → Option Count) (amount? : Recording → Option Count)
    (step : ∀ report r, look (report.record r) =
      Count.accumulate (look report) (amount? r).toList) :
    look (report.recordAll recordings) =
      Count.accumulate (look report) (recordings.filterMap amount?) := by
  induction recordings generalizing report with
  | nil => rfl
  | cons r rest ih =>
    rw [recordAll_cons, ih, step]
    cases hr : amount? r with
    | none => simp [hr]
    | some n => simp [hr, Count.accumulate_cons]

/-- The files of a category are those of all its recordings. -/
theorem get?_files_recordAll (category : String) :
    (report.recordAll recordings).files.get? category =
      Count.accumulate (report.files.get? category)
        (recordings.filterMap (·.fileAmount? category)) :=
  lookup_recordAll report recordings (·.files.get? category) _
    fun report r => get?_files_record report r category

/-- The lines of a category are those of all its recordings. -/
theorem get?_lines_recordAll (category : String) :
    (report.recordAll recordings).lines.get? category =
      Count.accumulate (report.lines.get? category)
        (recordings.filterMap (·.lineAmount? category)) :=
  lookup_recordAll report recordings (·.lines.get? category) _
    fun report r => get?_lines_record report r category

/-- The files in a directory of a category are those of all recordings that locate a file there. -/
theorem placeOf?_recordAll (category directory : String) :
    (report.recordAll recordings).placeOf? category directory =
      Count.accumulate (report.placeOf? category directory)
        (recordings.filterMap (·.placeAmount? category directory)) :=
  lookup_recordAll report recordings (·.placeOf? category directory) _
    fun report r => placeOf?_record report r category directory

/-- The tally is the number of files that the recordings locate. -/
theorem tally_recordAll :
    some (report.recordAll recordings).tally =
      Count.accumulate (some report.tally) (recordings.filterMap Recording.tallyAmount?) :=
  lookup_recordAll report recordings (some ·.tally) _ tally_record

/-- A category has directories if it had them or if a recording locates a file of it. -/
theorem isSome_locations_recordAll (category : String) :
    ((report.recordAll recordings).locations.get? category).isSome =
      ((report.locations.get? category).isSome || recordings.any (·.locates category)) := by
  induction recordings generalizing report with
  | nil => simp
  | cons r rest ih =>
    rw [recordAll_cons, ih, isSome_locations_record, List.any_cons, Bool.or_assoc]

end Recordings

/-! ## Reports as look-ups -/

/-- The directories of a category are determined by their look-ups and by whether there are any. -/
theorem get?_locations_eq {report report' : Report} {c : String}
    (hkey : (report.locations.get? c).isSome = (report'.locations.get? c).isSome)
    (hplaces : ∀ d, report.placeOf? c d = report'.placeOf? c d) :
    report.locations.get? c = report'.locations.get? c := by
  unfold placeOf? at hplaces
  cases h : report.locations.get? c with
  | none => cases h' : report'.locations.get? c <;> simp_all
  | some directories =>
    cases h' : report'.locations.get? c with
    | none => simp_all
    | some directories' =>
      simp only [h, h', Option.bind_some] at hplaces
      rw [SortedMap.ext_get? hplaces]

/-- Reports that answer every look-up alike are equal. -/
theorem ext_lookups {report report' : Report}
    (files : ∀ c, report.files.get? c = report'.files.get? c)
    (lines : ∀ c, report.lines.get? c = report'.lines.get? c)
    (keys : ∀ c, (report.locations.get? c).isSome = (report'.locations.get? c).isSome)
    (places : ∀ c d, report.placeOf? c d = report'.placeOf? c d)
    (tally : report.tally = report'.tally) : report = report' := by
  have hfiles := SortedMap.ext_get? files
  have hlines := SortedMap.ext_get? lines
  -- A table of directories may be there and be empty, so its look-ups alone do not say whether it
  -- is there.
  have hlocations : report.locations = report'.locations :=
    SortedMap.ext_get? fun c => get?_locations_eq (keys c) (places c)
  cases report
  cases report'
  simp_all

/-- The order of recordings does not matter. -/
theorem recordAll_perm (report : Report) {recordings recordings' : List Recording}
    (h : recordings.Perm recordings') :
    report.recordAll recordings = report.recordAll recordings' := by
  apply ext_lookups
  · intro c
    rw [get?_files_recordAll, get?_files_recordAll]
    exact Count.accumulate_perm (h.filterMap _)
  · intro c
    rw [get?_lines_recordAll, get?_lines_recordAll]
    exact Count.accumulate_perm (h.filterMap _)
  · intro c
    rw [isSome_locations_recordAll, isSome_locations_recordAll, h.any_eq]
  · intro c d
    rw [placeOf?_recordAll, placeOf?_recordAll]
    exact Count.accumulate_perm (h.filterMap _)
  · have htally : Count.accumulate (some report.tally)
          (recordings.filterMap Recording.tallyAmount?) =
        Count.accumulate (some report.tally) (recordings'.filterMap Recording.tallyAmount?) :=
      Count.accumulate_perm (h.filterMap _)
    rw [← tally_recordAll, ← tally_recordAll] at htally
    exact Option.some.inj htally

end Report

/-! ## The recordings of a survey -/

/-- What is recorded for a file of a path and a category. -/
def Recording.ofFile (path : Path) (category : String) (lines : LineCount) : List Recording :=
  .file category ::
    match lines.lines? with
    | none => []
    | some amount => [.lines category amount, .location category path.parentDisplay]

/-- What is recorded for a finding. -/
def Finding.recordings : Finding → List Recording
  | .counted path category lines => Recording.ofFile path category lines
  | _ => []

/-- What is added for a finding is what is recorded for it. -/
theorem Report.add_eq_recordAll (report : Report) (finding : Finding) :
    report.add finding = report.recordAll finding.recordings := by
  cases finding with
  | counted path category lines =>
    simp only [Report.add, Finding.recordings, Recording.ofFile]
    cases lines.lines? <;> rfl
  | unreadable path cause => rfl
  | notCountable => rfl
  | ignored path => rfl
  | otherLanguage => rfl

/-- A report of findings is what is recorded for them, one after the other. -/
theorem Report.ofFindings_eq_recordAll (findings : List Finding) :
    Report.ofFindings findings = Report.empty.recordAll (findings.flatMap Finding.recordings) := by
  have fold : ∀ report : Report, findings.foldl Report.add report =
      report.recordAll (findings.flatMap Finding.recordings) := by
    induction findings with
    | nil => intro report; rfl
    | cons finding rest ih =>
      intro report
      rw [List.foldl_cons, ih, List.flatMap_cons, Report.recordAll_append,
        Report.add_eq_recordAll]
  exact fold .empty

end SourceSurvey
