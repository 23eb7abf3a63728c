import Mathlib.Algebra.BigOperators.Group.List.Basic
import Mathlib.Algebra.Group.Action.Defs
import SourceSurvey.Proofs.Report.Recording

/-!
# Recordings add up

Whatever is recorded, in whatever order and on top of whatever report, a counter ends at the number
it began with plus what was recorded for it, or at the greatest counter if that is less; nothing
else changes (`Report.Accumulates`). A counter that is full stays full, so the sum may be cut off
anywhere on the way. In between no counter is ever lower than it was before (`Report.IsBelow`).

The main statement is `Report.recordAll_accumulates`.
-/

set_option autoImplicit false

namespace SourceSurvey

/-! ## Amounts -/

namespace Count

/-- Adding amounts makes no counter smaller, and none disappears. -/
theorem exists_le_accumulate (n : Count) (amounts : List Count) :
    ∃ m, accumulate (some n) amounts = some m ∧ n.toNat ≤ m.toNat := by
  unfold accumulate
  split
  · exact ⟨n, rfl, Nat.le_refl _⟩
  · refine ⟨_, rfl, ?_⟩
    have hn := n.le_limit
    rw [toNat_ofNat, Option.getD_some]
    omega

/-- Counting one by one. -/
theorem accumulate_replicate (old : Option Count) {k : Nat} (hk : 0 < k) :
    accumulate old (List.replicate k 1) = some (ofNat ((old.getD 0).toNat + k)) := by
  have hne : List.replicate k (1 : Count) ≠ [] := by
    rw [ne_eq, List.replicate_eq_nil_iff]
    omega
  rw [accumulate, if_neg hne, List.map_replicate, List.sum_replicate, toNat_one, smul_eq_mul,
    Nat.mul_one]

end Count

namespace Recording

/-- The lines that are recorded for a category. -/
def linesOf (category : String) : Recording → Nat
  | .lines c amount => if c = category then amount.toNat else 0
  | _ => 0

/-- Whether a file is recorded in a directory; one that is `unknown` is not. -/
def isPlaced : Recording → Bool
  | .location c _ => c ≠ unknown
  | _ => false

section Amounts

variable (recordings : List Recording)

/-- Where each recording of some kind brings one, there are as many ones as recordings. -/
theorem filterMap_eq_replicate {amount? : Recording → Option Count} {p : Recording → Bool}
    (h : ∀ r, amount? r = if p r then some 1 else none) :
    recordings.filterMap amount? = List.replicate (recordings.countP p) 1 := by
  induction recordings with
  | nil => rfl
  | cons r rest ih =>
    rw [List.filterMap_cons, h, ih, List.countP_cons]
    cases p r with
    | true => rfl
    | false => rfl

/-- Every recording of a file brings one. -/
theorem filterMap_fileAmount? (c : String) :
    recordings.filterMap (·.fileAmount? c) = List.replicate (recordings.count (.file c)) 1 := by
  apply filterMap_eq_replicate
  intro r
  cases r with
  | file c' => simp [fileAmount?]
  | lines c' amount => rfl
  | location c' d => rfl

/-- Every recording of a place brings one, but for the category `unknown`. -/
theorem filterMap_placeAmount? {c : String} (hc : c ≠ unknown) (d : String) :
    recordings.filterMap (·.placeAmount? c d) =
      List.replicate (recordings.count (.location c d)) 1 := by
  apply filterMap_eq_replicate
  intro r
  cases r with
  | file c' => rfl
  | lines c' amount => rfl
  | location c' d' =>
    by_cases h : c' = c
    · subst h
      simp [placeAmount?, hc]
    · simp [placeAmount?, h]

/-- In no directory is a file recorded that is `unknown`. -/
theorem filterMap_placeAmount?_unknown (d : String) :
    recordings.filterMap (·.placeAmount? unknown d) = [] := by
  rw [List.filterMap_eq_nil_iff]
  intro r _
  cases r with
  | file c' => rfl
  | lines c' amount => rfl
  | location c' d' =>
    refine if_neg ?_
    rintro ⟨rfl, -, hc⟩
    exact hc rfl

theorem filterMap_tallyAmount? :
    recordings.filterMap tallyAmount? = List.replicate (recordings.countP isPlaced) 1 := by
  apply filterMap_eq_replicate
  intro r
  cases r with
  | file c' => rfl
  | lines c' amount => rfl
  | location c' d =>
    by_cases h : c' = unknown
    · simp [tallyAmount?, isPlaced, h]
    · simp [tallyAmount?, isPlaced, h]

/-- The lines that are brought are those of the recordings of lines. -/
theorem sum_filterMap_lineAmount? (c : String) :
    ((recordings.filterMap (·.lineAmount? c)).map Count.toNat).sum =
      (recordings.map (linesOf c)).sum := by
  induction recordings with
  | nil => rfl
  | cons r rest ih =>
    rw [List.map_cons, List.sum_cons, ← ih, List.filterMap_cons]
    cases r with
    | file c' => simp [lineAmount?, linesOf]
    | lines c' amount => by_cases h : c' = c <;> simp [lineAmount?, linesOf, h]
    | location c' d => simp [lineAmount?, linesOf]

theorem filterMap_lineAmount?_eq_nil_iff (c : String) :
    recordings.filterMap (·.lineAmount? c) = [] ↔ ∀ n, .lines c n ∉ recordings := by
  rw [List.filterMap_eq_nil_iff]
  constructor
  · intro h n hmem
    have hnone := h _ hmem
    simp [lineAmount?] at hnone
  · intro h r hr
    cases r with
    | file c' => rfl
    | location c' d => rfl
    | lines c' n =>
      refine if_neg ?_
      rintro rfl
      exact h n hr

theorem locates_eq_true_iff {c : String} {r : Recording} :
    r.locates c = true ↔ c ≠ unknown ∧ ∃ d, r = .location c d := by
  cases r with
  | file c' => simp [locates]
  | lines c' amount => simp [locates]
  | location c' d =>
    simp only [locates, Bool.and_eq_true, decide_eq_true_eq, location.injEq]
    constructor
    · rintro ⟨rfl, hc⟩
      exact ⟨hc, d, rfl, rfl⟩
    · rintro ⟨hc, d', rfl, rfl⟩
      exact ⟨rfl, hc⟩

end Amounts

end Recording

/-! ## Reports -/

namespace Report

/-- What a report has become by some recordings: for each counter that was recorded the number
before plus what was recorded, cut off at the greatest counter, and else what it was. -/
structure Accumulates (report : Report) (recordings : List Recording) (result : Report) : Prop where
  /-- The files of a category go up by one each time. -/
  files : ∀ c, .file c ∈ recordings → result.files.get? c =
    some (Count.ofNat (((report.files.get? c).getD 0).toNat + recordings.count (.file c)))
  /-- The lines of a category go up by what is given, be it nothing. -/
  lines : ∀ c n, .lines c n ∈ recordings → result.lines.get? c =
    some (Count.ofNat (((report.lines.get? c).getD 0).toNat +
      (recordings.map (Recording.linesOf c)).sum))
  /-- The files of a category in a directory go up by one each time. -/
  places : ∀ c d, c ≠ unknown → .location c d ∈ recordings → result.placeOf? c d =
    some (Count.ofNat (((report.placeOf? c d).getD 0).toNat + recordings.count (.location c d)))
  /-- The tally goes up by one for each file in a directory, whatever its category. -/
  tally : result.tally =
    Count.ofNat (report.tally.toNat + recordings.countP Recording.isPlaced)
  /-- Without a recording the files of a category stay. -/
  otherFiles : ∀ c, .file c ∉ recordings → result.files.get? c = report.files.get? c
  /-- Without a recording the lines of a category stay. -/
  otherLines : ∀ c, (∀ n, .lines c n ∉ recordings) → result.lines.get? c = report.lines.get? c
  /-- Without a recording the files of a category in a directory stay. -/
  otherPlaces : ∀ c d, (c ≠ unknown → .location c d ∉ recordings) →
    result.placeOf? c d = report.placeOf? c d
  /-- Without a recording in any directory a category keeps its directories; `unknown` always
  does. -/
  otherLocations : ∀ c, (c ≠ unknown → ∀ d, .location c d ∉ recordings) →
    result.locations.get? c = report.locations.get? c

/-- No counter of the first report is missing or greater than in the second. -/
structure IsBelow (report later : Report) : Prop where
  files : ∀ c n, report.files.get? c = some n →
    ∃ m, later.files.get? c = some m ∧ n.toNat ≤ m.toNat
  lines : ∀ c n, report.lines.get? c = some n →
    ∃ m, later.lines.get? c = some m ∧ n.toNat ≤ m.toNat
  places : ∀ c d n, report.placeOf? c d = some n →
    ∃ m, later.placeOf? c d = some m ∧ n.toNat ≤ m.toNat
  locations : ∀ c ∈ report.locations.keys, c ∈ later.locations.keys
  tally : report.tally.toNat ≤ later.tally.toNat

section Recordings

variable (report : Report) (recordings : List Recording)

theorem placeOf?_recordAll_of_notMem {c d : String}
    (h : c ≠ unknown → .location c d ∉ recordings) :
    (report.recordAll recordings).placeOf? c d = report.placeOf? c d := by
  rw [placeOf?_recordAll]
  by_cases hc : c = unknown
  · rw [hc, Recording.filterMap_placeAmount?_unknown, Count.accumulate_nil]
  · rw [Recording.filterMap_placeAmount? recordings hc, List.count_eq_zero_of_not_mem (h hc),
      List.replicate_zero, Count.accumulate_nil]

/-- What recordings make of a report is what they add up to. -/
theorem accumulates_recordAll : report.Accumulates recordings (report.recordAll recordings) where
  files c h := by
    rw [get?_files_recordAll, Recording.filterMap_fileAmount?,
      Count.accumulate_replicate _ (List.count_pos_iff.2 h)]
  lines c n h := by
    have hne : recordings.filterMap (·.lineAmount? c) ≠ [] := by
      rw [ne_eq, Recording.filterMap_lineAmount?_eq_nil_iff]
      exact fun hnone => hnone n h
    rw [get?_lines_recordAll, Count.accumulate, if_neg hne, Recording.sum_filterMap_lineAmount?]
  places c d hc h := by
    rw [placeOf?_recordAll, Recording.filterMap_placeAmount? recordings hc,
      Count.accumulate_replicate _ (List.count_pos_iff.2 h)]
  tally := by
    have htally := tally_recordAll report recordings
    rw [Recording.filterMap_tallyAmount?] at htally
    -- The tally is always there, so the case of no recordings is not one of an absent key.
    rcases Nat.eq_zero_or_pos (recordings.countP Recording.isPlaced) with hzero | hpos
    · rw [hzero, List.replicate_zero, Count.accumulate_nil, Option.some.injEq] at htally
      have hle := report.tally.le_limit
      rw [htally, hzero]
      ext
      rw [Count.toNat_ofNat]
      omega
    · rw [Count.accumulate_replicate _ hpos, Option.getD_some, Option.some.injEq] at htally
      exact htally
  otherFiles c h := by
    rw [get?_files_recordAll, Recording.filterMap_fileAmount?, List.count_eq_zero_of_not_mem h,
      List.replicate_zero, Count.accumulate_nil]
  otherLines c h := by
    rw [get?_lines_recordAll, (Recording.filterMap_lineAmount?_eq_nil_iff recordings c).2 h,
      Count.accumulate_nil]
  otherPlaces c d h := placeOf?_recordAll_of_notMem report recordings h
  otherLocations c h := by
    apply get?_locations_eq
    · have hnone : recordings.any (·.locates c) = false := by
        rw [List.any_eq_false]
        intro r hr hlocates
        obtain ⟨hc, d, rfl⟩ := Recording.locates_eq_true_iff.1 hlocates
        exact h hc d hr
      rw [isSome_locations_recordAll, hnone, Bool.or_false]
    · exact fun d => placeOf?_recordAll_of_notMem report recordings fun hc => h hc d

/-- Recordings take nothing away. -/
theorem isBelow_recordAll : report.IsBelow (report.recordAll recordings) where
  files c n h := by
    rw [get?_files_recordAll, h]
    exact Count.exists_le_accumulate _ _
  lines c n h := by
    rw [get?_lines_recordAll, h]
    exact Count.exists_le_accumulate _ _
  places c d n h := by
    rw [placeOf?_recordAll, h]
    exact Count.exists_le_accumulate _ _
  locations c h := by
    rw [SortedMap.mem_keys_iff, ← Option.isSome_iff_exists] at h ⊢
    rw [isSome_locations_recordAll, h, Bool.true_or]
  tally := by
    obtain ⟨m, hm, hle⟩ := Count.exists_le_accumulate report.tally
      (recordings.filterMap Recording.tallyAmount?)
    rw [← tally_recordAll, Option.some.injEq] at hm
    rwa [hm]

/-- Recordings add up in any order, and no counter wraps. After any recordings on top of any
report, every counter that was recorded holds what it held plus what was recorded for it, or is
full, and all others are what they were. Another order of the recordings gives the same report, and
at no point on the way is a counter greater than afterwards. -/
theorem recordAll_accumulates :
    report.Accumulates recordings (report.recordAll recordings) ∧
    (∀ recordings', recordings'.Perm recordings →
      report.recordAll recordings' = report.recordAll recordings) ∧
    ∀ first second, recordings = first ++ second →
      (report.recordAll first).IsBelow (report.recordAll recordings) := by
  refine ⟨accumulates_recordAll report recordings, ?_, ?_⟩
  · intro recordings' h
    exact recordAll_perm report h
  · rintro first second rfl
    rw [recordAll_append]
    exact isBelow_recordAll (report.recordAll first) second

end Recordings

/-- A report that has room for one more file of a category. -/
def almostFull : Report :=
  { empty with files := bump .empty "C" (.ofNat (Count.limit - 1)) }

/-- Three files more fill the counter, before or after the lines and the directories. -/
theorem recordAll_accumulates_almostFull :
    [Recording.location "C" ".", .file "C", .lines "C" 0, .file "C", .file "C"].Perm
        [.file "C", .file "C", .file "C", .lines "C" 0, .location "C" "."] ∧
      almostFull.recordAll
          [.location "C" ".", .file "C", .lines "C" 0, .file "C", .file "C"] =
        almostFull.recordAll
          [.file "C", .file "C", .file "C", .lines "C" 0, .location "C" "."] ∧
      ∃ n, (almostFull.recordAll
        [.file "C", .file "C", .file "C", .lines "C" 0, .location "C" "."]).files.get? "C" =
          some n ∧ n.toNat = 2 ^ 64 - 1 := by
  obtain ⟨hsum, horder, -⟩ := recordAll_accumulates almostFull
    [.file "C", .file "C", .file "C", .lines "C" 0, .location "C" "."]
  have hperm : [Recording.location "C" ".", .file "C", .lines "C" 0, .file "C", .file "C"].Perm
      [.file "C", .file "C", .file "C", .lines "C" 0, .location "C" "."] := by decide
  exact ⟨hperm, horder _ hperm, _, hsum.files "C" (by decide), by decide⟩

end Report

end SourceSurvey
