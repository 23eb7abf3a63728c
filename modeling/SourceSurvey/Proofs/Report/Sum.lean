import SourceSurvey.Proofs.Report.Recording

/-!
# Sums of reports

Reports are added key by key: a counter that both have is the sum, cut off at the greatest counter,
and one that only one of them has is kept. A look-up in the sum is put together from the two
look-ups (`get?_files_add` and those after it), for a merged map answers so
(`SortedMap.get?_merge`).

What is recorded first and what is recorded afterwards make two reports, and the report of both is
their sum (`recordAll_append_eq_add`): sums that are cut off early come out the same. So what is
recorded in any number of parts is the sum of the reports of the parts (`recordAll_flatMap_eq_sum`).
-/

set_option autoImplicit false

namespace SourceSurvey

/-! ## Merging maps -/

namespace SortedMap

variable {α : Type} (f : α → α → α)

/-- The value that a key has after a value has been merged in. -/
def mergeValue (new : α) : Option α → α
  | none => new
  | some old => f old new

/-- The entries of both maps; `f` puts together the two values of a key that both have. -/
def merge (m n : SortedMap α) : SortedMap α :=
  n.entries.foldl (fun map e => map.alter e.1 (mergeValue f e.2)) m

/-- A merged map answers what the two maps answer together. -/
theorem get?_merge (m n : SortedMap α) (key : String) :
    (m.merge f n).get? key = Option.merge f (m.get? key) (n.get? key) := by
  refine (get?_foldl_alter (mergeValue f) n.nodup_keys m key).trans ?_
  rw [← get?]
  cases m.get? key <;> cases n.get? key <;> rfl

end SortedMap

/-! ## Adding counters that may be missing -/

/-- Adding amounts up in two parts, and each part by itself, come to the same. -/
theorem Count.accumulate_append (first second : List Count) :
    accumulate none (first ++ second) =
      Option.merge (· + ·) (accumulate none first) (accumulate none second) := by
  by_cases hfirst : first = []
  · rw [hfirst, List.nil_append, accumulate_nil, Option.merge_none_left]
  · by_cases hsecond : second = []
    · rw [hsecond, List.append_nil, accumulate_nil, Option.merge_none_right]
    · have hboth : first ++ second ≠ [] := List.append_ne_nil_of_left_ne_nil hfirst second
      rw [accumulate, accumulate, accumulate, if_neg hboth, if_neg hfirst, if_neg hsecond,
        List.map_append, List.sum_append]
      refine congrArg some (Count.ext ?_)
      simp only [toNat_add, toNat_ofNat, Option.getD_none, toNat_zero]
      omega

/-! ## Adding reports -/

namespace Report

/-- The sum of two reports, key by key. -/
def plus (r s : Report) : Report where
  files := r.files.merge (· + ·) s.files
  lines := r.lines.merge (· + ·) s.lines
  locations := r.locations.merge (SortedMap.merge (· + ·)) s.locations
  tally := r.tally + s.tally

instance : Add Report := ⟨plus⟩

instance : Zero Report := ⟨empty⟩

section LookUps

variable (r s : Report) (c d : String)

theorem get?_files_add :
    (r + s).files.get? c = Option.merge (· + ·) (r.files.get? c) (s.files.get? c) :=
  SortedMap.get?_merge _ _ _ c

theorem get?_lines_add :
    (r + s).lines.get? c = Option.merge (· + ·) (r.lines.get? c) (s.lines.get? c) :=
  SortedMap.get?_merge _ _ _ c

theorem get?_locations_add :
    (r + s).locations.get? c =
      Option.merge (SortedMap.merge (· + ·)) (r.locations.get? c) (s.locations.get? c) :=
  SortedMap.get?_merge _ _ _ c

theorem placeOf?_add :
    (r + s).placeOf? c d = Option.merge (· + ·) (r.placeOf? c d) (s.placeOf? c d) := by
  rw [placeOf?, placeOf?, placeOf?, get?_locations_add]
  cases r.locations.get? c with
  | none => rw [Option.merge_none_left, Option.bind_none, Option.merge_none_left]
  | some places =>
    cases s.locations.get? c with
    | none => rw [Option.merge_none_right, Option.bind_none, Option.merge_none_right]
    | some places' => exact SortedMap.get?_merge _ _ _ d

theorem isSome_locations_add :
    ((r + s).locations.get? c).isSome =
      ((r.locations.get? c).isSome || (s.locations.get? c).isSome) := by
  rw [get?_locations_add]
  cases r.locations.get? c <;> cases s.locations.get? c <;> rfl

end LookUps

/-- The report that has counted nothing adds nothing. -/
protected theorem zero_add (r : Report) : 0 + r = r := by
  apply ext_lookups
  · intro c
    rw [get?_files_add]
    exact Option.merge_none_left
  · intro c
    rw [get?_lines_add]
    exact Option.merge_none_left
  · intro c
    rw [isSome_locations_add]
    rfl
  · intro c d
    rw [placeOf?_add]
    exact Option.merge_none_left
  · exact Count.zero_add r.tally

/-- Parts that are missing add nothing. -/
theorem sum_filterMap {α : Type} (parts : List α) (f : α → Option Report) :
    (parts.filterMap f).sum = (parts.map fun part => (f part).getD 0).sum := by
  induction parts with
  | nil => rfl
  | cons part rest ih =>
    rw [List.map_cons, List.sum_cons, ← ih]
    cases h : f part with
    | none => rw [List.filterMap_cons_none h, Option.getD_none, Report.zero_add]
    | some r => rw [List.filterMap_cons_some h, List.sum_cons, Option.getD_some]

/-! ## Recording in parts -/

theorem tally_recordAll_empty (recordings : List Recording) :
    (empty.recordAll recordings).tally =
      Count.ofNat ((recordings.filterMap Recording.tallyAmount?).map Count.toNat).sum := by
  have htally := tally_recordAll empty recordings
  rw [Count.accumulate] at htally
  split at htally
  · rename_i hnone
    rw [hnone]
    exact Option.some.inj htally
  · rw [Option.some.inj htally, Option.getD_some]
    exact congrArg Count.ofNat (Nat.zero_add _)

/-- The report of two lists of recordings is the sum of their reports. -/
theorem recordAll_append_eq_add (first second : List Recording) :
    empty.recordAll (first ++ second) = empty.recordAll first + empty.recordAll second := by
  -- Each counter accumulates what is recorded for it; cut in two, it accumulates two sums that are
  -- added with the same limit.
  apply ext_lookups
  · intro c
    rw [get?_files_add]
    simp only [get?_files_recordAll, List.filterMap_append]
    exact Count.accumulate_append _ _
  · intro c
    rw [get?_lines_add]
    simp only [get?_lines_recordAll, List.filterMap_append]
    exact Count.accumulate_append _ _
  · intro c
    rw [isSome_locations_add]
    simp only [isSome_locations_recordAll, List.any_append]
    rfl
  · intro c d
    rw [placeOf?_add]
    simp only [placeOf?_recordAll, List.filterMap_append]
    exact Count.accumulate_append _ _
  -- The tally is there from the beginning, so it is a plain sum.
  · have hsum : (empty.recordAll first + empty.recordAll second).tally =
        (empty.recordAll first).tally + (empty.recordAll second).tally := rfl
    rw [hsum, tally_recordAll_empty, tally_recordAll_empty, tally_recordAll_empty,
      List.filterMap_append, List.map_append, List.sum_append]
    refine Count.ext ?_
    simp only [Count.toNat_add, Count.toNat_ofNat]
    omega

/-- The report of recordings in parts is the sum of the reports of the parts. -/
theorem recordAll_flatMap_eq_sum {α : Type} (parts : List α) (f : α → List Recording) :
    empty.recordAll (parts.flatMap f) = (parts.map fun part => empty.recordAll (f part)).sum := by
  induction parts with
  | nil => rfl
  | cons part rest ih =>
    rw [List.flatMap_cons, recordAll_append_eq_add, ih, List.map_cons, List.sum_cons]

end Report

end SourceSurvey
