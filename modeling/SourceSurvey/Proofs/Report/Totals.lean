import Mathlib.Algebra.Order.BigOperators.Group.List
import Mathlib.Algebra.Order.Group.Nat
import SourceSurvey.Proofs.Report.Coherence
import SourceSurvey.Proofs.Report.HtmlLossless
import SourceSurvey.Proofs.Survey.Accounting

/-!
# The totals of a report

The rows of a report show totals of four kinds: those of each category, their sum, those of
`unknown`, and the sum of all. Each sum is made by adding counters one after the other, and a
counter that is full stays full; so a sum is the exact sum cut off at the greatest counter
(`Totals.isCappedSum_addAll`), which no order of the parts can change (`Totals.IsCappedSum.unique`).

The main statement is `Report.shown_addsUp`. In the report of a survey every category that has lines
has files (`Report.lines_subset_ofFindings`), so the sum of all leaves no line out.
-/

set_option autoImplicit false

namespace SourceSurvey

/-! ## Sums that are cut off -/

namespace Count

/-- Adding counters one after the other cuts the exact sum off once. -/
theorem toNat_foldl_add (parts : List Count) (start : Count) :
    (parts.foldl (· + ·) start).toNat =
      min (start.toNat + (parts.map toNat).sum) limit := by
  induction parts generalizing start with
  | nil =>
    have hle := start.le_limit
    simp only [List.foldl_nil, List.map_nil, List.sum_nil]
    omega
  | cons n rest ih =>
    rw [List.foldl_cons, ih, toNat_add, List.map_cons, List.sum_cons]
    omega

end Count

namespace Totals

/-- `total.IsCappedSum parts`: the files of `total` are those of all `parts` together, or as many as
a counter can hold if that is less, and so are the lines. -/
structure IsCappedSum (total : Totals) (parts : List Totals) : Prop where
  /-- The files add up. -/
  files : total.files.toNat = min (2 ^ 64 - 1) (parts.map (·.files.toNat)).sum
  /-- The lines add up. -/
  lines : total.lines.toNat = min (2 ^ 64 - 1) (parts.map (·.lines.toNat)).sum

/-- The parts added one after the other. -/
def addAll (parts : List Totals) : Totals := parts.foldl (· + ·) .zero

theorem addAll_concat (parts : List Totals) (t : Totals) :
    addAll (parts ++ [t]) = addAll parts + t :=
  List.foldl_concat _ _ _ _

theorem files_foldl (parts : List Totals) (start : Totals) :
    (parts.foldl (· + ·) start).files = (parts.map (·.files)).foldl (· + ·) start.files := by
  rw [List.foldl_map]
  exact (List.foldl_hom Totals.files fun _ _ => rfl).symm

theorem lines_foldl (parts : List Totals) (start : Totals) :
    (parts.foldl (· + ·) start).lines = (parts.map (·.lines)).foldl (· + ·) start.lines := by
  rw [List.foldl_map]
  exact (List.foldl_hom Totals.lines fun _ _ => rfl).symm

/-- Parts that are added one after the other are cut off once. -/
theorem isCappedSum_addAll (parts : List Totals) : (addAll parts).IsCappedSum parts where
  files := by
    rw [addAll, files_foldl, Count.toNat_foldl_add, List.map_map, Nat.min_comm]
    exact congrArg (min _) (Nat.zero_add _)
  lines := by
    rw [addAll, lines_foldl, Count.toNat_foldl_add, List.map_map, Nat.min_comm]
    exact congrArg (min _) (Nat.zero_add _)

namespace IsCappedSum

variable {total total' : Totals} {parts parts' : List Totals}

/-- The sum does not depend on the order of the parts. -/
theorem unique (h : total.IsCappedSum parts) (h' : total'.IsCappedSum parts')
    (hperm : parts.Perm parts') : total = total' := by
  have hfiles : total.files = total'.files := by
    ext
    rw [h.files, h'.files, (hperm.map _).sum_nat]
  have hlines : total.lines = total'.lines := by
    ext
    rw [h.lines, h'.lines, (hperm.map _).sum_nat]
  exact congrArg₂ Totals.mk hfiles hlines

/-- A sum of more parts is no less. -/
theorem le_of_append (h : total.IsCappedSum parts) (h' : total'.IsCappedSum (parts ++ parts')) :
    total.files.toNat ≤ total'.files.toNat ∧ total.lines.toNat ≤ total'.lines.toNat := by
  rw [h.files, h.lines, h'.files, h'.lines, List.map_append, List.map_append, List.sum_append,
    List.sum_append]
  omega

/-- A sum is no less than one of its parts. -/
theorem le_of_mem (h : total.IsCappedSum parts) {t : Totals} (ht : t ∈ parts) :
    t.files.toNat ≤ total.files.toNat ∧ t.lines.toNat ≤ total.lines.toNat := by
  have hfiles := List.single_le_sum (by simp) _ (List.mem_map_of_mem (f := (·.files.toNat)) ht)
  have hlines := List.single_le_sum (by simp) _ (List.mem_map_of_mem (f := (·.lines.toNat)) ht)
  have hfull := t.files.le_limit
  have hfull' := t.lines.le_limit
  have hlimit : Count.limit = 2 ^ 64 - 1 := rfl
  rw [h.files, h.lines]
  omega

end IsCappedSum

end Totals

/-! ## The totals that rows show -/

/-- The kinds of totals in the rows of a report. -/
inductive TotalsKind where
  /-- Those of a category. -/
  | category
  /-- The sum of all categories but `unknown`. -/
  | identified
  /-- Those of `unknown`. -/
  | unidentified
  /-- The sum of all categories. -/
  | total
  deriving DecidableEq

/-- The totals of a kind that a row shows. -/
def Row.totals? : TotalsKind → Row → Option Totals
  | .category, .category _ totals => some totals
  | .identified, .identified totals => some totals
  | .unidentified, .unidentified totals => some totals
  | .total, .total totals => some totals
  | _, _ => none

namespace Report

/-- The totals of a kind that the rows of a report show, from the first row to the last. -/
def shown (report : Report) (showLocations : Bool) (kind : TotalsKind) : List Totals :=
  (report.rows showLocations).filterMap (Row.totals? kind)

section Shown

variable (report : Report) (showLocations : Bool)

/-- Below the heading of the categories the totals are theirs, and directories show none. -/
theorem filterMap_bodyRows (kind : TotalsKind) :
    (report.bodyRows showLocations).filterMap (Row.totals? kind) =
      match kind with
      | .category => report.categories.map report.totalsOf
      | _ => [] := by
  have hlocations : ∀ c, (report.locationRows c).filterMap (Row.totals? kind) = [] := by
    intro c
    rw [List.filterMap_eq_nil_iff]
    intro row hrow
    unfold locationRows at hrow
    split at hrow
    · cases hrow
    · obtain ⟨e, -, rfl⟩ := List.mem_map.1 hrow
      cases kind <;> rfl
  -- So of the rows of a category only its own shows totals.
  have hrows : ∀ c, (report.categoryRows showLocations c).filterMap (Row.totals? kind) =
      [Row.category c (report.totalsOf c)].filterMap (Row.totals? kind) := by
    intro c
    rw [categoryRows, ← List.singleton_append, List.filterMap_append]
    cases showLocations with
    | false => exact List.append_nil _
    | true => rw [if_pos rfl, hlocations, List.append_nil]
  rw [bodyRows, List.filterMap_flatMap]
  simp only [hrows]
  cases kind with
  | category => exact List.map_eq_flatMap.symm
  | identified | unidentified | total => simp [Row.totals?]

/-- Below the heading of the summary there is one row for each sum, and one for `unknown` if there
are such files. -/
theorem filterMap_summaryBody (kind : TotalsKind) :
    (report.summaryBody showLocations).filterMap (Row.totals? kind) =
      match kind with
      | .category => []
      | .identified => [report.identified]
      | .unidentified => report.unidentified?.toList
      | .total => [report.grandTotal] := by
  unfold summaryBody
  cases report.unidentified? <;> cases showLocations <;> cases kind <;> rfl

theorem shown_eq (kind : TotalsKind) :
    report.shown showLocations kind =
      match kind with
      | .category => report.categories.map report.totalsOf
      | .identified => [report.identified]
      | .unidentified => report.unidentified?.toList
      | .total => [report.grandTotal] := by
  have hedges : report.shown showLocations kind =
      (report.bodyRows showLocations).filterMap (Row.totals? kind) ++
        (report.summaryBody showLocations).filterMap (Row.totals? kind) := by
    rw [shown, rows_eq]
    cases kind <;> simp [Row.totals?, List.filterMap_cons]
  rw [hedges, filterMap_bodyRows, filterMap_summaryBody]
  cases kind with
  | category => exact List.append_nil _
  | identified | unidentified | total => rfl

end Shown

/-! ## The sums in any order -/

section Order

variable (report : Report)

theorem identified_eq : report.identified = Totals.addAll (report.categories.map report.totalsOf) :=
  List.foldl_map.symm

/-- The sum of all is that of the categories with `unknown` behind them. -/
theorem grandTotal_eq : report.grandTotal =
    Totals.addAll (report.categories.map report.totalsOf ++ report.unidentified?.toList) := by
  rw [grandTotal, identified_eq]
  cases report.unidentified? with
  | none => rw [Option.toList_none, List.append_nil]
  | some totals => rw [Option.toList_some, Totals.addAll_concat]

variable {report} {names : List String} (h : names.Perm report.files.keys)

include h

theorem perm_categories : (names.filter (· ≠ unknown)).Perm report.categories := h.filter _

theorem filter_eq_unknown :
    names.filter (· = unknown) = if unknown ∈ names then [unknown] else [] := by
  have hnodup : names.Nodup := h.nodup_iff.2 report.files.nodup_keys
  rw [List.filter_eq, hnodup.count]
  split <;> rfl

theorem unidentified?_eq :
    report.unidentified?.toList = (names.filter (· = unknown)).map report.totalsOf := by
  have hmem : report.files.contains unknown = true ↔ unknown ∈ names := by
    rw [SortedMap.contains_iff, h.mem_iff]
  rw [filter_eq_unknown h, unidentified?]
  simp only [hmem]
  split <;> rfl

/-- The totals of all categories, in any order, are those of the categories and of `unknown`. -/
theorem perm_totals : (names.map report.totalsOf).Perm
    (report.categories.map report.totalsOf ++ report.unidentified?.toList) := by
  have hparts := (List.filter_append_perm (fun c => decide (c ≠ unknown)) names).symm
  have hunknown : (names.filter fun c => !decide (c ≠ unknown)) = names.filter (· = unknown) := by
    simp
  rw [hunknown] at hparts
  have hmap := hparts.map report.totalsOf
  rw [List.map_append] at hmap
  rw [unidentified?_eq h]
  exact hmap.trans (((perm_categories h).map _).append_right _)

/-- The sum of all does not depend on the order of the categories. -/
theorem grandTotal_eq_of_perm :
    report.grandTotal = Totals.addAll (names.map report.totalsOf) := by
  rw [grandTotal_eq]
  exact (Totals.isCappedSum_addAll _).unique (Totals.isCappedSum_addAll _) (perm_totals h).symm

theorem identified_eq_of_perm :
    report.identified = Totals.addAll ((names.filter (· ≠ unknown)).map report.totalsOf) := by
  rw [identified_eq]
  exact (Totals.isCappedSum_addAll _).unique (Totals.isCappedSum_addAll _)
    ((perm_categories h).symm.map _)

end Order

/-! ## The lines of a survey -/

theorem lines_subset_ofFindings (findings : List Finding) :
    (ofFindings findings).lines.keys ⊆ (ofFindings findings).files.keys :=
  (coherent_ofFindings findings).lines_subset

/-- Where lines are of categories that have files, the lines of the categories are all lines. -/
theorem sum_lines_eq_total {report : Report} (h : report.lines.keys ⊆ report.files.keys) :
    (report.files.keys.map fun c => (report.totalsOf c).lines.toNat).sum = report.lines.total := by
  have hsubset : report.lines.keys.toFinset ⊆ report.files.keys.toFinset := by
    intro c hc
    exact List.mem_toFinset.2 (h (List.mem_toFinset.1 hc))
  have hlines : ∀ c, (report.totalsOf c).lines.toNat =
      ((report.lines.get? c).map Count.toNat).getD 0 := by
    intro c
    rw [totalsOf]
    cases report.lines.get? c <;> rfl
  simp only [hlines]
  rw [SortedMap.total, SortedMap.sum_values, ← List.sum_toFinset _ report.files.nodup_keys]
  refine (Finset.sum_subset hsubset fun c _ hc => ?_).symm
  -- A category without lines adds nothing.
  cases hvalue : report.lines.get? c with
  | none => rfl
  | some n => exact absurd (List.mem_toFinset.2 (SortedMap.mem_keys_iff.2 ⟨n, hvalue⟩)) hc

/-- The printed totals add up. In the rows of any report there is one sum of the categories and
one sum of all. Files and lines apart, the one is the exact sum of the rows of the categories and
the other that of these and of the row of `unknown`, if there is one, each cut off at the greatest
counter; so the sum of all is no less than either. Adding up the categories in any other order gives
the same sums. In the report of a survey the sum of all leaves no recorded line out. -/
theorem shown_addsUp (report : Report) (showLocations : Bool) :
    ∃ identified total,
      report.shown showLocations .identified = [identified] ∧
      report.shown showLocations .total = [total] ∧
      identified.IsCappedSum (report.shown showLocations .category) ∧
      total.IsCappedSum
        (report.shown showLocations .category ++ report.shown showLocations .unidentified) ∧
      (∀ part ∈ identified :: report.shown showLocations .unidentified,
        part.files.toNat ≤ total.files.toNat ∧ part.lines.toNat ≤ total.lines.toNat) ∧
      (∀ names : List String, names.Perm report.files.keys →
        identified = Totals.addAll ((names.filter (· ≠ unknown)).map report.totalsOf) ∧
        report.shown showLocations .unidentified =
          (names.filter (· = unknown)).map report.totalsOf ∧
        total = Totals.addAll (names.map report.totalsOf)) ∧
      ∀ fs options classifier root, Survey.scan fs options classifier root = .ok report →
        total.lines.toNat = min (2 ^ 64 - 1) (report.lines.values.map Count.toNat).sum := by
  have hcategories : report.shown showLocations .category = report.categories.map report.totalsOf :=
    report.shown_eq showLocations .category
  have hunidentified : report.shown showLocations .unidentified = report.unidentified?.toList :=
    report.shown_eq showLocations .unidentified
  have hidentified : report.identified.IsCappedSum (report.shown showLocations .category) := by
    rw [hcategories, identified_eq]
    exact Totals.isCappedSum_addAll _
  have htotal : report.grandTotal.IsCappedSum
      (report.shown showLocations .category ++ report.shown showLocations .unidentified) := by
    rw [hcategories, hunidentified, grandTotal_eq]
    exact Totals.isCappedSum_addAll _
  refine ⟨report.identified, report.grandTotal, report.shown_eq showLocations .identified,
    report.shown_eq showLocations .total, hidentified, htotal, ?parts, ?order, ?survey⟩
  -- The rows of the categories are among those that the sum of all adds up.
  case parts =>
    intro part hpart
    rcases List.mem_cons.1 hpart with rfl | hpart
    · exact hidentified.le_of_append htotal
    · exact htotal.le_of_mem (List.mem_append_right _ hpart)
  case order =>
    intro names h
    exact ⟨identified_eq_of_perm h, hunidentified.trans (unidentified?_eq h),
      grandTotal_eq_of_perm h⟩
  -- In a report of a survey every category with lines has files, so it has a row.
  case survey =>
    intro fs options classifier root h
    have hsubset : report.lines.keys ⊆ report.files.keys := by
      rw [eq_ofFindings_of_scan h]
      exact lines_subset_ofFindings _
    have hsum := (Totals.isCappedSum_addAll (report.files.keys.map report.totalsOf)).lines
    rw [grandTotal_eq_of_perm (List.Perm.refl _), hsum, List.map_map]
    exact congrArg (min _) (sum_lines_eq_total hsubset)

/-- A report with more files than a counter can hold, and with lines of a category that has none. -/
def overfull : Report :=
  { empty with
    files := .ofList [("C", .ofNat Count.limit), ("Python", 1), (unknown, 1)]
    lines := .ofList [("C", 1), ("Fortran", 1)] }

/-- The sum is full whichever category comes first; in a survey it counts every line. -/
theorem shown_addsUp_overfull :
    [unknown, "Python", "C"].Perm overfull.files.keys ∧
      (∃ total, overfull.shown true .total = [total] ∧
        total = Totals.addAll ([unknown, "Python", "C"].map overfull.totalsOf) ∧
        total.files.toNat = 2 ^ 64 - 1) ∧
      ∃ report, Survey.scan ⟨Survey.lockedTree, []⟩ ⟨[], none, .empty⟩ .builtin ⟨[Path.slash]⟩ =
          .ok report ∧
        ∃ total, report.shown true .total = [total] ∧
          total.lines.toNat = min (2 ^ 64 - 1) (report.lines.values.map Count.toNat).sum := by
  have hperm : [unknown, "Python", "C"].Perm overfull.files.keys := by decide
  obtain ⟨_, total, -, htotal, -, -, -, horder, -⟩ := shown_addsUp overfull true
  obtain ⟨report, hreport⟩ := Survey.exists_scan_lockedTree
  obtain ⟨_, total', -, htotal', -, -, -, -, hsurvey⟩ := shown_addsUp report true
  obtain ⟨-, -, hsum⟩ := horder _ hperm
  refine ⟨hperm, ⟨total, htotal, hsum, ?_⟩, report, hreport, total', htotal',
    hsurvey _ _ _ _ hreport⟩
  rw [hsum]
  cbv

end Report

end SourceSurvey
