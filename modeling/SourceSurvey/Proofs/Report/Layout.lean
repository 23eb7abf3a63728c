import SourceSurvey.Proofs.Report.Totals
import SourceSurvey.Proofs.Text.Order

/-!
# The layout of a report

The rows of a report are a flat list: a category is followed by its directories, and nothing says
how many there are. `Report.IsLayout` says what the list holds and in which order. Reading it back
takes one pass, `Row.groups`, which gives each category the directories behind it up to the next
category (`Report.groups_rows`).

The main statement is `Report.rows_layout`. Of a coherent report, as a survey makes it, the rows say
everything but for counters of lines that are zero: the groups hold the files, the lines and the
directories of every category but `unknown`, the summary holds those of `unknown` and the tally.
-/

set_option autoImplicit false

namespace SourceSurvey

/-! ## The order of the rows -/

namespace Report

/-- The directories of a category with their files, in the order of the table. -/
def directoriesOf (report : Report) (category : String) : List (String × Count) :=
  match report.locations.get? category with
  | none => []
  | some directories => directories.entries

/-- The rows of directories. -/
def placeRows (directories : List (String × Count)) : List Row :=
  directories.map fun e => .location e.1 e.2

theorem locationRows_eq (report : Report) (category : String) :
    report.locationRows category = placeRows (report.directoriesOf category) := by
  rw [locationRows, directoriesOf]
  cases report.locations.get? category <;> rfl

/-- A category has a directory with a number if its locations say so. -/
theorem mem_directoriesOf {report : Report} {category directory : String} {n : Count} :
    (directory, n) ∈ report.directoriesOf category ↔
      ∃ directories, report.locations.get? category = some directories ∧
        directories.get? directory = some n := by
  rw [directoriesOf]
  cases report.locations.get? category with
  | none => simp
  | some directories => simp [SortedMap.get?_eq_some_iff]

/-- What rows with directories hold, and in which order. -/
structure IsLayout (report : Report) (names : List String)
    (directories : String → List (String × Count)) (rows : List Row) : Prop where
  /-- The categories are in the order of their bytes. -/
  names_sorted : names.Pairwise fun a b => Utf8.ofString a < Utf8.ofString b
  /-- They are those that have files, but for `unknown`. -/
  mem_names : ∀ c, c ∈ names ↔ c ≠ unknown ∧ ∃ n, report.files.get? c = some n
  /-- The directories of each category are in the order of their bytes. -/
  directories_sorted : ∀ c,
    (directories c).Pairwise fun a b => Utf8.ofString a.1 < Utf8.ofString b.1
  /-- They are those that the category has. -/
  mem_directories : ∀ c d n, (d, n) ∈ directories c ↔
    ∃ places, report.locations.get? c = some places ∧ places.get? d = some n
  /-- The rows are these and no others. -/
  rows_eq : rows =
    [Row.header] ++
    (names.flatMap fun c => Row.category c (report.totalsOf c) ::
      (directories c).map fun e => Row.location e.1 e.2) ++
    [Row.summaryHeader, Row.identified report.identified] ++
    (if unknown ∈ report.files.keys then [Row.unidentified (report.totalsOf unknown)] else []) ++
    [Row.total report.grandTotal, Row.directories report.tally, Row.footer]

/-- The rows of a report with directories have the layout. -/
theorem isLayout_rows (report : Report) :
    report.IsLayout report.categories report.directoriesOf (report.rows true) where
  names_sorted := by
    have hkeys : report.files.keys.Pairwise fun a b => Utf8.ofString a < Utf8.ofString b :=
      List.pairwise_map.2 report.files.pairwise_ofString
    exact hkeys.filter _
  mem_names c := by
    rw [categories, List.mem_filter, SortedMap.mem_keys_iff, decide_eq_true_iff, and_comm]
  directories_sorted c := by
    rw [directoriesOf]
    split
    · exact .nil
    · exact SortedMap.pairwise_ofString _
  mem_directories _ _ _ := mem_directoriesOf
  rows_eq := by
    -- The row of `unknown` is there exactly if that category has files.
    have hunknown : (report.unidentified?.map Row.unidentified).toList =
        if unknown ∈ report.files.keys then [.unidentified (report.totalsOf unknown)] else [] := by
      rw [unidentified?]
      simp only [SortedMap.contains_iff]
      split <;> rfl
    have hcategory : report.categoryRows true = fun c => .category c (report.totalsOf c) ::
        (report.directoriesOf c).map fun e => .location e.1 e.2 := by
      funext c
      rw [categoryRows, if_pos rfl, locationRows_eq, placeRows]
    rw [rows, summaryRows, hunknown, hcategory, if_pos rfl]
    simp only [List.append_assoc, List.cons_append, List.nil_append]

end Report

/-! ## Rows without directories -/

/-- Whether a row is about directories. -/
def Row.isPlace : Row → Bool
  | .location .. => true
  | .directories _ => true
  | _ => false

namespace Report

theorem filter_placeRows (directories : List (String × Count)) :
    (placeRows directories).filter (!·.isPlace) = [] := by
  rw [List.filter_eq_nil_iff]
  intro row hrow
  obtain ⟨e, -, rfl⟩ := List.mem_map.1 hrow
  simp [Row.isPlace]

/-- Only the rows of directories are left out below the heading of the categories. -/
theorem filter_bodyRows (report : Report) :
    (report.bodyRows true).filter (!·.isPlace) = report.bodyRows false := by
  have hcategory : ∀ c, (report.categoryRows true c).filter (!·.isPlace) =
      report.categoryRows false c := by
    intro c
    rw [categoryRows, if_pos rfl, locationRows_eq, List.filter_cons_of_pos rfl, filter_placeRows]
    rfl
  rw [bodyRows, List.filter_flatMap]
  simp only [hcategory]
  rfl

/-- Only the tally is left out in the summary. -/
theorem filter_summaryBody (report : Report) :
    (report.summaryBody true).filter (!·.isPlace) = report.summaryBody false := by
  unfold summaryBody
  cases report.unidentified? <;> rfl

/-- Without the rows about directories the rows are those without directories. -/
theorem filter_rows (report : Report) :
    (report.rows true).filter (!·.isPlace) = report.rows false := by
  rw [rows_eq, rows_eq, List.filter_cons_of_pos rfl, List.filter_append, filter_bodyRows,
    List.filter_cons_of_pos rfl, List.filter_append, filter_summaryBody]
  rfl

end Report

/-! ## Reading rows back -/

/-- The directories in front of the first category, and the categories with the directories behind
each of them. A row of another kind ends both. -/
def Row.groups : List Row → List (String × Count) × List (String × Totals × List (String × Count))
  | [] => ([], [])
  | .location directory files :: rest => ((directory, files) :: (groups rest).1, (groups rest).2)
  | .category name totals :: rest => ([], (name, totals, (groups rest).1) :: (groups rest).2)
  | _ :: rest => ([], (groups rest).2)

namespace Report

/-- Rows of directories go to the category in front of them. -/
theorem groups_placeRows (directories : List (String × Count)) (rest : List Row) :
    Row.groups (placeRows directories ++ rest) =
      (directories ++ (Row.groups rest).1, (Row.groups rest).2) := by
  induction directories with
  | nil => rfl
  | cons e more ih =>
    have hcons : placeRows (e :: more) ++ rest =
        .location e.1 e.2 :: (placeRows more ++ rest) := rfl
    rw [hcons, Row.groups, ih]
    rfl

/-- The rows of each category are read as one group. -/
theorem groups_flatMap (report : Report) (names : List String) {rest : List Row}
    (hrest : Row.groups rest = ([], [])) :
    Row.groups (names.flatMap (report.categoryRows true) ++ rest) =
      ([], names.map fun c => (c, report.totalsOf c, report.directoriesOf c)) := by
  induction names with
  | nil => exact hrest
  | cons c more ih =>
    -- The groups of `more` begin with a category, so the directories of `c` end there.
    have hcons : (c :: more).flatMap (report.categoryRows true) ++ rest =
        .category c (report.totalsOf c) :: (placeRows (report.directoriesOf c) ++
          (more.flatMap (report.categoryRows true) ++ rest)) := by
      rw [List.flatMap_cons, categoryRows, if_pos rfl, locationRows_eq, List.append_assoc,
        List.cons_append]
    rw [hcons, Row.groups, groups_placeRows, ih, List.append_nil]
    rfl

/-- Behind the categories there are no groups. -/
theorem groups_summary (report : Report) :
    Row.groups (.summaryHeader :: (report.summaryBody true ++ [.footer])) = ([], []) := by
  unfold summaryBody
  cases report.unidentified? <;> rfl

/-- The categories are read back with their directories. -/
theorem groups_rows (report : Report) :
    (Row.groups (report.rows true)).2 =
      report.categories.map fun c => (c, report.totalsOf c, report.directoriesOf c) := by
  rw [rows_eq, Row.groups, bodyRows, groups_flatMap report _ (groups_summary report)]
  all_goals simp

/-! ## What the groups determine -/

/-- The totals of a category that has files. -/
def counted? (report : Report) (category : String) : Option Totals :=
  if category ∈ report.files.keys then some (report.totalsOf category) else none

/-- The row of files without a category counts the category `unknown`. -/
theorem unidentified?_eq_counted? (report : Report) :
    report.unidentified? = report.counted? unknown := by
  rw [unidentified?, counted?]
  simp only [SortedMap.contains_iff]

/-- Any other category is counted in a row of its own. -/
theorem counted?_of_ne (report : Report) {category : String} (h : category ≠ unknown) :
    report.counted? category =
      if category ∈ report.categories then some (report.totalsOf category) else none := by
  have hmem : category ∈ report.categories ↔ category ∈ report.files.keys := by
    rw [categories, List.mem_filter, decide_eq_true_iff, and_iff_left h]
  rw [counted?]
  simp only [hmem]

/-- The files of a category are those that are counted for it. -/
theorem get?_files_eq_counted? (report : Report) (category : String) :
    report.files.get? category = (report.counted? category).map Totals.files := by
  rw [counted?]
  split
  case isTrue hfiles =>
    obtain ⟨n, hn⟩ := SortedMap.mem_keys_iff.1 hfiles
    simp [totalsOf, hn]
  case isFalse hfiles => exact SortedMap.get?_eq_none_iff.2 hfiles

/-- Lines are those of categories that have files. -/
theorem Coherent.lines_eq_counted? {report : Report} (h : report.Coherent) (category : String) :
    (report.lines.get? category).getD 0 =
      ((report.counted? category).map Totals.lines).getD 0 := by
  rw [counted?]
  split
  case isTrue => rfl
  case isFalse hfiles =>
    rw [SortedMap.get?_eq_none_iff.2 fun hlines => hfiles (h.lines_subset hlines)]
    rfl

/-- Directories are those of categories. -/
theorem Coherent.directoriesOf_eq_nil {report : Report} (h : report.Coherent) {category : String}
    (hcategory : category ∉ report.categories) : report.directoriesOf category = [] := by
  have hplaces : category ∉ report.locations.keys := by
    intro hmem
    have hknown : category ≠ unknown := fun heq => h.unknown_notMem (heq ▸ hmem)
    exact hcategory (List.mem_filter.2 ⟨h.locations_subset hmem, decide_eq_true hknown⟩)
  rw [directoriesOf, SortedMap.get?_eq_none_iff.2 hplaces]

/-- A category has directories exactly if there are rows of them. -/
theorem Coherent.get?_locations_eq_some_iff {report : Report} (h : report.Coherent)
    {category : String} {places : SortedMap Count} :
    report.locations.get? category = some places ↔
      places.entries ≠ [] ∧ report.directoriesOf category = places.entries := by
  rw [directoriesOf]
  cases hplaces : report.locations.get? category with
  | none => simp
  | some found =>
    -- A table of directories is not empty, so it has rows.
    have hkeys : found.keys ≠ [] := h.ne_nil found (SortedMap.mem_values_iff.2 ⟨_, hplaces⟩)
    have hne : found.entries ≠ [] := fun heq => hkeys (congrArg _ heq)
    constructor
    · rintro ⟨⟩
      exact ⟨hne, rfl⟩
    · rintro ⟨-, heq⟩
      obtain ⟨entries, hsorted⟩ := places
      subst heq
      rfl

section SameRows

variable {report report' : Report} (hrows : report.rows true = report'.rows true)

include hrows

/-- The rows determine the categories. -/
theorem categories_eq_of_rows : report.categories = report'.categories := by
  have hgroups := congrArg (fun rows => (Row.groups rows).2.map (·.1)) hrows
  simpa [groups_rows, Function.comp_def] using hgroups

/-- The rows determine the numbers of a category and its directories. -/
theorem group_eq_of_rows {category : String} (h : category ∈ report.categories) :
    report.totalsOf category = report'.totalsOf category ∧
      report.directoriesOf category = report'.directoriesOf category := by
  have hgroups := congrArg (fun rows => (Row.groups rows).2) hrows
  simp only [groups_rows, ← categories_eq_of_rows hrows] at hgroups
  have hgroup := List.map_inj_left.1 hgroups category h
  exact ⟨congrArg (·.2.1) hgroup, congrArg (·.2.2) hgroup⟩

/-- The rows determine what is counted for each category, `unknown` among them. -/
theorem counted?_eq_of_rows (category : String) :
    report.counted? category = report'.counted? category := by
  by_cases hunknown : category = unknown
  -- The files that are `unknown` are in the summary, all others in the groups.
  · subst hunknown
    have hshown : report.shown true .unidentified = report'.shown true .unidentified := by
      rw [shown, shown, hrows]
    rw [shown_eq, shown_eq] at hshown
    rw [← unidentified?_eq_counted?, ← unidentified?_eq_counted?]
    simpa using congrArg List.head? hshown
  · rw [counted?_of_ne _ hunknown, counted?_of_ne _ hunknown, ← categories_eq_of_rows hrows]
    split
    · rename_i hmem
      rw [(group_eq_of_rows hrows hmem).1]
    · rfl

/-- The rows determine the tally, which is the one row about directories in the summary. -/
theorem tally_eq_of_rows : report.tally = report'.tally := by
  -- The tally is in the last row but one.
  have hlast := congrArg (fun rows => rows.reverse[1]?) hrows
  simpa [rows, summaryRows] using hlast

/-- The rows determine the files. -/
theorem files_eq_of_rows : report.files = report'.files := by
  refine SortedMap.ext_get? fun category => ?_
  rw [get?_files_eq_counted?, get?_files_eq_counted?, counted?_eq_of_rows hrows]

/-- The rows of coherent reports determine the locations. -/
theorem Coherent.locations_eq_of_rows (h : report.Coherent) (h' : report'.Coherent) :
    report.locations = report'.locations := by
  have hdirectories : ∀ c, report.directoriesOf c = report'.directoriesOf c := by
    intro c
    by_cases hc : c ∈ report.categories
    · exact (group_eq_of_rows hrows hc).2
    · have hc' : c ∉ report'.categories := categories_eq_of_rows hrows ▸ hc
      rw [h.directoriesOf_eq_nil hc, h'.directoriesOf_eq_nil hc']
  refine SortedMap.ext_get? fun c => Option.ext fun places => ?_
  rw [h.get?_locations_eq_some_iff, h'.get?_locations_eq_some_iff, hdirectories]

end SameRows

/-- The layout of a report. With directories the rows are a header, each category but `unknown`
in the order of the bytes with its directories in that order behind it, the summary, and nothing
else; without the rows about directories they are those of the report without directories. A survey
makes coherent reports, and of these the rows lose nothing: two that have the same rows have the
same files, the same directories and the same tally, and each category has the same lines, where no
lines are zero lines. -/
theorem rows_layout (report : Report) :
    (∃ names directories, report.IsLayout names directories (report.rows true)) ∧
      (report.rows true).filter (!·.isPlace) = report.rows false ∧
      (∀ fs options classifier root,
        Survey.scan fs options classifier root = .ok report → report.Coherent) ∧
      ∀ report' : Report, report.Coherent → report'.Coherent →
        report.rows true = report'.rows true →
        report.files = report'.files ∧
          report.locations = report'.locations ∧
          report.tally = report'.tally ∧
          ∀ c, (report.lines.get? c).getD 0 = (report'.lines.get? c).getD 0 := by
  refine ⟨⟨_, _, isLayout_rows report⟩, filter_rows report, ?survey, ?lossless⟩
  case survey =>
    intro fs options classifier root h
    exact coherent_of_scan h
  case lossless =>
    intro report' h h' hrows
    refine ⟨files_eq_of_rows hrows, h.locations_eq_of_rows hrows h', tally_eq_of_rows hrows, ?_⟩
    intro c
    rw [h.lines_eq_counted?, h'.lines_eq_counted?, counted?_eq_of_rows hrows]

/-- A report of one empty file in C, whose lines are counted. -/
def emptyFile : Report :=
  { empty with
    files := .ofList [("C", 1)]
    lines := .ofList [("C", 0)]
    locations := .ofList [("C", .ofList [(".", 1)])]
    tally := 1 }

/-- That the lines of the file are counted is the one thing that its rows do not show. A survey
makes coherent reports too. -/
theorem rows_layout_emptyFile :
    emptyFile.Coherent ∧ { emptyFile with lines := .empty }.Coherent ∧
      emptyFile.rows true = { emptyFile with lines := .empty }.rows true ∧
      emptyFile.lines ≠ .empty ∧
      (∀ c, (emptyFile.lines.get? c).getD 0 = 0) ∧
      ∃ report, Survey.scan ⟨Survey.lockedTree, []⟩ ⟨[], none, .empty⟩ .builtin ⟨[Path.slash]⟩ =
          .ok report ∧ report.Coherent := by
  have hcoherent : emptyFile.Coherent := by
    constructor <;> decide
  have huncounted : { emptyFile with lines := .empty }.Coherent :=
    { hcoherent with lines_subset := List.nil_subset _ }
  have hrows : emptyFile.rows true = { emptyFile with lines := .empty }.rows true := by decide
  obtain ⟨-, -, -, hlossless⟩ := rows_layout emptyFile
  obtain ⟨-, -, -, hlines⟩ := hlossless _ hcoherent huncounted hrows
  obtain ⟨report, hreport⟩ := Survey.exists_scan_lockedTree
  obtain ⟨-, -, hsurvey, -⟩ := rows_layout report
  exact ⟨hcoherent, huncounted, hrows, by decide, hlines, report, hreport, hsurvey _ _ _ _ hreport⟩

end Report

end SourceSurvey
