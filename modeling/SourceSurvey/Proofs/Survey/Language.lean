import SourceSurvey.Proofs.Survey.Accounting
import SourceSurvey.Report.Row

/-!
# A survey of one language

A survey may be asked for one language. Its report is then the report of the whole survey restricted
to that key (`Report.restrict`), with a tally of its own: the files of the language that are shown
in a directory. The rows of the language are the same in both reports, and the report of the whole
survey is put together from those of its categories.

What the language changes is which files are counted (`countedFiles_withLanguage`). A report is read
off the counted files, so nothing has to be said about the walk.

The main statement is `Survey.scan_withLanguage`.
-/

set_option autoImplicit false

namespace SourceSurvey

/-! ## Restricting a report to a key -/

namespace SortedMap

variable {α : Type}

/-- The map with no other key. -/
def restrict (map : SortedMap α) (key : String) : SortedMap α :=
  ⟨map.entries.filter fun e => e.1 = key, map.sorted.filter _⟩

/-- Restricted to a key, a map has that key only. -/
theorem get?_restrict (map : SortedMap α) (key k : String) :
    (map.restrict key).get? k = if k = key then map.get? key else none := by
  ext value
  rw [get?_eq_some_iff]
  by_cases h : k = key
  · subst h
    simp [restrict, get?_eq_some_iff]
  · simp [restrict, h]

theorem keys_restrict (map : SortedMap α) (key : String) :
    (map.restrict key).keys = map.keys.filter fun k => k = key := by
  rw [keys, keys, List.filter_map]
  rfl

/-- A map is the union of its restrictions. -/
theorem get?_eq_some_iff_restrict {map : SortedMap α} {keys : List String} (h : map.keys ⊆ keys)
    {k : String} {value : α} :
    map.get? k = some value ↔ ∃ key ∈ keys, (map.restrict key).get? k = some value := by
  simp only [get?_restrict]
  constructor
  · intro hvalue
    exact ⟨k, h (mem_keys_iff.2 ⟨value, hvalue⟩), by rw [if_pos rfl, hvalue]⟩
  · rintro ⟨key, -, hvalue⟩
    by_cases hk : k = key
    · rwa [if_pos hk, ← hk] at hvalue
    · rw [if_neg hk] at hvalue
      cases hvalue

end SortedMap

namespace Report

/-- A category without directories has no files placed. -/
theorem placed_eq_zero {report : Report} {category : String}
    (hkey : category ∉ report.locations.keys) : report.placed category = 0 := by
  rw [placed, SortedMap.get?_eq_none_iff.2 hkey]
  rfl

variable (report : Report) (language : String)

/-- What a report says of one language. -/
def restrict : Report where
  files := report.files.restrict language
  lines := report.lines.restrict language
  locations := report.locations.restrict language
  tally := Count.ofNat (report.placed language)

/-- Restricted to a language, a report has the directories of that language only. -/
theorem placeOf?_restrict (c d : String) :
    (report.restrict language).placeOf? c d =
      if c = language then report.placeOf? c d else none := by
  rw [placeOf?, restrict, SortedMap.get?_restrict]
  by_cases h : c = language
  · rw [if_pos h, if_pos h, placeOf?, h]
  · rw [if_neg h, if_neg h]
    rfl

/-- Restricted to a language, a report has that category at most. -/
theorem categories_restrict :
    (report.restrict language).categories = report.categories.filter fun c => c = language := by
  rw [categories, categories, restrict, SortedMap.keys_restrict]
  exact List.filter_comm _ _ _

/-- The numbers of the language stay. -/
theorem totalsOf_restrict :
    (report.restrict language).totalsOf language = report.totalsOf language := by
  simp only [totalsOf, restrict, SortedMap.get?_restrict, if_pos]

/-- The rows of the language stay. -/
theorem categoryRows_restrict (showLocations : Bool) :
    (report.restrict language).categoryRows showLocations language =
      report.categoryRows showLocations language := by
  have hrows : (report.restrict language).locationRows language = report.locationRows language := by
    simp only [locationRows, restrict, SortedMap.get?_restrict, if_pos]
  rw [categoryRows, categoryRows, totalsOf_restrict, hrows]

/-- The rows of the categories are those of the language. -/
theorem rows_restrict (showLocations : Bool) :
    (report.restrict language).rows showLocations =
      [.header] ++
      (report.categories.filter fun c => c = language).flatMap
        (report.categoryRows showLocations) ++
      (report.restrict language).summaryRows showLocations := by
  have hrows : ∀ c ∈ report.categories.filter fun c => c = language,
      (report.restrict language).categoryRows showLocations c =
        report.categoryRows showLocations c := by
    intro c hc
    obtain rfl : c = language := by simpa using (List.mem_filter.1 hc).2
    exact report.categoryRows_restrict c showLocations
  rw [rows, categories_restrict, List.flatMap_congr hrows]

theorem contains_files_restrict (c : String) :
    (report.restrict language).files.contains c =
      (decide (c = language) && report.files.contains c) := by
  rw [SortedMap.contains, restrict, SortedMap.get?_restrict]
  by_cases h : c = language
  · simp [h, SortedMap.contains]
  · simp [h]

/-- Files without a category are left only if they are asked for. -/
theorem unidentified?_restrict :
    (report.restrict language).unidentified? =
      if language = unknown then report.unidentified? else none := by
  rw [unidentified?, contains_files_restrict]
  by_cases h : language = unknown
  · subst h
    rw [totalsOf_restrict]
    simp [unidentified?]
  · simp [h, Ne.symm h]

end Report

/-! ## The files of a language -/

/-- The same survey, of one language. -/
def SurveyOptions.withLanguage (options : SurveyOptions) (language : String) : SurveyOptions :=
  { options with language := some language }

namespace Survey

section Language

variable {fs : FileSystem} {options : SurveyOptions} {classifier : Classifier} {root : Path}
variable {language : String} {report : Report}

/-- A survey of a language counts the files of the whole survey that are of that language. -/
theorem countedFiles_withLanguage (hall : options.language = none) :
    countedFiles fs (options.withLanguage language) classifier root =
      {e ∈ countedFiles fs options classifier root | categoryOf classifier root e = language} := by
  rw [countedFiles, countedFiles, Finset.filter_filter]
  apply Finset.filter_congr
  intro e _
  constructor
  · rintro ⟨hreached, hfile, hignored, hwanted⟩
    refine ⟨⟨hreached, hfile, hignored, .inl hall⟩, ?_⟩
    rcases hwanted with hnone | hsome
    · cases hnone
    · exact (Option.some.inj hsome).symm
  · rintro ⟨⟨hreached, hfile, hignored, -⟩, hlanguage⟩
    exact ⟨hreached, hfile, hignored, .inr (congrArg some hlanguage.symm)⟩

/-- A survey of a language opens the files of the whole survey that are of that language. -/
theorem openedFiles_withLanguage (hall : options.language = none) :
    openedFiles fs (options.withLanguage language) classifier root =
      {e ∈ openedFiles fs options classifier root | categoryOf classifier root e = language} := by
  rw [openedFiles, openedFiles, countedFiles_withLanguage hall]
  exact Finset.filter_comm _ _ _

/-- The files of one language are of no other. -/
theorem filter_categoryOf (files : Finset (List Name × Kind)) (c : String) :
    {e ∈ {e ∈ files | categoryOf classifier root e = language} |
        categoryOf classifier root e = c} =
      if c = language then {e ∈ files | categoryOf classifier root e = language} else ∅ := by
  by_cases h : c = language
  · rw [if_pos h, h]
    exact Finset.filter_true_of_mem fun e he => (Finset.mem_filter.1 he).2
  · rw [if_neg h]
    refine Finset.filter_false_of_mem fun e he hc => h ?_
    rw [← hc, (Finset.mem_filter.1 he).2]

/-! ## The report of a language -/

section Scan

variable (hfs : fs.root.WellFormed) (h : scan fs options classifier root = .ok report)

include hfs h

/-- With few enough files the tally of a language is the number of its placed files. -/
theorem toNat_tally_restrict
    (hfew : (countedFiles fs options classifier root).card < UInt64.size) :
    (report.restrict language).tally.toNat = report.placed language := by
  have hle : report.placed language ≤ Count.limit := by
    by_cases hknown : language = unknown
    · rw [hknown, placed_unknown hfs h]
      exact Nat.zero_le _
    · rw [placed_scan hfs h hfew hknown]
      exact card_le_limit hfew ((Finset.filter_subset
        (fun e => categoryOf classifier root e = language) _).trans openedFiles_subset)
  rw [Report.restrict, Count.toNat_ofNat, Nat.min_eq_left hle]

/-- A survey of one language says what the whole survey says of it. -/
theorem scan_eq_restrict (hall : options.language = none)
    (hfew : (countedFiles fs options classifier root).card < UInt64.size) :
    scan fs (options.withLanguage language) classifier root = .ok (report.restrict language) := by
  have hok : ∃ report', scan fs (options.withLanguage language) classifier root = .ok report' :=
    scan_isOk_iff.2 (scan_isOk_iff.1 ⟨report, h⟩)
  obtain ⟨report', h'⟩ := hok
  rw [h']
  -- Two reports are equal if all look-ups are, so each map is compared key by key: at the key of
  -- the language both count the same files, at another one neither counts any.
  refine congrArg Except.ok (Report.ext_lookups ?files ?lines ?keys ?places ?tally)
  case files =>
    intro c
    rw [get?_files_scan hfs h', countedFiles_withLanguage hall, filter_categoryOf, Report.restrict,
      SortedMap.get?_restrict, get?_files_scan hfs h]
    by_cases hc : c = language
    · rw [if_pos hc, if_pos hc]
    · rw [if_neg hc, if_neg hc, if_pos rfl]
  case lines =>
    intro c
    rw [get?_lines_scan hfs h', openedFiles_withLanguage hall, filter_categoryOf, Report.restrict,
      SortedMap.get?_restrict, get?_lines_scan hfs h]
    by_cases hc : c = language
    · rw [if_pos hc, if_pos hc]
    · rw [if_neg hc, if_neg hc, if_pos rfl]
  case keys =>
    intro c
    rw [Bool.eq_iff_iff, isSome_locations_scan hfs h', openedFiles_withLanguage hall,
      filter_categoryOf, Report.restrict, SortedMap.get?_restrict]
    by_cases hc : c = language
    · rw [if_pos hc, if_pos hc, isSome_locations_scan hfs h, hc]
    · simp [hc]
  case places =>
    intro c d
    rw [Report.placeOf?_restrict]
    by_cases hknown : c = unknown
    -- The category `unknown` has no directories in either report.
    · rw [hknown, Report.placeOf?, Report.placeOf?, get?_locations_unknown hfs h',
        get?_locations_unknown hfs h]
      simp
    · rw [placeOf?_scan hfs h' hknown, openedFiles_withLanguage hall, ← Finset.filter_filter,
        filter_categoryOf]
      by_cases hc : c = language
      · rw [if_pos hc, if_pos hc, placeOf?_scan hfs h hknown, Finset.filter_filter, hc]
      · rw [if_neg hc, if_neg hc, Finset.filter_empty, if_pos rfl]
  case tally =>
    rw [tally_scan hfs h', openedFiles_withLanguage hall, Report.restrict]
    apply congrArg Count.ofNat
    by_cases hknown : language = unknown
    · rw [hknown, placed_unknown hfs h, Finset.card_eq_zero]
      exact Finset.filter_false_of_mem fun e he hne => hne (Finset.mem_filter.1 he).2
    · rw [placed_scan hfs h hfew hknown]
      apply congrArg Finset.card
      refine Finset.filter_true_of_mem fun e he => ?_
      rw [(Finset.mem_filter.1 he).2]
      exact hknown

theorem keys_locations_subset : report.locations.keys ⊆ report.files.keys := by
  intro c hc
  obtain ⟨hlines, -⟩ := (mem_keys_locations_iff hfs h).1 hc
  exact keys_lines_subset hfs h hlines

/-- The tally is what the categories contribute to it. -/
theorem tally_eq_sum (hfew : (countedFiles fs options classifier root).card < UInt64.size) :
    report.tally.toNat = (report.files.keys.map report.placed).sum := by
  -- Every category with a directory is one with files, so the sum may run over all of these.
  have hsubset : report.locations.keys.toFinset ⊆ report.files.keys.toFinset := by
    intro c hc
    exact List.mem_toFinset.2 (keys_locations_subset hfs h (List.mem_toFinset.1 hc))
  rw [tally_eq_total hfs h hfew, SortedMap.sum_values,
    ← List.sum_toFinset report.placed report.files.nodup_keys]
  refine Finset.sum_subset hsubset fun c _ hc => ?_
  -- A category without directories adds nothing.
  cases hvalue : report.locations.get? c with
  | none => rfl
  | some directories =>
    exact absurd (List.mem_toFinset.2 (SortedMap.mem_keys_iff.2 ⟨_, hvalue⟩)) hc

end Scan

end Language

/-- A survey of one language is a restriction of the whole survey. It succeeds whenever the
whole survey does, whatever the language, and its report is that of the whole survey with no other
key in any map; its tally is the number of files of the language that are shown in a directory, and
so there are none if the language has no directories. The rows of the language are in both reports,
or in neither. The maps of the whole survey are the unions of those of its categories, and its tally
is the sum of theirs. -/
theorem scan_withLanguage {fs : FileSystem} {options : SurveyOptions} {classifier : Classifier}
    {root : Path} {report : Report} (hfs : fs.root.WellFormed) (hall : options.language = none)
    (hfew : (countedFiles fs options classifier root).card < UInt64.size)
    (h : scan fs options classifier root = .ok report) :
    (∀ language,
      scan fs (options.withLanguage language) classifier root = .ok (report.restrict language) ∧
      (report.restrict language).tally.toNat = report.placed language ∧
      (language = unknown ∨ language ∉ report.locations.keys →
        (report.restrict language).tally.toNat = 0) ∧
      (∀ showLocations, (report.restrict language).rows showLocations =
        [.header] ++
        (report.categories.filter fun c => c = language).flatMap
          (report.categoryRows showLocations) ++
        (report.restrict language).summaryRows showLocations) ∧
      (report.restrict language).unidentified? =
        if language = unknown then report.unidentified? else none) ∧
    (∀ c n, report.files.get? c = some n ↔
      ∃ language ∈ report.files.keys, (report.restrict language).files.get? c = some n) ∧
    (∀ c n, report.lines.get? c = some n ↔
      ∃ language ∈ report.files.keys, (report.restrict language).lines.get? c = some n) ∧
    (∀ c directories, report.locations.get? c = some directories ↔
      ∃ language ∈ report.files.keys,
        (report.restrict language).locations.get? c = some directories) ∧
    report.tally.toNat =
      (report.files.keys.map fun language => (report.restrict language).tally.toNat).sum := by
  have htally : ∀ language, (report.restrict language).tally.toNat = report.placed language :=
    fun _ => toNat_tally_restrict hfs h hfew
  refine ⟨fun language => ⟨scan_eq_restrict hfs h hall hfew, htally language, ?_,
    report.rows_restrict language, report.unidentified?_restrict language⟩,
    ?files, ?lines, ?locations, ?tally⟩
  · rintro (rfl | hkey)
    · rw [htally, placed_unknown hfs h]
    · rw [htally, Report.placed_eq_zero hkey]
  -- Each of the three maps has no keys but those of the files, so it is the union of its
  -- restrictions to them.
  case files =>
    exact fun _ _ => SortedMap.get?_eq_some_iff_restrict (List.Subset.refl _)
  case lines =>
    exact fun _ _ => SortedMap.get?_eq_some_iff_restrict (keys_lines_subset hfs h)
  case locations =>
    exact fun _ _ => SortedMap.get?_eq_some_iff_restrict (keys_locations_subset hfs h)
  case tally =>
    simp only [htally]
    exact tally_eq_sum hfs h hfew

/-- In the sample the file that can be opened is the only one of its language in a directory, and
the file of no category is in none. -/
theorem scan_withLanguage_lockedTree :
    lockedTree.WellFormed ∧ (SurveyOptions.mk [] none .empty).language = none ∧
      (countedFiles ⟨lockedTree, []⟩ ⟨[], none, .empty⟩ .builtin ⟨[Path.slash]⟩).card <
        UInt64.size ∧
      ∃ report, scan ⟨lockedTree, []⟩ ⟨[], none, .empty⟩ .builtin ⟨[Path.slash]⟩ = .ok report ∧
        scan ⟨lockedTree, []⟩ ⟨[], some "C", .empty⟩ .builtin ⟨[Path.slash]⟩ =
          .ok (report.restrict "C") ∧
        (report.restrict "C").tally.toNat = 1 ∧ (report.restrict unknown).tally.toNat = 0 := by
  obtain ⟨report, hreport⟩ := exists_scan_lockedTree
  obtain ⟨hlanguage, -⟩ := scan_withLanguage wellFormed_lockedTree rfl few_lockedTree hreport
  obtain ⟨hscan, htally, -⟩ := hlanguage "C"
  obtain ⟨-, -, hunknown, -⟩ := hlanguage unknown
  refine ⟨wellFormed_lockedTree, rfl, few_lockedTree, report, hreport, hscan, ?_,
    hunknown (.inl rfl)⟩
  rw [htally, placed_scan wellFormed_lockedTree hreport few_lockedTree (by decide)]
  cbv

end Survey

end SourceSurvey
