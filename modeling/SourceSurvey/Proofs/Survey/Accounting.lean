import SourceSurvey.Proofs.Survey.Tabulation

/-!
# The accounts of a survey

A report keeps four accounts: files, lines, files by directory, and a tally of the files with a
directory. This module says how they hang together in the report of a survey (`Survey.Balanced`).
The maps of files and of directories each count a set of files by a key of theirs
(`SortedMap.Tabulates`), so the counters of a map add up to the number of the files
(`SortedMap.Tabulates.total_eq`). What is missing from the directories of a category are the files
that cannot be opened.

The main statement is `Survey.balanced_scan`.
-/

set_option autoImplicit false

namespace SourceSurvey

/-! ## Maps that count -/

namespace SortedMap

/-- Adding something up over the values of a map is adding it up over its keys. -/
theorem sum_values {α : Type} (map : SortedMap α) (f : α → Nat) :
    (map.values.map f).sum = ∑ key ∈ map.keys.toFinset, ((map.get? key).map f).getD 0 := by
  rw [List.sum_toFinset _ map.nodup_keys, values, keys, List.map_map, List.map_map]
  apply congrArg List.sum
  apply List.map_congr_left
  intro e he
  have hvalue : map.get? e.1 = some e.2 := get?_eq_some_iff.2 he
  simp [hvalue]

/-- What the counters of a map add up to. -/
def total (map : SortedMap Count) : Nat := (map.values.map Count.toNat).sum

/-- `map.Tabulates files key`: the map gives for each key how many of `files` have it, and has no
other keys. -/
def Tabulates {α : Type} [DecidableEq α] (map : SortedMap Count) (files : Finset α)
    (key : α → String) : Prop :=
  ∀ k, map.get? k =
    if {e ∈ files | key e = k} = ∅ then none else some (Count.ofNat {e ∈ files | key e = k}.card)

namespace Tabulates

variable {α : Type} [DecidableEq α] {map : SortedMap Count} {files : Finset α} {key : α → String}

theorem mem_keys_iff (h : map.Tabulates files key) {k : String} :
    k ∈ map.keys ↔ {e ∈ files | key e = k}.Nonempty := by
  rw [SortedMap.mem_keys_iff, h k, Finset.nonempty_iff_ne_empty]
  by_cases hempty : {e ∈ files | key e = k} = ∅
  · simp [hempty]
  · simp [hempty]

theorem toFinset_keys (h : map.Tabulates files key) : map.keys.toFinset = files.image key := by
  ext k
  rw [List.mem_toFinset, h.mem_keys_iff, Finset.mem_image]
  simp only [Finset.Nonempty, Finset.mem_filter]

/-- Every counter has counted something. -/
theorem one_le (h : map.Tabulates files key) {n : Count} (hn : n ∈ map.values) : 1 ≤ n.toNat := by
  obtain ⟨k, hk⟩ := mem_values_iff.1 hn
  rw [h k] at hk
  by_cases hempty : {e ∈ files | key e = k} = ∅
  · rw [if_pos hempty] at hk
    cases hk
  · rw [if_neg hempty] at hk
    have hcard : 1 ≤ {e ∈ files | key e = k}.card :=
      Finset.card_pos.2 (Finset.nonempty_iff_ne_empty.2 hempty)
    have hlimit : 1 ≤ Count.limit := by decide
    rw [← Option.some.inj hk, Count.toNat_ofNat]
    omega

/-- The counter of a key. -/
theorem toNat_getD (h : map.Tabulates files key) (hfew : files.card ≤ Count.limit) (k : String) :
    ((map.get? k).getD 0).toNat = {e ∈ files | key e = k}.card := by
  have hle : {e ∈ files | key e = k}.card ≤ files.card := Finset.card_filter_le _ _
  rw [h k]
  split
  · rename_i hempty
    rw [hempty]
    rfl
  · rw [Option.getD_some, Count.toNat_ofNat]
    omega

/-- The counters add up to the number of the files. -/
theorem total_eq (h : map.Tabulates files key) (hfew : files.card ≤ Count.limit) :
    map.total = files.card := by
  rw [total, sum_values, h.toFinset_keys, Finset.card_eq_sum_card_image key files]
  apply Finset.sum_congr rfl
  intro k _
  have hcounter := h.toNat_getD hfew k
  rw [← hcounter]
  cases map.get? k <;> rfl

/-- The values of a map are the sizes of the classes that its keys make. -/
theorem coe_values (h : map.Tabulates files key) :
    (map.values : Multiset Count) =
      (files.image fun e => {e' ∈ files | key e' = key e}).val.map fun s => Count.ofNat s.card := by
  -- The values are the sizes of the classes, key by key; what is left to show is that each class
  -- comes from one key.
  have hkeys : (map.keys : Multiset String) = (files.image key).val := by
    rw [← h.toFinset_keys, List.toFinset_val, map.nodup_keys.dedup]
  have hvalues : (map.values : Multiset Count) =
      (map.keys : Multiset String).map fun k => Count.ofNat {e ∈ files | key e = k}.card := by
    rw [Multiset.map_coe, values, keys, List.map_map]
    refine congrArg _ (List.map_congr_left ?_)
    intro e he
    have hvalue := get?_eq_some_iff.2 he
    rw [h e.1] at hvalue
    split at hvalue
    · cases hvalue
    · exact (Option.some.inj hvalue).symm
  have hclasses : (files.image fun e => {e' ∈ files | key e' = key e}) =
      (files.image key).image fun k => {e ∈ files | key e = k} := by
    rw [Finset.image_image]
    rfl
  -- A class is that of one key only, since it is not empty.
  have hinj : Set.InjOn (fun k => {e ∈ files | key e = k}) (files.image key : Finset String) := by
    intro k hk k' _ heq
    obtain ⟨e, he, rfl⟩ := Finset.mem_image.1 hk
    have hmem : e ∈ {e' ∈ files | key e' = k'} := by
      refine Finset.ext_iff.1 heq e |>.1 ?_
      exact Finset.mem_filter.2 ⟨he, rfl⟩
    exact (Finset.mem_filter.1 hmem).2
  rw [hvalues, hkeys, hclasses, Finset.image_val_of_injOn hinj, Multiset.map_map]
  rfl

/-- Keys that tell the same files apart give the same values. -/
theorem perm_values {map' : SortedMap Count} {key' : α → String} (h : map.Tabulates files key)
    (h' : map'.Tabulates files key')
    (hsame : ∀ e ∈ files, ∀ e' ∈ files, key e = key e' ↔ key' e = key' e') :
    map.values.Perm map'.values := by
  rw [← Multiset.coe_eq_coe, h.coe_values, h'.coe_values]
  refine congrArg (fun classes : Finset (Finset α) => classes.val.map fun s => Count.ofNat s.card) ?_
  refine Finset.image_congr ?_
  intro e he
  exact Finset.filter_congr fun e' he' => hsame e' he' e he

end Tabulates

end SortedMap

/-- The number of files of a category that are shown in a directory. -/
def Report.placed (report : Report) (category : String) : Nat :=
  ((report.locations.get? category).map SortedMap.total).getD 0

namespace Survey

/-! ## What a survey tabulates -/

section Balance

variable (fs : FileSystem) (options : SurveyOptions) (classifier : Classifier) (root : Path)

/-- The files that a survey counts and that cannot be opened. -/
def unopenedFiles : Finset (List Name × Kind) :=
  {e ∈ countedFiles fs options classifier root |
    (fs.openForReading (root.descend e.1)).isOk = false}

variable {fs options classifier root} {report : Report}

theorem openedFiles_subset :
    openedFiles fs options classifier root ⊆ countedFiles fs options classifier root :=
  Finset.filter_subset _ _

/-- With fewer than `2 ^ 64` files no counter of files reaches its greatest value early. -/
theorem card_le_limit (hfew : (countedFiles fs options classifier root).card < UInt64.size)
    {files : Finset (List Name × Kind)} (h : files ⊆ countedFiles fs options classifier root) :
    files.card ≤ Count.limit := by
  have hcard := Finset.card_le_card h
  unfold Count.limit
  omega

/-- Whatever can be opened has lines, be it that it cannot be read. -/
theorem isSome_linesOf? (e : List Name × Kind) :
    (linesOf? fs root e).isSome = (fs.openForReading (root.descend e.1)).isOk := by
  unfold linesOf? countFile
  cases fs.openForReading (root.descend e.1) with
  | error cause => rfl
  | ok opened =>
    dsimp only
    cases opened.read with
    | error cause => rfl
    | ok bytes =>
      dsimp only [LineCount.ofBytes]
      cases Utf8.decode? bytes with
      | none => rfl
      | some text => rfl

/-- The files of a category are those that can be opened and those that cannot. -/
theorem card_openedFiles_add (c : String) :
    {e ∈ openedFiles fs options classifier root | categoryOf classifier root e = c}.card +
        {e ∈ unopenedFiles fs options classifier root | categoryOf classifier root e = c}.card =
      {e ∈ countedFiles fs options classifier root | categoryOf classifier root e = c}.card := by
  have hopened : {e ∈ openedFiles fs options classifier root | categoryOf classifier root e = c} =
      {e ∈ {e ∈ countedFiles fs options classifier root | categoryOf classifier root e = c} |
        (linesOf? fs root e).isSome = true} :=
    Finset.filter_comm _ _ _
  have hunopened :
      {e ∈ unopenedFiles fs options classifier root | categoryOf classifier root e = c} =
        {e ∈ {e ∈ countedFiles fs options classifier root | categoryOf classifier root e = c} |
          ¬ (linesOf? fs root e).isSome = true} := by
    simp only [isSome_linesOf?, Bool.not_eq_true]
    exact Finset.filter_comm _ _ _
  rw [hopened, hunopened]
  exact Finset.card_filter_add_card_filter_not _

section Tables

variable (hfs : fs.root.WellFormed) (h : scan fs options classifier root = .ok report)

include hfs h

/-- A survey tabulates the files that it counts by their category. -/
theorem tabulates_files :
    report.files.Tabulates (countedFiles fs options classifier root) (categoryOf classifier root) :=
  get?_files_scan hfs h

/-- For each category a survey tabulates the files that it opens by their directory. -/
theorem tabulates_directories {c : String} {directories : SortedMap Count}
    (hdirectories : report.locations.get? c = some directories) :
    directories.Tabulates
      {e ∈ openedFiles fs options classifier root | categoryOf classifier root e = c}
      (directoryOf root) := by
  intro d
  have hc : c ≠ unknown := ((isSome_locations_scan hfs h c).1 (by rw [hdirectories]; rfl)).1
  have hplace := placeOf?_scan hfs h hc d
  rw [Report.placeOf?, hdirectories, Option.bind_some] at hplace
  rw [hplace, Finset.filter_filter]

/-- The category `unknown` has no directories. -/
theorem get?_locations_unknown : report.locations.get? unknown = none := by
  rw [← Option.not_isSome_iff_eq_none, isSome_locations_scan hfs h]
  exact fun hunknown => hunknown.1 rfl

/-- The files of a category that are shown in a directory are those that can be opened. -/
theorem placed_scan (hfew : (countedFiles fs options classifier root).card < UInt64.size)
    {c : String} (hc : c ≠ unknown) :
    report.placed c =
      {e ∈ openedFiles fs options classifier root | categoryOf classifier root e = c}.card := by
  unfold Report.placed
  cases hdirectories : report.locations.get? c with
  | none =>
    have hnone : ¬ {e ∈ openedFiles fs options classifier root |
        categoryOf classifier root e = c}.Nonempty := by
      intro hsome
      have hkey := (isSome_locations_scan hfs h c).2 ⟨hc, hsome⟩
      rw [hdirectories] at hkey
      cases hkey
    rw [Finset.not_nonempty_iff_eq_empty.1 hnone]
    rfl
  | some directories =>
    have hle := card_le_limit hfew ((Finset.filter_subset
      (fun e => categoryOf classifier root e = c) _).trans openedFiles_subset)
    exact (tabulates_directories hfs h hdirectories).total_eq hle

theorem placed_unknown : report.placed unknown = 0 := by
  rw [Report.placed, get?_locations_unknown hfs h]
  rfl

theorem mem_keys_lines_iff {c : String} : c ∈ report.lines.keys ↔
    {e ∈ openedFiles fs options classifier root | categoryOf classifier root e = c}.Nonempty := by
  rw [SortedMap.mem_keys_iff, get?_lines_scan hfs h c, Finset.nonempty_iff_ne_empty]
  by_cases hempty :
      {e ∈ openedFiles fs options classifier root | categoryOf classifier root e = c} = ∅
  · simp [hempty]
  · simp [hempty]

/-- Directories are kept for the categories that have lines, but for `unknown`. -/
theorem mem_keys_locations_iff {c : String} :
    c ∈ report.locations.keys ↔ c ∈ report.lines.keys ∧ c ≠ unknown := by
  rw [SortedMap.mem_keys_iff, ← Option.isSome_iff_exists, isSome_locations_scan hfs h,
    mem_keys_lines_iff hfs h, and_comm]

/-- The tally is what all counters of directories add up to. -/
theorem tally_eq_total (hfew : (countedFiles fs options classifier root).card < UInt64.size) :
    report.tally.toNat = (report.locations.values.map SortedMap.total).sum := by
  have hle := card_le_limit hfew ((Finset.filter_subset
    (fun e => categoryOf classifier root e ≠ unknown) _).trans openedFiles_subset)
  -- The files that the tally counts are parted by their categories, and each category has its
  -- directories in the report.
  have hmaps : Set.MapsTo (categoryOf classifier root)
      (({e ∈ openedFiles fs options classifier root | categoryOf classifier root e ≠ unknown} :
        Finset (List Name × Kind)) : Set (List Name × Kind))
      report.locations.keys.toFinset := by
    intro e he
    obtain ⟨hopened, hknown⟩ := Finset.mem_filter.1 (Finset.mem_coe.1 he)
    rw [Finset.mem_coe, List.mem_toFinset, mem_keys_locations_iff hfs h, mem_keys_lines_iff hfs h]
    exact ⟨⟨e, Finset.mem_filter.2 ⟨hopened, rfl⟩⟩, hknown⟩
  rw [tally_scan hfs h, Count.toNat_ofNat, Nat.min_eq_left hle, SortedMap.sum_values,
    Finset.card_eq_sum_card_fiberwise hmaps]
  apply Finset.sum_congr rfl
  intro c hc
  have hknown : c ≠ unknown :=
    ((mem_keys_locations_iff hfs h).1 (List.mem_toFinset.1 hc)).2
  -- Among the files of a category other than `unknown` there is none of `unknown`.
  have hfiber : {e ∈ {e ∈ openedFiles fs options classifier root |
      categoryOf classifier root e ≠ unknown} | categoryOf classifier root e = c} =
      {e ∈ openedFiles fs options classifier root | categoryOf classifier root e = c} := by
    rw [Finset.filter_filter]
    apply Finset.filter_congr
    intro e _
    constructor
    · exact fun he => he.2
    · exact fun he => ⟨he ▸ hknown, he⟩
  rw [hfiber, ← placed_scan hfs h hfew hknown]
  rfl

/-- A survey with a language counts no file of another category. -/
theorem eq_language_of_mem {language c : String} (hlanguage : options.language = some language)
    (hc : c ∈ report.files.keys) : c = language := by
  obtain ⟨e, he⟩ := (tabulates_files hfs h).mem_keys_iff.1 hc
  obtain ⟨hcounted, rfl⟩ := Finset.mem_filter.1 he
  rcases (Finset.mem_filter.1 hcounted).2.wanted with hnone | hsome
  · rw [hlanguage] at hnone
    cases hnone
  · rw [hlanguage] at hsome
    exact (Option.some.inj hsome).symm

theorem keys_lines_subset : report.lines.keys ⊆ report.files.keys := by
  intro c hc
  obtain ⟨e, he⟩ := (mem_keys_lines_iff hfs h).1 hc
  exact (tabulates_files hfs h).mem_keys_iff.2
    ⟨e, Finset.filter_subset_filter _ openedFiles_subset he⟩

end Tables

end Balance

/-! ## The accounts of a report -/

/-- How the four accounts of the report of a survey hang together. -/
structure Balanced (fs : FileSystem) (options : SurveyOptions) (classifier : Classifier)
    (root : Path) (report : Report) : Prop where
  /-- Every counter of files has counted something. -/
  one_le_files : ∀ n ∈ report.files.values, 1 ≤ n.toNat
  /-- So has every counter of a directory. -/
  one_le_places : ∀ directories ∈ report.locations.values, ∀ n ∈ directories.values, 1 ≤ n.toNat
  /-- No category is shown without a directory. -/
  places_nonempty : ∀ directories ∈ report.locations.values, directories.keys ≠ []
  /-- Lines are of categories that have files. -/
  lines_subset : ∀ c ∈ report.lines.keys, c ∈ report.files.keys
  /-- Directories are of the categories that have lines, `unknown` left out. -/
  locations_iff : ∀ c, c ∈ report.locations.keys ↔ c ∈ report.lines.keys ∧ c ≠ unknown
  /-- The files of a category that are not shown in a directory are those that cannot be opened. -/
  files_eq : ∀ c, c ≠ unknown → (report.totalsOf c).files.toNat = report.placed c +
    {e ∈ unopenedFiles fs options classifier root | categoryOf classifier root e = c}.card
  /-- A category has no lines exactly when none of its files can be opened. -/
  no_lines_iff : ∀ c, c ≠ unknown → (c ∉ report.lines.keys ↔
    ∀ e ∈ countedFiles fs options classifier root, categoryOf classifier root e = c →
      (fs.openForReading (root.descend e.1)).isOk = false)
  /-- The tally is what all counters of directories add up to. -/
  tally_eq : report.tally.toNat = (report.locations.values.map SortedMap.total).sum
  /-- With a language there is no other key. -/
  only_language : ∀ language, options.language = some language →
    (∀ c ∈ report.files.keys, c = language) ∧ (∀ c ∈ report.lines.keys, c = language) ∧
      ∀ c ∈ report.locations.keys, c = language

/-- The accounts of a survey balance. -/
theorem balanced_scan {fs : FileSystem} {options : SurveyOptions} {classifier : Classifier}
    {root : Path} {report : Report} (hfs : fs.root.WellFormed)
    (hfew : (countedFiles fs options classifier root).card < UInt64.size)
    (h : scan fs options classifier root = .ok report) :
    Balanced fs options classifier root report where
  one_le_files _ hn := (tabulates_files hfs h).one_le hn
  one_le_places directories hdirectories n hn := by
    obtain ⟨c, hc⟩ := SortedMap.mem_values_iff.1 hdirectories
    exact (tabulates_directories hfs h hc).one_le hn
  places_nonempty directories hdirectories := by
    obtain ⟨c, hc⟩ := SortedMap.mem_values_iff.1 hdirectories
    obtain ⟨-, e, he⟩ := (isSome_locations_scan hfs h c).1 (by rw [hc]; rfl)
    have hkey : directoryOf root e ∈ directories.keys :=
      (tabulates_directories hfs h hc).mem_keys_iff.2 ⟨e, Finset.mem_filter.2 ⟨he, rfl⟩⟩
    exact List.ne_nil_of_mem hkey
  lines_subset _ hc := keys_lines_subset hfs h hc
  locations_iff _ := mem_keys_locations_iff hfs h
  files_eq c hc := by
    have hle := card_le_limit hfew (Finset.Subset.refl _)
    rw [placed_scan hfs h hfew hc, card_openedFiles_add]
    exact (tabulates_files hfs h).toNat_getD hle c
  no_lines_iff c _ := by
    rw [mem_keys_lines_iff hfs h, Finset.not_nonempty_iff_eq_empty, Finset.filter_eq_empty_iff]
    constructor
    · intro hnone e he hcategory
      by_contra hopens
      refine hnone (Finset.mem_filter.2 ⟨he, ?_⟩) hcategory
      rw [isSome_linesOf?]
      simpa using hopens
    · intro hnone e he hcategory
      obtain ⟨hcounted, hopened⟩ := Finset.mem_filter.1 he
      rw [isSome_linesOf?, hnone e hcounted hcategory] at hopened
      cases hopened
  tally_eq := tally_eq_total hfs h hfew
  only_language language hlanguage := by
    have hfiles : ∀ c ∈ report.files.keys, c = language :=
      fun c hc => eq_language_of_mem hfs h hlanguage hc
    have hlines : ∀ c ∈ report.lines.keys, c = language :=
      fun c hc => hfiles c (keys_lines_subset hfs h hc)
    exact ⟨hfiles, hlines, fun c hc => hlines c ((mem_keys_locations_iff hfs h).1 hc).1⟩

/-- A tree with a file that can be opened, one that cannot, and one of no category. -/
def lockedTree : Node :=
  .directory
    [(Utf8.ofString "open.c", .file (.data (Utf8.ofString "int a;")) .all),
      (Utf8.ofString "locked.c", .file (.data (Utf8.ofString "int b;")) ⟨false, true, false⟩),
      (Utf8.ofString "notes", .file (.data []) .all)]
    .all

theorem wellFormed_lockedTree : lockedTree.WellFormed := by decide

theorem few_lockedTree :
    (countedFiles ⟨lockedTree, []⟩ ⟨[], none, .empty⟩ .builtin ⟨[Path.slash]⟩).card <
      UInt64.size := by
  have hcard : (countedFiles ⟨lockedTree, []⟩ ⟨[], none, .empty⟩ .builtin
      ⟨[Path.slash]⟩).card = 3 := by cbv
  rw [hcard]
  decide

theorem exists_scan_lockedTree : ∃ report,
    scan ⟨lockedTree, []⟩ ⟨[], none, .empty⟩ .builtin ⟨[Path.slash]⟩ = .ok report :=
  scan_isOk_iff.2 (by cbv)

/-- One of the two files of the tree is missing from the directories. -/
theorem balanced_scan_lockedTree :
    lockedTree.WellFormed ∧
      (countedFiles ⟨lockedTree, []⟩ ⟨[], none, .empty⟩ .builtin ⟨[Path.slash]⟩).card <
        UInt64.size ∧
      ∃ report, scan ⟨lockedTree, []⟩ ⟨[], none, .empty⟩ .builtin ⟨[Path.slash]⟩ = .ok report ∧
        (report.totalsOf "C").files.toNat = report.placed "C" + 1 ∧
        report.tally.toNat = (report.locations.values.map SortedMap.total).sum := by
  obtain ⟨report, hreport⟩ := exists_scan_lockedTree
  have hbalanced := balanced_scan wellFormed_lockedTree few_lockedTree hreport
  refine ⟨wellFormed_lockedTree, few_lockedTree, report, hreport, ?_, hbalanced.tally_eq⟩
  rw [hbalanced.files_eq "C" (by decide)]
  cbv

end Survey

end SourceSurvey
