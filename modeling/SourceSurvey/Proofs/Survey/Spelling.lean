import SourceSurvey.Proofs.FileSystem.Limits
import SourceSurvey.Proofs.ShownDirectory
import SourceSurvey.Proofs.Survey.Accounting

/-!
# How the root is written

A directory has many paths: relative and absolute ones, with slashes and dots that mean nothing,
through links. A survey of a directory by one path or by another comes across the same entries, and
each of them is the same node (`Respelled.stat_eq`), so it reaches the same ones
(`Respelled.reached_iff`), ignores the same ones (`Respelled.droppedFiles_eq`) and counts the same
ones (`Respelled.countedFiles_eq`). Only the text in front of the directories of a report is
another. `scan_respelled` puts this together.

A path can be too long for the system, or lead through too many links, where another is not. So both
surveys have to stay within the limits of the system (`StaysWithinLimits`).
-/

set_option autoImplicit false

namespace SourceSurvey

/-- The numbers of files in the directories of a category. -/
def Report.locationCounts (report : Report) (category : String) : Multiset Count :=
  ((report.locations.get? category).map SortedMap.values).getD []

namespace Survey

/-! ## What a survey looks at -/

/-- An entry that a survey looks at: one that it reaches, except special files and the directories
that are left out. -/
structure LooksAt (fs : FileSystem) (exclude : List String) (root : Path) (place : List Name)
    (kind : Kind) : Prop where
  mem : (place, kind) ∈ fs.entriesBelow root
  reached : Reached fs exclude root place
  notSpecial : kind ≠ .special
  notLeftOut : kind = .directory → ∀ name ∈ place.getLast?, isExcludedName exclude name = false

/-- A survey in which no path of an entry that it looks at meets a limit of the system. -/
def StaysWithinLimits (fs : FileSystem) (exclude : List String) (root : Path) : Prop :=
  ∀ place kind, LooksAt fs exclude root place kind → fs.WithinLimits (root.descend place)

/-- Entries with short paths that exist meet no limit. -/
theorem staysWithinLimits_of_all {fs : FileSystem} {root : Path} (exclude : List String)
    (h : (fs.entriesBelow root).all (fun e => (root.descend e.1).bytes.length ≤ maxPathLength &&
      fs.exists? (root.descend e.1)) = true) :
    StaysWithinLimits fs exclude root := by
  intro place kind hlooks
  obtain ⟨hlength, hexists⟩ := (Bool.and_eq_true _ _).mp (List.all_eq_true.1 h _ hlooks.mem)
  refine ⟨of_decide_eq_true hlength, ?_⟩
  intro hmany
  rw [FileSystem.exists?, FileSystem.stat_eq_bind, hmany] at hexists
  cases hexists

/-- Two paths of one directory, which can be listed, by both of which a survey stays within the
limits of the system. -/
structure Respelled (fs : FileSystem) (exclude : List String) (root other : Path) (trail : Trail) :
    Prop where
  find_root : fs.find root true = .ok trail
  find_other : fs.find other true = .ok trail
  canList : fs.canList root = true
  limits_root : StaysWithinLimits fs exclude root
  limits_other : StaysWithinLimits fs exclude other

section Root

variable {fs : FileSystem} {exclude : List String} {root other : Path} {trail : Trail}

/-- Whether a directory can be listed is a matter of its node. -/
theorem canList_eq_of_stat (h : fs.stat root = fs.stat other) : fs.canList root = fs.canList other := by
  rw [FileSystem.canList, FileSystem.canList, FileSystem.listing, FileSystem.listing, h]

/-- Neither of the two paths comes first. -/
theorem Respelled.symm (h : Respelled fs exclude root other trail) :
    Respelled fs exclude other root trail where
  find_root := h.find_other
  find_other := h.find_root
  canList := by
    rw [← canList_eq_of_stat (FileSystem.stat_eq_of_find h.find_root h.find_other)]
    exact h.canList
  limits_root := h.limits_other
  limits_other := h.limits_root

/-- The entries below a directory are the same by any path. -/
theorem Respelled.entriesBelow_eq (h : Respelled fs exclude root other trail) :
    fs.entriesBelow root = fs.entriesBelow other := by
  rw [FileSystem.entriesBelow, FileSystem.entriesBelow,
    FileSystem.stat_eq_of_find h.find_root h.find_other]

/-- Paths that lead to one place lead to one node. -/
theorem exists_respelled (hroot : fs.canList root = true)
    (hsame : fs.realPlace? root = fs.realPlace? other)
    (hlimits : StaysWithinLimits fs exclude root) (hlimits' : StaysWithinLimits fs exclude other) :
    ∃ trail, Respelled fs exclude root other trail := by
  obtain ⟨trail, hfind⟩ := exists_find_of_canList hroot
  rw [FileSystem.realPlace?, FileSystem.realPlace?, hfind] at hsame
  cases hother : fs.find other true with
  | error cause =>
    rw [hother] at hsame
    cases hsame
  | ok trail' =>
    rw [hother] at hsame
    -- A trail is given by its place, as a node of a tree has one way to it only.
    have htrail := (FileSystem.isWay_of_find hfind).eq_of_place_eq
      (FileSystem.isWay_of_find hother) (Option.some.inj hsame)
    exact ⟨trail, hfind, htrail ▸ hother, hroot, hlimits, hlimits'⟩

end Root

/-! ## Reaching the same entries -/

/-- An entry of a directory is reached if the directory is reached, kept and listed. -/
theorem reached_concat {fs : FileSystem} {exclude : List String} {root : Path} {above : List Name}
    {last name : Name} :
    Reached fs exclude root (above ++ [last] ++ [name]) ↔
      Reached fs exclude root (above ++ [last]) ∧ isExcludedName exclude last = false ∧
        fs.canList (root.descend (above ++ [last])) = true := by
  constructor
  -- The names above the entry are those above its directory, and the name of the directory.
  · rintro ⟨listed, kept⟩
    rw [List.dropLast_concat] at listed kept
    refine ⟨⟨?_, ?_⟩, kept last (by simp), listed _ (by simp)⟩
    · rw [List.dropLast_concat]
      intro x hx
      refine listed x ?_
      rw [List.mem_inits] at hx ⊢
      exact hx.trans (List.prefix_append _ _)
    · rw [List.dropLast_concat]
      exact fun x hx => kept x (List.mem_append_left _ hx)
  · rintro ⟨⟨listed, kept⟩, hlast, hcanList⟩
    rw [List.dropLast_concat] at listed kept
    constructor
    · rw [List.dropLast_concat]
      intro x hx
      rw [List.mem_inits, List.prefix_concat_iff] at hx
      rcases hx with rfl | hx
      · exact hcanList
      · exact listed x ((List.mem_inits _ _).2 hx)
    · rw [List.dropLast_concat]
      intro x hx
      rcases List.mem_append.1 hx with hx | hx
      · exact kept x hx
      · rw [List.mem_singleton.1 hx]
        exact hlast

/-- What is above an entry is a directory. -/
theorem mem_entriesBelow_of_concat {fs : FileSystem} (hfs : fs.root.WellFormed) {root : Path}
    {above : List Name} {name : Name} {kind : Kind} (hne : above ≠ [])
    (h : (above ++ [name], kind) ∈ fs.entriesBelow root) :
    (above, .directory) ∈ fs.entriesBelow root := by
  obtain ⟨-, node, x, hnode, hx, -⟩ := (mem_entriesBelow hfs).1 h
  rw [Node.descend?_append] at hx
  obtain ⟨y, hy, hx⟩ := Option.bind_eq_some_iff.1 hx
  refine (mem_entriesBelow hfs).2 ⟨hne, node, y, hnode, hy, ?_⟩
  cases y with
  | directory entries permissions => rfl
  | file content permissions => cases hx
  | link target => cases hx
  | special kind => cases hx

namespace Respelled

variable {fs : FileSystem} {exclude : List String} {root other : Path} {trail : Trail}
  {place : List Name} {kind : Kind}

/-- An entry that both surveys look at is the same node for both. -/
theorem stat_eq (h : Respelled fs exclude root other trail) (hfs : fs.root.WellFormed)
    (hroot : LooksAt fs exclude root place kind) (hother : LooksAt fs exclude other place kind) :
    fs.stat (root.descend place) = fs.stat (other.descend place) :=
  FileSystem.stat_descend_eq h.find_root h.find_other (properNames_of_mem hfs hroot.mem).2
    (h.limits_root place kind hroot) (h.limits_other place kind hother)

/-- What is reached by one path is reached by the other. The induction is on the place, directory by
directory. -/
theorem reached_other (h : Respelled fs exclude root other trail) (hfs : fs.root.WellFormed)
    (hmem : (place, kind) ∈ fs.entriesBelow root) (hreached : Reached fs exclude root place) :
    Reached fs exclude other place := by
  induction place using List.reverseRecOn generalizing kind with
  | nil => exact absurd rfl (properNames_of_mem hfs hmem).1
  | append_singleton above name ih =>
    rcases List.eq_nil_or_concat above with rfl | ⟨more, last, rfl⟩
    · exact reached_singleton.2 h.symm.canList
    -- The directory of the entry is looked at by both, so both can list it.
    · rw [List.concat_eq_append] at *
      obtain ⟨habove, hlast, hcanList⟩ := reached_concat.1 hreached
      have hdirectory := mem_entriesBelow_of_concat hfs (by simp) hmem
      have habove' := ih hdirectory habove
      have hkept : ∀ name ∈ (more ++ [last]).getLast?, isExcludedName exclude name = false := by
        simpa using hlast
      have hlooks : LooksAt fs exclude root (more ++ [last]) .directory :=
        ⟨hdirectory, habove, Kind.noConfusion, fun _ => hkept⟩
      have hlooks' : LooksAt fs exclude other (more ++ [last]) .directory :=
        ⟨h.entriesBelow_eq ▸ hdirectory, habove', Kind.noConfusion, fun _ => hkept⟩
      rw [canList_eq_of_stat (h.stat_eq hfs hlooks hlooks')] at hcanList
      exact reached_concat.2 ⟨habove', hlast, hcanList⟩

/-- Both surveys reach the same entries. -/
theorem reached_iff (h : Respelled fs exclude root other trail) (hfs : fs.root.WellFormed)
    (hmem : (place, kind) ∈ fs.entriesBelow root) :
    Reached fs exclude root place ↔ Reached fs exclude other place :=
  ⟨h.reached_other hfs hmem, h.symm.reached_other hfs (h.entriesBelow_eq ▸ hmem)⟩

/-- A file that is reached is the same node for both surveys. -/
theorem stat_eq_of_reached (h : Respelled fs exclude root other trail) (hfs : fs.root.WellFormed)
    (hmem : (place, kind) ∈ fs.entriesBelow root) (hreached : Reached fs exclude root place)
    (hkind : kind = .file ∨ kind = .link) :
    fs.stat (root.descend place) = fs.stat (other.descend place) := by
  have hspecial : kind ≠ .special := by
    rcases hkind with rfl | rfl <;> exact Kind.noConfusion
  have hdirectory : kind ≠ .directory := by
    rcases hkind with rfl | rfl <;> exact Kind.noConfusion
  refine h.stat_eq hfs ⟨hmem, hreached, hspecial, fun hd => absurd hd hdirectory⟩
    ⟨h.entriesBelow_eq ▸ hmem, h.reached_other hfs hmem hreached, hspecial,
      fun hd => absurd hd hdirectory⟩

/-- An entry that is reached is a file by both paths or by none. -/
theorem isFile_iff (h : Respelled fs exclude root other trail) (hfs : fs.root.WellFormed)
    (hmem : (place, kind) ∈ fs.entriesBelow root) (hreached : Reached fs exclude root place) :
    IsFile fs (root.descend place) kind ↔ IsFile fs (other.descend place) kind := by
  by_cases hkind : kind = .file ∨ kind = .link
  · have hstat := h.stat_eq_of_reached hfs hmem hreached hkind
    rw [IsFile, IsFile, FileSystem.exists?, FileSystem.exists?, FileSystem.isRegularFile,
      FileSystem.isRegularFile, hstat]
  · rw [not_or] at hkind
    simp [IsFile, hkind.1, hkind.2]

end Respelled

/-! ## Counting the same files -/

theorem mem_of_mem_countedFiles {fs : FileSystem} {options : SurveyOptions} {classifier : Classifier}
    {root : Path} {e : List Name × Kind}
    (he : e ∈ countedFiles fs options classifier root) :
    e ∈ fs.entriesBelow root ∧ IsCounted fs options classifier root e.1 e.2 := by
  obtain ⟨hmem, hcounted⟩ := Finset.mem_filter.1 he
  exact ⟨List.mem_toFinset.1 hmem, hcounted⟩

/-- The lines of a file are a matter of its node. -/
theorem countFile_eq_of_stat {fs : FileSystem} {path path' : Path} (h : fs.stat path = fs.stat path') :
    countFile fs path = countFile fs path' := by
  rw [countFile, countFile, FileSystem.openForReading, FileSystem.openForReading, h]

namespace Respelled

section Entry

variable {fs : FileSystem} {exclude : List String} {root other : Path} {trail : Trail}
  {place : List Name} {kind : Kind}

/-- The category of an entry is that of its name. -/
theorem classify_eq (h : Respelled fs exclude root other trail) (hfs : fs.root.WellFormed)
    (classifier : Classifier) (hmem : (place, kind) ∈ fs.entriesBelow root) :
    classifier.classify (root.descend place) = classifier.classify (other.descend place) := by
  obtain ⟨hne, hproper⟩ := properNames_of_mem hfs hmem
  rcases List.eq_nil_or_concat place with rfl | ⟨above, name, rfl⟩
  · exact absurd rfl hne
  · rw [List.concat_eq_append] at hproper ⊢
    rw [Classifier.classify, Classifier.classify,
      Path.fileName?_descend (FileSystem.bytes_ne_nil_of_find h.find_root) hproper,
      Path.fileName?_descend (FileSystem.bytes_ne_nil_of_find h.find_other) hproper]

/-- Entries are shown in one directory by one path exactly if they are by the other. -/
theorem parentDisplay_eq_iff (h : Respelled fs exclude root other trail) (hfs : fs.root.WellFormed)
    {place' : List Name} {kind' : Kind} (hmem : (place, kind) ∈ fs.entriesBelow root)
    (hmem' : (place', kind') ∈ fs.entriesBelow root) :
    (root.descend place).parentDisplay = (root.descend place').parentDisplay ↔
      (other.descend place).parentDisplay = (other.descend place').parentDisplay := by
  obtain ⟨hne, hproper⟩ := properNames_of_mem hfs hmem
  obtain ⟨hne', hproper'⟩ := properNames_of_mem hfs hmem'
  have hroot := FileSystem.bytes_ne_nil_of_find h.find_root
  have hother := FileSystem.bytes_ne_nil_of_find h.find_other
  rcases List.eq_nil_or_concat place with rfl | ⟨above, name, rfl⟩
  · exact absurd rfl hne
  rcases List.eq_nil_or_concat place' with rfl | ⟨above', name', rfl⟩
  · exact absurd rfl hne'
  rw [List.concat_eq_append] at hproper hproper'
  rw [List.concat_eq_append, List.concat_eq_append,
    Path.parentDisplay_descend_eq_iff hroot hproper hproper',
    Path.parentDisplay_descend_eq_iff hother hproper hproper']

end Entry

section Files

variable {fs : FileSystem} {options : SurveyOptions} {classifier : Classifier} {root other : Path}
  {trail : Trail}

/-- What is counted by one path is counted by the other. -/
theorem isCounted_other (h : Respelled fs options.exclude root other trail) (hfs : fs.root.WellFormed)
    {place : List Name} {kind : Kind} (hmem : (place, kind) ∈ fs.entriesBelow root)
    (hcounted : IsCounted fs options classifier root place kind) :
    IsCounted fs options classifier other place kind where
  reached := (h.reached_iff hfs hmem).1 hcounted.reached
  isFile := (h.isFile_iff hfs hmem hcounted.reached).1 hcounted.isFile
  notIgnored := hcounted.notIgnored
  wanted := by
    rw [← h.classify_eq hfs classifier hmem]
    exact hcounted.wanted

/-- Both surveys count the same files. -/
theorem countedFiles_eq (h : Respelled fs options.exclude root other trail)
    (hfs : fs.root.WellFormed) (classifier : Classifier) :
    countedFiles fs options classifier root = countedFiles fs options classifier other := by
  rw [countedFiles, countedFiles, ← h.entriesBelow_eq]
  refine Finset.filter_congr ?_
  intro e he
  have hmem := List.mem_toFinset.1 he
  exact ⟨h.isCounted_other hfs hmem,
    h.symm.isCounted_other hfs (h.entriesBelow_eq ▸ hmem)⟩

theorem categoryOf_eq (h : Respelled fs options.exclude root other trail) (hfs : fs.root.WellFormed)
    {e : List Name × Kind} (he : e ∈ countedFiles fs options classifier root) :
    categoryOf classifier root e = categoryOf classifier other e :=
  h.classify_eq hfs classifier (mem_of_mem_countedFiles he).1

/-- A file has the same lines by both paths. -/
theorem linesOf?_eq (h : Respelled fs options.exclude root other trail) (hfs : fs.root.WellFormed)
    {e : List Name × Kind} (he : e ∈ countedFiles fs options classifier root) :
    linesOf? fs root e = linesOf? fs other e := by
  obtain ⟨hmem, hcounted⟩ := mem_of_mem_countedFiles he
  have hkind : e.2 = .file ∨ e.2 = .link := hcounted.isFile.imp And.left And.left
  have hstat := h.stat_eq_of_reached hfs hmem hcounted.reached hkind
  rw [linesOf?, linesOf?, countFile_eq_of_stat hstat]

/-- The same files can be opened by both paths. -/
theorem openedFiles_eq (h : Respelled fs options.exclude root other trail)
    (hfs : fs.root.WellFormed) (classifier : Classifier) :
    openedFiles fs options classifier root = openedFiles fs options classifier other := by
  rw [openedFiles, openedFiles, ← h.countedFiles_eq hfs classifier]
  refine Finset.filter_congr ?_
  intro e he
  rw [h.linesOf?_eq hfs he]

/-- The files of a category are the same by both paths. -/
theorem filter_categoryOf_eq (h : Respelled fs options.exclude root other trail)
    (hfs : fs.root.WellFormed) {files : Finset (List Name × Kind)}
    (hfiles : files ⊆ countedFiles fs options classifier root) (c : String) :
    {e ∈ files | categoryOf classifier root e = c} =
      {e ∈ files | categoryOf classifier other e = c} := by
  refine Finset.filter_congr ?_
  intro e he
  rw [h.categoryOf_eq hfs (hfiles he)]

end Files

/-! ## The same reports -/

section Reports

variable {fs : FileSystem} {options : SurveyOptions} {classifier : Classifier} {root other : Path}
  {trail : Trail} {report report' : Report}

variable (h : Respelled fs options.exclude root other trail) (hfs : fs.root.WellFormed)
  (hscan : scan fs options classifier root = .ok report)
  (hscan' : scan fs options classifier other = .ok report')

include h hfs hscan hscan'

/-- The numbers of files are the same. -/
theorem files_eq : report.files = report'.files := by
  refine SortedMap.ext_get? ?_
  intro c
  rw [get?_files_scan hfs hscan, get?_files_scan hfs hscan', ← h.countedFiles_eq hfs classifier,
    h.filter_categoryOf_eq hfs (Finset.Subset.refl _)]

/-- The numbers of lines are the same, file by file. -/
theorem lines_eq : report.lines = report'.lines := by
  refine SortedMap.ext_get? ?_
  intro c
  have hsum : ∑ e ∈ openedFiles fs options classifier root with categoryOf classifier other e = c,
        ((linesOf? fs root e).getD 0).toNat =
      ∑ e ∈ openedFiles fs options classifier root with categoryOf classifier other e = c,
        ((linesOf? fs other e).getD 0).toNat := by
    refine Finset.sum_congr rfl ?_
    intro e he
    rw [h.linesOf?_eq hfs (openedFiles_subset (Finset.mem_filter.1 he).1)]
  rw [get?_lines_scan hfs hscan, get?_lines_scan hfs hscan', ← h.openedFiles_eq hfs classifier,
    h.filter_categoryOf_eq hfs openedFiles_subset, hsum]

/-- The tallies are the same. -/
theorem tally_eq : report.tally = report'.tally := by
  have hsame : {e ∈ openedFiles fs options classifier root | categoryOf classifier root e ≠ unknown} =
      {e ∈ openedFiles fs options classifier root | categoryOf classifier other e ≠ unknown} := by
    refine Finset.filter_congr ?_
    intro e he
    rw [h.categoryOf_eq hfs (openedFiles_subset he)]
  rw [tally_scan hfs hscan, tally_scan hfs hscan', ← h.openedFiles_eq hfs classifier, hsame]

/-- The files of a category are spread alike over the directories, however these are shown. -/
theorem locationCounts_eq (c : String) : report.locationCounts c = report'.locationCounts c := by
  have hfiles : {e ∈ openedFiles fs options classifier root | categoryOf classifier root e = c} =
      {e ∈ openedFiles fs options classifier other | categoryOf classifier other e = c} := by
    rw [← h.openedFiles_eq hfs classifier, h.filter_categoryOf_eq hfs openedFiles_subset]
  have hkeys : (report.locations.get? c).isSome = (report'.locations.get? c).isSome := by
    rw [Bool.eq_iff_iff, isSome_locations_scan hfs hscan, isSome_locations_scan hfs hscan', hfiles]
  rw [Report.locationCounts, Report.locationCounts]
  -- Both reports have the category, or neither has; then both tabulate the same files, by directory.
  cases hdirectories : report.locations.get? c with
  | none =>
    rw [hdirectories, Option.isSome_none, eq_comm, Option.isSome_eq_false_iff, Option.isNone_iff_eq_none]
      at hkeys
    rw [hkeys]
  | some directories =>
    rw [hdirectories, Option.isSome_some, eq_comm, Option.isSome_iff_exists] at hkeys
    obtain ⟨directories', hdirectories'⟩ := hkeys
    have htable := tabulates_directories hfs hscan hdirectories
    have htable' := tabulates_directories hfs hscan' hdirectories'
    rw [← hfiles] at htable'
    rw [hdirectories']
    refine Multiset.coe_eq_coe.2 (htable.perm_values htable' ?_)
    intro e he e' he'
    have hmem := mem_of_mem_countedFiles (openedFiles_subset (Finset.mem_filter.1 he).1)
    have hmem' := mem_of_mem_countedFiles (openedFiles_subset (Finset.mem_filter.1 he').1)
    exact h.parentDisplay_eq_iff hfs hmem.1 hmem'.1

end Reports

end Respelled

/-! ## The same files ignored -/

section Ignored

variable {fs : FileSystem} {options : SurveyOptions} {classifier : Classifier} {root : Path}

/-- The path of a file that is ignored. -/
def ignoredPath (fs : FileSystem) (options : SurveyOptions) (root path : Path) (kind : Kind) :
    List Path :=
  if IsFile fs path kind ∧ isIgnored options root path = true then [path] else []

/-- A visit gives the finding of an ignored file exactly if it is to a file that the patterns match.
-/
theorem findingOf_eq_ignored_iff {visit : Visit} {path : Path} :
    findingOf fs options classifier root visit = .ignored path ↔
      path ∈ visitOutcomes (ignoredPath fs options root) visit := by
  cases visit with
  | failure path cause => simp [findingOf, visitOutcomes]
  | entry entry =>
    have hfile := isCountable_iff_isFile fs entry
    rw [findingOf, findingOfEntry, visitOutcomes]
    by_cases hcountable : entry.isCountable fs = true
    · by_cases hignored : isIgnored options root entry.path = true
      · simp [ignoredPath, hfile.1 hcountable, hcountable, hignored, eq_comm]
      · simp only [ignoredPath, hcountable, hignored, Bool.not_true, Bool.false_eq_true, if_false,
          and_false, List.not_mem_nil, iff_false]
        split <;> exact Finding.noConfusion
    · simp [ignoredPath, mt hfile.2 hcountable, hcountable]

/-- The entries below a root that the patterns take out of a survey: files that it reaches. -/
def droppedFiles (fs : FileSystem) (options : SurveyOptions) (root : Path) :
    Finset (List Name × Kind) :=
  {e ∈ (fs.entriesBelow root).toFinset | Reached fs options.exclude root e.1 ∧
    IsFile fs (root.descend e.1) e.2 ∧ options.ignore.ignores (.ofPlace e.1) = true}

theorem mem_droppedFiles {e : List Name × Kind} :
    e ∈ droppedFiles fs options root ↔
      e ∈ fs.entriesBelow root ∧ Reached fs options.exclude root e.1 ∧
        IsFile fs (root.descend e.1) e.2 ∧ options.ignore.ignores (.ofPlace e.1) = true := by
  rw [droppedFiles, Finset.mem_filter, List.mem_toFinset]

/-- The findings of ignored files are those of the entries that the patterns match. -/
theorem ignored_mem_findings_iff (hfs : fs.root.WellFormed) (hroot : fs.canList root = true)
    {path : Path} :
    .ignored path ∈ findings fs options classifier root ↔
      ∃ e ∈ droppedFiles fs options root, path = root.descend e.1 := by
  have hbytes := bytes_ne_nil_of_canList hroot
  have hdirectory : ∀ path, ignoredPath fs options root path .directory = [] := by
    intro path
    simp [ignoredPath, IsFile]
  -- The root is visited as well, and is no file.
  have hlink : ignoredPath fs options root root .link = [] :=
    if_neg fun h => not_isFile_root hroot h.1
  have hvisits : .ignored path ∈ findings fs options classifier root ↔
      path ∈ (Walk.visits fs (·.isExcluded options.exclude) root).flatMap
        (visitOutcomes (ignoredPath fs options root)) := by
    simp only [findings, List.mem_map, List.mem_flatMap, findingOf_eq_ignored_iff]
  -- Below the root, what the patterns are asked about is the place.
  have hplace : ∀ {e}, e ∈ fs.entriesBelow root →
      isIgnored options root (root.descend e.1) = options.ignore.ignores (.ofPlace e.1) := by
    intro e hmem
    obtain ⟨hne, hproper⟩ := properNames_of_mem hfs hmem
    exact isIgnored_descend options root hbytes hproper hne
  rw [hvisits, flatMap_visits hroot hdirectory hlink]
  simp only [List.mem_flatMap, List.mem_filter, decide_eq_true_eq, ignoredPath]
  constructor
  · rintro ⟨e, ⟨hmem, hreached⟩, hpath⟩
    split at hpath
    · rename_i hignored
      rw [hplace hmem] at hignored
      exact ⟨e, mem_droppedFiles.2 ⟨hmem, hreached, hignored⟩, List.mem_singleton.1 hpath⟩
    · cases hpath
  · rintro ⟨e, he, rfl⟩
    obtain ⟨hmem, hreached, hfile, hignored⟩ := mem_droppedFiles.1 he
    refine ⟨e, ⟨hmem, hreached⟩, ?_⟩
    rw [if_pos ⟨hfile, (hplace hmem).trans hignored⟩]
    exact List.mem_singleton_self _

/-- Both surveys ignore the same files. -/
theorem Respelled.droppedFiles_eq {other : Path} {trail : Trail}
    (h : Respelled fs options.exclude root other trail) (hfs : fs.root.WellFormed) :
    droppedFiles fs options root = droppedFiles fs options other := by
  rw [droppedFiles, droppedFiles, ← h.entriesBelow_eq]
  refine Finset.filter_congr ?_
  intro e he
  have hmem := List.mem_toFinset.1 he
  calc
    _ ↔ Reached fs options.exclude root e.1 ∧ IsFile fs (other.descend e.1) e.2 ∧
          options.ignore.ignores (.ofPlace e.1) = true :=
      and_congr_right fun hreached => and_congr_left' (h.isFile_iff hfs hmem hreached)
    _ ↔ _ := and_congr_left' (h.reached_iff hfs hmem)

end Ignored

/-- How the root is written makes no difference but in the shown text. By two paths of one
directory a survey counts the same files and lines and ignores the same files. Two files that are
shown in one directory by the one path are so by the other, so that the numbers of files in the
directories of a category are the same. -/
theorem scan_respelled (fs : FileSystem) (options : SurveyOptions) (classifier : Classifier)
    {root other : Path} (hfs : fs.root.WellFormed) (hroot : fs.canList root = true)
    (hsame : fs.realPlace? root = fs.realPlace? other)
    (hlimits : StaysWithinLimits fs options.exclude root)
    (hlimits' : StaysWithinLimits fs options.exclude other) :
    ∃ report report', scan fs options classifier root = .ok report ∧
      scan fs options classifier other = .ok report' ∧
      report.files = report'.files ∧ report.lines = report'.lines ∧ report.tally = report'.tally ∧
      (∀ path, .ignored path ∈ findings fs options classifier root ↔
        ∃ e ∈ droppedFiles fs options root, path = root.descend e.1) ∧
      (∀ path, .ignored path ∈ findings fs options classifier other ↔
        ∃ e ∈ droppedFiles fs options root, path = other.descend e.1) ∧
      countedFiles fs options classifier root = countedFiles fs options classifier other ∧
      (∀ e ∈ countedFiles fs options classifier root,
        ∀ e' ∈ countedFiles fs options classifier root,
          directoryOf root e = directoryOf root e' ↔ directoryOf other e = directoryOf other e') ∧
      ∀ c, report.locationCounts c = report'.locationCounts c := by
  -- By both paths the walk begins at one node; the limits keep it alike from there on.
  obtain ⟨trail, h⟩ := exists_respelled hroot hsame hlimits hlimits'
  have hreport : ∃ report, scan fs options classifier root = .ok report := scan_isOk_iff.2 hroot
  have hreport' : ∃ report, scan fs options classifier other = .ok report :=
    scan_isOk_iff.2 h.symm.canList
  obtain ⟨report, hscan⟩ := hreport
  obtain ⟨report', hscan'⟩ := hreport'
  refine ⟨report, report', hscan, hscan', h.files_eq hfs hscan hscan', h.lines_eq hfs hscan hscan',
    h.tally_eq hfs hscan hscan', ?_, ?_, h.countedFiles_eq hfs classifier, ?_,
    h.locationCounts_eq hfs hscan hscan'⟩
  · intro path
    exact ignored_mem_findings_iff hfs hroot
  · intro path
    rw [h.droppedFiles_eq hfs]
    exact ignored_mem_findings_iff hfs h.symm.canList
  · intro e he e' he'
    exact h.parentDisplay_eq_iff hfs (mem_of_mem_countedFiles he).1 (mem_of_mem_countedFiles he').1

/-- A directory with two files and a header, surveyed from within, and a link to it. -/
def linkedFiles : FileSystem where
  root := .directory
    [(Utf8.ofString "alias", .link (Utf8.ofString "work")),
      (Utf8.ofString "work", .directory
        [(Utf8.ofString "a.c", .file (.data (Utf8.ofString "int a;")) .all),
          (Utf8.ofString "a.h", .file (.data []) .all),
          (Utf8.ofString "lib", .directory
            [(Utf8.ofString "b.c", .file (.data (Utf8.ofString "int b;")) .all)] .all)]
        .all)]
    .all
  cwd := [Utf8.ofString "work"]

/-- Headers are ignored. -/
def headerless : SurveyOptions :=
  ⟨[], none, (IgnoreList.ofLines ["*.h".toList]).toOption.getD .empty⟩

theorem wellFormed_linkedFiles : linkedFiles.root.WellFormed := by decide

/-- The dot and an absolute path through the link are one directory, in which two files are counted
and one is ignored. -/
theorem scan_respelled_linkedFiles :
    linkedFiles.root.WellFormed ∧ linkedFiles.canList ⟨Utf8.ofString "."⟩ = true ∧
      linkedFiles.realPlace? ⟨Utf8.ofString "."⟩ =
        linkedFiles.realPlace? ⟨Utf8.ofString "/alias//./"⟩ ∧
      StaysWithinLimits linkedFiles headerless.exclude ⟨Utf8.ofString "."⟩ ∧
      StaysWithinLimits linkedFiles headerless.exclude ⟨Utf8.ofString "/alias//./"⟩ ∧
      ∃ report report',
        scan linkedFiles headerless .builtin ⟨Utf8.ofString "."⟩ = .ok report ∧
        scan linkedFiles headerless .builtin ⟨Utf8.ofString "/alias//./"⟩ = .ok report' ∧
        report.files.get? "C" = some (Count.ofNat 2) ∧ report.files = report'.files ∧
        report.locationCounts "C" = report'.locationCounts "C" := by
  have hroot : linkedFiles.canList ⟨Utf8.ofString "."⟩ = true := by cbv
  have hsame : linkedFiles.realPlace? ⟨Utf8.ofString "."⟩ =
      linkedFiles.realPlace? ⟨Utf8.ofString "/alias//./"⟩ := by cbv
  have hlimits : StaysWithinLimits linkedFiles headerless.exclude ⟨Utf8.ofString "."⟩ :=
    staysWithinLimits_of_all _ (by cbv)
  have hlimits' : StaysWithinLimits linkedFiles headerless.exclude ⟨Utf8.ofString "/alias//./"⟩ :=
    staysWithinLimits_of_all _ (by cbv)
  obtain ⟨report, report', hscan, hscan', hfiles, -, -, -, -, -, -, hcounts⟩ :=
    scan_respelled linkedFiles headerless .builtin wellFormed_linkedFiles hroot hsame hlimits
      hlimits'
  refine ⟨wellFormed_linkedFiles, hroot, hsame, hlimits, hlimits', report, report', hscan, hscan',
    ?_, hfiles, hcounts "C"⟩
  rw [get?_files_scan wellFormed_linkedFiles hscan]
  cbv

end Survey

end SourceSurvey
