import Mathlib
import SourceSurvey.Proofs.Ignore.Names
import SourceSurvey.Proofs.Report.Sum
import SourceSurvey.Proofs.Survey.Reached

/-!
# A survey as a sum of surveys

A survey of a directory is put together from its entries: a file adds itself, a directory that is
walked into adds what a survey of it reports, and everything else adds nothing
(`Survey.contribution?`). The walk from the directory and the walk from one below it come to the
same places under the same paths (`Survey.isCounted_cons_iff`), as long as the patterns that are
ignored are about names; a pattern for a way would see a shorter way from the lower directory.

A directory that is left out by its name adds nothing, though a survey of it, as a root, counts its
files. The main statement is `Survey.scan_eq_sum`.
-/

set_option autoImplicit false

namespace SourceSurvey

/-- An entry that is no link is found under the path of its directory, if anything is. -/
theorem FileSystem.stat_child_eq {fs : FileSystem} {root : Path} {entries : List (Name × Node)}
    {name : Name} {node x : Node} (hfs : fs.root.WellFormed) (hlisting : fs.listing root = .ok entries)
    (hentry : (name, node) ∈ entries) (hkind : node.kind ≠ .link)
    (hx : fs.stat (root.child name) = .ok x) : x = node := by
  obtain ⟨permissions, hstat⟩ := Survey.exists_stat_of_listing hlisting
  obtain ⟨trail, hfind, hnode⟩ := stat_eq_ok_iff.1 hstat
  obtain ⟨trail', hfind', rfl⟩ := stat_eq_ok_iff.1 hx
  cases Survey.wellFormed_of_stat hfs hstat with
  | directory _ hproper hnodup _ =>
    have hlookup : entries.lookup name = some node :=
      (Node.lookup_eq_some_iff_mem hnodup).2 hentry
    obtain ⟨left, hlocate⟩ := locate_descend hfind
    -- The path of the entry goes on from the directory with one step, and as the entry is no link
    -- that step ends at the entry.
    have hfollow := hlocate [name] (by simpa using hproper _ hentry) (by simp)
      (follows_of_find hfind').1 true
    rw [Path.descend_cons, Path.descend_nil, find_eq_ok_iff.1 hfind'] at hfollow
    obtain ⟨left', hfollows⟩ := followSteps_eq_found_iff.1 hfollow.symm
    cases hfollows with
    | name hdirectory _ _ hfound _ hrest =>
      rw [hnode] at hdirectory
      cases hdirectory
      rw [hlookup] at hfound
      cases hfound
      cases hrest
      rfl
    | link hdirectory _ _ hfound _ =>
      rw [hnode] at hdirectory
      cases hdirectory
      rw [hlookup] at hfound
      cases hfound
      exact absurd rfl hkind

namespace Survey

section Entries

variable (fs : FileSystem) (options : SurveyOptions) (classifier : Classifier) (root : Path)
variable (entry : Name × Node)

/-- What an entry of the root adds to the report of a survey, if it adds something: a file that is
counted the report of that file alone, and a directory that is not left out the report of a survey
of it, if there is one. -/
def contribution? : Option Report :=
  let path := root.child entry.1
  match entry.2.kind with
  | .directory =>
    if isExcludedName options.exclude entry.1 then none
    else (scan fs options classifier path).toOption
  | kind =>
    match findingOfEntry fs options classifier root ⟨path, 1, entry.1, kind⟩ with
    | .counted path category lines => some (Report.empty.add (.counted path category lines))
    | _ => none

/-- The places that begin with an entry of the root. -/
def entryPlaces : List (List Name × Kind) :=
  ([entry.1], entry.2.kind) :: entry.2.descendants.map fun e => (entry.1 :: e.1, e.2.kind)

/-- What a survey records for some of the places below the root. -/
def recordingsOf (places : List (List Name × Kind)) : List Recording :=
  (places.filter fun e => decide (IsCounted fs options classifier root e.1 e.2)).flatMap fun e =>
    fileRecordings fs classifier (root.descend e.1)

end Entries

section Scan

variable {fs : FileSystem} {options : SurveyOptions} {classifier : Classifier} {root : Path}
variable {entries : List (Name × Node)} {name : Name} {node : Node}

theorem entriesBelow_eq_flatMap (hlisting : fs.listing root = .ok entries) :
    fs.entriesBelow root = entries.flatMap entryPlaces := by
  rw [entriesBelow_of_listing hlisting, Node.entryDescendants_eq_flatMap, List.map_flatMap]
  simp only [List.map_cons, List.map_map]
  rfl

theorem entryPlaces_subset (hlisting : fs.listing root = .ok entries)
    {entry : Name × Node} (hentry : entry ∈ entries) : entryPlaces entry ⊆ fs.entriesBelow root := by
  rw [entriesBelow_eq_flatMap hlisting]
  exact fun e he => List.mem_flatMap.2 ⟨entry, hentry, he⟩

/-- A survey records entry by entry. -/
theorem recordingsOf_entriesBelow (hlisting : fs.listing root = .ok entries) :
    recordingsOf fs options classifier root (fs.entriesBelow root) =
      entries.flatMap fun entry => recordingsOf fs options classifier root (entryPlaces entry) := by
  rw [recordingsOf, entriesBelow_eq_flatMap hlisting, List.filter_flatMap, List.flatMap_assoc]
  rfl

/-- Counted from a root, counted from the directory below it. -/
theorem isCounted_cons_iff {place : List Name} {kind : Kind}
    (hignore : ∀ glob ∈ options.ignore.globs, IgnoreList.IsForNames glob)
    (hroot : fs.canList root = true) (hproper : ∀ x ∈ name :: place, ProperName x)
    (hne : place ≠ []) :
    IsCounted fs options classifier root (name :: place) kind ↔
      isExcludedName options.exclude name = false ∧
        IsCounted fs options classifier (root.child name) place kind := by
  have hignored := IgnoreList.ignores_ofPlace_cons hignore hproper hne
  constructor
  · rintro ⟨hreached, hfile, hnot, hwanted⟩
    obtain ⟨-, hname, hbelow⟩ := (reached_cons hne).1 hreached
    exact ⟨hname, hbelow, hfile, hignored ▸ hnot, hwanted⟩
  · rintro ⟨hname, hbelow, hfile, hnot, hwanted⟩
    exact ⟨(reached_cons hne).2 ⟨hroot, hname, hbelow⟩, hfile, hignored.symm ▸ hnot, hwanted⟩

/-- No directory is counted. -/
theorem not_isCounted_directory {place : List Name} :
    ¬ IsCounted fs options classifier root place .directory := by
  rintro ⟨-, hfile, -, -⟩
  rcases hfile with ⟨hkind, -⟩ | ⟨hkind, -⟩
  · cases hkind
  · cases hkind

/-- Where nothing can be listed nothing is recorded. -/
theorem recordingsOf_eq_nil (h : fs.canList root = false) (places : List (List Name × Kind)) :
    recordingsOf fs options classifier root places = [] := by
  rw [recordingsOf, List.filter_eq_nil_iff.2]
  · rfl
  · intro e _
    rw [decide_eq_true_iff]
    intro hcounted
    have hlisted : fs.canList root = true := hcounted.reached.listed [] (by simp)
    rw [h] at hlisted
    cases hlisted

/-- For a file, what is recorded is what its finding says. -/
theorem recordingsOf_entryPlaces_of_ne (hfs : fs.root.WellFormed)
    (hlisting : fs.listing root = .ok entries) (hentry : (name, node) ∈ entries)
    (hkind : node.kind ≠ .directory) :
    recordingsOf fs options classifier root (entryPlaces (name, node)) =
      (findingOfEntry fs options classifier root
        ⟨root.child name, 1, name, node.kind⟩).recordings := by
  have hroot : fs.canList root = true := canList_iff.2 ⟨_, hlisting⟩
  obtain ⟨hne, hproper⟩ :=
    properNames_of_mem hfs (entryPlaces_subset hlisting hentry List.mem_cons_self)
  have hrecorded := entryRecordings_descend fs options classifier root node.kind
    (bytes_ne_nil_of_canList hroot) hproper hne (reached_singleton.2 hroot)
  -- A file has no places below it: it is the only place to look at.
  have hplace : recordingsOf fs options classifier root (entryPlaces (name, node)) =
      if IsCounted fs options classifier root [name] node.kind then
        fileRecordings fs classifier (root.descend [name])
      else [] := by
    rw [recordingsOf, entryPlaces, Node.descendants_eq_nil hkind, List.map_nil, List.filter_cons,
      List.filter_nil]
    by_cases hcounted : IsCounted fs options classifier root [name] node.kind
    · simp [hcounted]
    · simp [hcounted]
  exact hplace.trans hrecorded.symm

/-- For a directory, what is recorded is what is recorded from there, unless it is left out. -/
theorem recordingsOf_entryPlaces_of_eq (hfs : fs.root.WellFormed)
    (hlisting : fs.listing root = .ok entries)
    (hignore : ∀ glob ∈ options.ignore.globs, IgnoreList.IsForNames glob)
    (hentry : (name, node) ∈ entries) (hkind : node.kind = .directory) :
    recordingsOf fs options classifier root (entryPlaces (name, node)) =
      if isExcludedName options.exclude name = true then []
      else recordingsOf fs options classifier (root.child name)
        (node.descendants.map fun e => (e.1, e.2.kind)) := by
  have hcounted : ∀ e ∈ node.descendants,
      (IsCounted fs options classifier root (name :: e.1) e.2.kind ↔
        isExcludedName options.exclude name = false ∧
          IsCounted fs options classifier (root.child name) e.1 e.2.kind) := by
    intro e he
    have hbelow : (name :: e.1, e.2.kind) ∈ fs.entriesBelow root :=
      entryPlaces_subset hlisting hentry (List.mem_cons_of_mem _ (List.mem_map.2 ⟨e, he, rfl⟩))
    exact isCounted_cons_iff hignore (canList_iff.2 ⟨_, hlisting⟩)
      (properNames_of_mem hfs hbelow).2 (Node.ne_nil_of_mem_descendants he)
  -- The directory itself is not counted; below it a place counts from the root exactly if the
  -- directory is kept and it counts from there.
  rw [recordingsOf, entryPlaces, List.filter_cons, hkind,
    if_neg (by simpa using not_isCounted_directory), List.filter_map, List.flatMap_map]
  split
  · rename_i hname
    rw [List.filter_eq_nil_iff.2]
    · rfl
    · intro e he
      simp [hcounted e he, hname]
  · rename_i hname
    rw [recordingsOf, List.filter_map, List.flatMap_map]
    congr 1
    refine List.filter_congr fun e he => ?_
    simp [hcounted e he, hname]

/-- There is no survey of what cannot be listed. -/
theorem toOption_scan_eq_none (h : fs.canList root = false) :
    (scan fs options classifier root).toOption = none := by
  cases hscan : scan fs options classifier root with
  | error e => rfl
  | ok report =>
    rw [scan_isOk_iff.1 ⟨report, hscan⟩] at h
    cases h

theorem contribution?_of_eq (hkind : node.kind = .directory) :
    contribution? fs options classifier root (name, node) =
      if isExcludedName options.exclude name = true then none
      else (scan fs options classifier (root.child name)).toOption := by
  rw [contribution?, hkind]

theorem contribution?_of_ne (hkind : node.kind ≠ .directory) :
    contribution? fs options classifier root (name, node) =
      match findingOfEntry fs options classifier root ⟨root.child name, 1, name, node.kind⟩ with
      | .counted path category lines => some (Report.empty.add (.counted path category lines))
      | _ => none := by
  cases node with
  | directory entries permissions => exact absurd rfl hkind
  | file content permissions => rfl
  | link target => rfl
  | special kind => rfl

/-- The survey of a directory reports what is recorded from there; there is none if nothing can be
listed, and then nothing is recorded. -/
theorem getD_toOption_scan (hfs : fs.root.WellFormed) (hlisting : fs.listing root = .ok entries)
    (hentry : (name, node) ∈ entries) (hkind : node.kind = .directory) :
    (scan fs options classifier (root.child name)).toOption.getD 0 =
      Report.empty.recordAll (recordingsOf fs options classifier (root.child name)
        (node.descendants.map fun e => (e.1, e.2.kind))) := by
  cases hlist : fs.canList (root.child name) with
  | false =>
    rw [toOption_scan_eq_none hlist, recordingsOf_eq_nil hlist]
    rfl
  | true =>
    obtain ⟨report, hscan⟩ := scan_isOk_iff.2 hlist
    obtain ⟨listed, hlisted⟩ := canList_iff.1 hlist
    obtain ⟨permissions, hstat⟩ := exists_stat_of_listing hlisted
    -- The path below the root leads to the entry, so the survey from there goes over its
    -- descendants.
    have hnode := FileSystem.stat_child_eq hfs hlisting hentry (by rw [hkind]; exact nofun) hstat
    have hbelow : fs.entriesBelow (root.child name) =
        node.descendants.map fun e => (e.1, e.2.kind) := by
      rw [FileSystem.entriesBelow, hstat, hnode]
    rw [hscan, ← hbelow]
    exact scan_eq_recordAll hfs hscan

/-- What is recorded for the places that begin with an entry makes the report that the entry
adds. -/
theorem getD_contribution? (hfs : fs.root.WellFormed) (hlisting : fs.listing root = .ok entries)
    (hignore : ∀ glob ∈ options.ignore.globs, IgnoreList.IsForNames glob)
    {entry : Name × Node} (hentry : entry ∈ entries) :
    (contribution? fs options classifier root entry).getD 0 =
      Report.empty.recordAll (recordingsOf fs options classifier root (entryPlaces entry)) := by
  obtain ⟨name, node⟩ := entry
  by_cases hkind : node.kind = .directory
  · rw [contribution?_of_eq hkind,
      recordingsOf_entryPlaces_of_eq hfs hlisting hignore hentry hkind]
    split
    · rfl
    · exact getD_toOption_scan hfs hlisting hentry hkind
  · rw [contribution?_of_ne hkind, recordingsOf_entryPlaces_of_ne hfs hlisting hentry hkind]
    -- Only a finding that counts records anything, and it is the only one with a report.
    cases findingOfEntry fs options classifier root ⟨root.child name, 1, name, node.kind⟩ with
    | counted path category lines =>
      exact Report.add_eq_recordAll .empty (.counted path category lines)
    | unreadable path cause => rfl
    | notCountable => rfl
    | ignored path => rfl
    | otherLanguage => rfl

/-- A link to a directory is no file. -/
theorem contribution?_of_link {listed : List (Name × Node)} {permissions : Permissions}
    (hkind : node.kind = .link)
    (hstat : fs.stat (root.child name) = .ok (.directory listed permissions)) :
    contribution? fs options classifier root (name, node) = none := by
  rw [contribution?_of_ne (by rw [hkind]; exact nofun), hkind]
  have hfinding : findingOfEntry fs options classifier root ⟨root.child name, 1, name, .link⟩ =
      .notCountable := by
    simp [findingOfEntry, Entry.isCountable, FileSystem.isRegularFile, hstat]
  rw [hfinding]

end Scan

/-- A survey is the sum of the surveys below it. Let the patterns to ignore have been made of
lines without a slash, of which some may have been refused. Then the report of a survey is the sum,
key by key, of what the entries of the root add: each file that is counted its own report, and each
directory that is not left out and can be listed the report of a survey of it with the same options.
Directories that are left out or cannot be listed and links to directories add nothing. -/
theorem scan_eq_sum {fs : FileSystem} {options : SurveyOptions} (classifier : Classifier)
    {root : Path} {entries : List (Name × Node)} {lines : List (List Char)}
    (hfs : fs.root.WellFormed) (hlines : ∀ line ∈ lines, '/' ∉ line)
    (hignore : options.ignore = IgnoreList.empty.offerAll lines)
    (hlisting : fs.listing root = .ok entries) :
    scan fs options classifier root =
        .ok (entries.filterMap (contribution? fs options classifier root)).sum ∧
      ∀ name node, (name, node) ∈ entries →
        (node.kind = .directory → isExcludedName options.exclude name = false →
          fs.canList (root.child name) = true →
            ∃ report, scan fs options classifier (root.child name) = .ok report ∧
              contribution? fs options classifier root (name, node) = some report) ∧
        (node.kind = .directory →
          isExcludedName options.exclude name = true ∨ fs.canList (root.child name) = false →
            contribution? fs options classifier root (name, node) = none) ∧
        (node.kind = .link →
          (∃ listed permissions, fs.stat (root.child name) = .ok (.directory listed permissions)) →
            contribution? fs options classifier root (name, node) = none) := by
  -- Without a slash in any line, the patterns look at the last name of a path only.
  have hnames : ∀ glob ∈ options.ignore.globs, IgnoreList.IsForNames glob := by
    intro glob hglob
    rw [hignore] at hglob
    exact IgnoreList.isForNames_of_mem_offerAll hlines hglob
  constructor
  · obtain ⟨report, hreport⟩ : ∃ report, scan fs options classifier root = .ok report :=
      scan_isOk_iff.2 (canList_iff.2 ⟨entries, hlisting⟩)
    have hrecorded : report =
        Report.empty.recordAll (recordingsOf fs options classifier root (fs.entriesBelow root)) :=
      scan_eq_recordAll hfs hreport
    -- What is recorded for an entry and the places below it makes the report of that entry.
    have hparts : (entries.map fun entry =>
          (contribution? fs options classifier root entry).getD 0) =
        entries.map fun entry =>
          Report.empty.recordAll (recordingsOf fs options classifier root (entryPlaces entry)) :=
      List.map_congr_left fun entry hentry => getD_contribution? hfs hlisting hnames hentry
    rw [hreport, hrecorded, recordingsOf_entriesBelow hlisting, Report.recordAll_flatMap_eq_sum,
      Report.sum_filterMap, hparts]
  · intro name node hentry
    refine ⟨?entered, ?passed, ?linked⟩
    case entered =>
      intro hkind hname hlist
      obtain ⟨report, hreport⟩ := scan_isOk_iff.2 hlist
      refine ⟨report, hreport, ?_⟩
      rw [contribution?_of_eq hkind, hname, hreport]
      rfl
    case passed =>
      rintro hkind (hname | hlist)
      · rw [contribution?_of_eq hkind, if_pos hname]
      · rw [contribution?_of_eq hkind]
        split
        · rfl
        · exact toOption_scan_eq_none hlist
    case linked =>
      rintro hkind ⟨listed, permissions, hstat⟩
      exact contribution?_of_link hkind hstat

/-- A file, a link to it, a directory that is left out, one that cannot be listed, and one that is
walked into, with a link to it. -/
def mixedEntries : List (Name × Node) :=
  let file : Node := .file (.data (Utf8.ofString "int x;\n")) .all
  [(Utf8.ofString "a.c", file), (Utf8.ofString "alias.c", .link (Utf8.ofString "a.c")),
    (Utf8.ofString "CVS", .directory [(Utf8.ofString "b.c", file)] .all),
    (Utf8.ofString "locked", .directory [(Utf8.ofString "c.c", file)] ⟨false, true, true⟩),
    (Utf8.ofString "lib", .directory [(Utf8.ofString "d.c", file), (Utf8.ofString "d.h", file)] .all),
    (Utf8.ofString "shortcut", .link (Utf8.ofString "lib"))]

def mixedFiles : FileSystem := ⟨.directory mixedEntries .all, []⟩

/-- Everything is counted but headers. -/
def withoutHeaders : SurveyOptions := ⟨[], none, IgnoreList.empty.offerAll ["*.h".toList]⟩

theorem wellFormed_mixedFiles : mixedFiles.root.WellFormed := by decide

/-- Of the files of the tree three are counted: the two of the root and one in `lib`. The directory
that is left out adds nothing, and a survey of it counts its file. -/
theorem scan_eq_sum_mixedFiles :
    mixedFiles.root.WellFormed ∧ (∀ line ∈ ["*.h".toList], '/' ∉ line) ∧
      (∃ report, scan mixedFiles withoutHeaders .builtin (.ofString "/") = .ok report ∧
        report.files.get? "C" = some (.ofNat 3) ∧ report.tally = .ofNat 3) ∧
      ∃ report, scan mixedFiles withoutHeaders .builtin (.ofString "/CVS") = .ok report ∧
        report.files.get? "C" = some (.ofNat 1) := by
  have hlines : ∀ line ∈ ["*.h".toList], '/' ∉ line := by decide
  have hignore : withoutHeaders.ignore = IgnoreList.empty.offerAll ["*.h".toList] := rfl
  have hroot : mixedFiles.listing (.ofString "/") = .ok mixedEntries := by cbv
  have hleftOut : mixedFiles.listing (.ofString "/CVS") =
      .ok [(Utf8.ofString "b.c", .file (.data (Utf8.ofString "int x;\n")) .all)] := by cbv
  obtain ⟨hsum, -⟩ := scan_eq_sum .builtin wellFormed_mixedFiles hlines hignore hroot
  obtain ⟨hsum', -⟩ := scan_eq_sum .builtin wellFormed_mixedFiles hlines hignore hleftOut
  refine ⟨wellFormed_mixedFiles, hlines, ⟨_, hsum, ?_, ?_⟩, _, hsum', ?_⟩
  · cbv
  · cbv
  · cbv

end Survey

end SourceSurvey
