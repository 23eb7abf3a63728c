import Mathlib
import SourceSurvey.Proofs.FileSystem.Deleting
import SourceSurvey.Proofs.FileSystem.Direct
import SourceSurvey.Proofs.Survey.Reached

/-!
# Leaving out is deleting

What a survey leaves out, the directories with certain names and the files that are ignored, could
as well be deleted (`Survey.pruned`): the survey that leaves nothing out then counts the same files
and gives the same report (`Survey.scan_pruned`). There must be no symbolic links below the root,
for a link can lead to a file that is deleted; and the root has to stay where it is. It does if its
path is direct (`Survey.realPlace?_pruned`), but a path with two dots may lead through what is
deleted, and then there is nothing to survey (`Survey.scan_pruned_detour`).

Both surveys are compared at each place. Places that survive the deletion lead to the same files
before and after it, with the same permissions on the way (`IsWithout.stat_descend`), and a file
survives exactly when it is neither below a directory that is left out nor ignored
(`Survey.survives_iff`).
-/

set_option autoImplicit false

namespace SourceSurvey

namespace Survey

/-- Whether a node is deleted: a directory with a name that is left out, or a regular file that is
ignored. -/
def isDeleted (exclude : List String) (ignore : IgnoreList) (place : List Name) (node : Node) :
    Bool :=
  match node with
  | .directory .. => isExcludedName exclude (place.getLastD [])
  | .file .. => ignore.ignores (Path.ofPlace place)
  | _ => false

/-- The file system in which everything below the root is deleted that a survey leaves out. -/
def pruned (fs : FileSystem) (options : SurveyOptions) (root : Path) : FileSystem :=
  match fs.find root true with
  | .ok trail =>
    fs.modifyEntriesAt trail (Node.entriesWithout (isDeleted options.exclude options.ignore) [])
  | .error _ => fs

end Survey

/-! ## Two file systems side by side -/

/-- `IsWithout drop root node fs fs'`: in `fs` the root leads to `node`, a well-formed tree without
links, and in `fs'` to what is left of it. -/
structure IsWithout (drop : List Name → Node → Bool) (root : Path) (node : Node)
    (fs fs' : FileSystem) : Prop where
  wellFormed : node.WellFormed
  linkFree : node.LinkFree
  find_before : ∃ trail, fs.find root true = .ok trail ∧ trail.node fs.root = node
  find_after : ∃ trail, fs'.find root true = .ok trail ∧ trail.node fs'.root = node.without drop []

namespace IsWithout

variable {drop : List Name → Node → Bool} {root : Path} {node : Node} {fs fs' : FileSystem}
variable {place : List Name}

theorem stat_root (h : IsWithout drop root node fs fs') : fs.stat root = .ok node :=
  FileSystem.stat_eq_ok_iff.2 h.find_before

theorem stat_root_after (h : IsWithout drop root node fs fs') :
    fs'.stat root = .ok (node.without drop []) :=
  FileSystem.stat_eq_ok_iff.2 h.find_after

/-- A path to a surviving place leads to what is left of what it led to. -/
theorem stat_descend (h : IsWithout drop root node fs fs')
    (hsurvives : node.Survives drop [] place) :
    fs'.stat (root.descend place) =
      (fs.stat (root.descend place)).map (Node.without drop place) := by
  by_cases hne : place = []
  · subst hne
    rw [Path.descend_nil, h.stat_root, h.stat_root_after]
    rfl
  · obtain ⟨trail, hfind, hnode⟩ := h.find_before
    obtain ⟨trail', hfind', hnode'⟩ := h.find_after
    obtain ⟨x, hx⟩ := hsurvives.exists_descend?
    have hplace := (h.wellFormed.of_descend? hx).1
    rw [FileSystem.stat_descend hfind (hnode ▸ h.linkFree) hplace hne,
      FileSystem.stat_descend hfind' (hnode' ▸ h.linkFree.without []) hplace hne, hnode, hnode',
      Node.follow_without h.wellFormed hsurvives]
    cases (root.descend place).refusal? <;> rfl

/-- What survives can be listed afterwards exactly if it could be before. -/
theorem canList_descend (h : IsWithout drop root node fs fs')
    (hsurvives : node.Survives drop [] place) :
    fs'.canList (root.descend place) = fs.canList (root.descend place) := by
  simp only [FileSystem.canList, FileSystem.listing, h.stat_descend hsurvives]
  cases fs.stat (root.descend place) with
  | error cause => rfl
  | ok x =>
    cases x with
    | directory entries permissions =>
      simp only [Except.map, Node.without]
      split <;> rfl
    | file content permissions => rfl
    | link target => rfl
    | special kind => rfl

theorem exists?_descend (h : IsWithout drop root node fs fs')
    (hsurvives : node.Survives drop [] place) :
    fs'.exists? (root.descend place) = fs.exists? (root.descend place) := by
  rw [FileSystem.exists?, FileSystem.exists?, h.stat_descend hsurvives]
  cases fs.stat (root.descend place) <;> rfl

theorem openForReading_descend (h : IsWithout drop root node fs fs')
    (hsurvives : node.Survives drop [] place) :
    fs'.openForReading (root.descend place) = fs.openForReading (root.descend place) := by
  simp only [FileSystem.openForReading, h.stat_descend hsurvives]
  cases fs.stat (root.descend place) with
  | error cause => rfl
  | ok x =>
    cases x with
    | special kind => cases kind <;> rfl
    | directory entries permissions => rfl
    | file content permissions => rfl
    | link target => rfl

theorem countFile_descend (h : IsWithout drop root node fs fs')
    (hsurvives : node.Survives drop [] place) :
    countFile fs' (root.descend place) = countFile fs (root.descend place) := by
  rw [countFile, countFile, h.openForReading_descend hsurvives]

end IsWithout

/-! ## What is counted -/

namespace Survey

section Counted

variable {exclude : List String} {ignore : IgnoreList}

theorem isDeleted_of_kind {above : List Name} {name : Name} {node : Node}
    (h : node.kind = .directory) :
    isDeleted exclude ignore (above ++ [name]) node = isExcludedName exclude name := by
  cases node with
  | directory entries permissions => rw [isDeleted, List.getLastD_concat]
  | file content permissions => cases h
  | link target => cases h
  | special kind => cases h

/-- Without names to leave out, fewer directories are left out. -/
theorem isExcludedName_nil {name : Name} (h : isExcludedName exclude name = false) :
    isExcludedName [] name = false := by
  revert h
  unfold isExcludedName
  cases Utf8.toString? name with
  | none => exact id
  | some text => simp +contextual

/-- A file survives exactly when it is below no directory that is left out and is not ignored. -/
theorem survives_iff {node : Node} {above place : List Name} {x : Node} (hne : place ≠ [])
    (hx : node.descend? place = some x) (hkind : x.kind = .file) :
    node.Survives (isDeleted exclude ignore) above place ↔
      (∀ name ∈ place.dropLast, isExcludedName exclude name = false) ∧
        ignore.ignores (Path.ofPlace (above ++ place)) = false := by
  -- The induction goes down the place, with the directories passed so far kept in front of it.
  induction place generalizing node above with
  | nil => exact absurd rfl hne
  | cons name place ih =>
    cases node with
    | directory entries permissions =>
      obtain ⟨child, hchild, hx⟩ := Option.bind_eq_some_iff.1 hx
      have hcons : (Node.directory entries permissions).Survives (isDeleted exclude ignore) above
          (name :: place) ↔ isDeleted exclude ignore (above ++ [name]) child = false ∧
            child.Survives (isDeleted exclude ignore) (above ++ [name]) place := by
        constructor
        · rintro (_ | ⟨hchild', hdrop, h⟩)
          rw [hchild, Option.some.injEq] at hchild'
          subst hchild'
          exact ⟨hdrop, h⟩
        · rintro ⟨hdrop, h⟩
          exact .entry hchild hdrop h
      rw [hcons]
      by_cases hplace : place = []
      -- The file itself.
      · subst hplace
        rw [Node.descend?_nil, Option.some.injEq] at hx
        subst hx
        cases child with
        | file content permissions => simp [isDeleted, Node.Survives.here]
        | directory entries permissions => cases hkind
        | link target => cases hkind
        | special kind => cases hkind
      -- A directory on the way.
      · have hdirectory : child.kind = .directory := by
          obtain ⟨next, rest, rfl⟩ := List.exists_cons_of_ne_nil hplace
          cases child with
          | directory entries permissions => rfl
          | file content permissions => cases hx
          | link target => cases hx
          | special kind => cases hx
        rw [isDeleted_of_kind hdirectory, ih hplace hx, List.dropLast_cons_of_ne_nil hplace,
          List.forall_mem_cons, and_assoc, List.append_assoc]
        rfl
    | file content permissions => cases hx
    | link target => cases hx
    | special kind => cases hx

variable {fs fs' : FileSystem} {options : SurveyOptions} {classifier : Classifier} {root : Path}
variable {node : Node}

/-- A file that survives is counted before the deletion exactly when it is counted after it. -/
theorem isCounted_iff (h : IsWithout (isDeleted options.exclude options.ignore) root node fs fs')
    {place : List Name} {x : Node} (hne : place ≠ []) (hx : node.descend? place = some x)
    (hkind : x.kind = .file)
    (hsurvives : node.Survives (isDeleted options.exclude options.ignore) [] place) :
    IsCounted fs options classifier root place .file ↔
      IsCounted fs' ⟨[], options.language, .empty⟩ classifier root place .file := by
  obtain ⟨hkept, hignore⟩ := (survives_iff hne hx hkind).1 hsurvives
  -- The directories on the way have survived too, so they can be listed after the deletion as
  -- before.
  have hlisted : ∀ above ∈ place.dropLast.inits,
      fs'.canList (root.descend above) = fs.canList (root.descend above) := by
    intro above ha
    obtain ⟨rest, hrest⟩ := ((List.mem_inits _ _).1 ha).trans (List.dropLast_prefix _)
    have habove : node.Survives (isDeleted options.exclude options.ignore) [] (above ++ rest) := by
      rwa [hrest]
    exact h.canList_descend habove.of_append
  have hfile : IsFile fs' (root.descend place) .file ↔ IsFile fs (root.descend place) .file := by
    simp [IsFile, h.exists?_descend hsurvives]
  constructor
  -- What is reached and kept stays so with fewer names to leave out; nothing is ignored any more.
  · intro hcounted
    refine ⟨⟨?_, ?_⟩, hfile.2 hcounted.isFile, rfl, hcounted.wanted⟩
    · intro above ha
      rw [hlisted above ha]
      exact hcounted.reached.listed above ha
    · intro name hname
      exact isExcludedName_nil (hkept name hname)
  -- Having survived, the file is below no directory that is left out and is not ignored.
  · intro hcounted
    refine ⟨⟨?_, hkept⟩, hfile.1 hcounted.isFile, hignore, hcounted.wanted⟩
    intro above ha
    rw [← hlisted above ha]
    exact hcounted.reached.listed above ha

/-- Where there are no links, only regular files are counted. -/
theorem mem_countedEntries_of_linkFree (hfs : fs.root.WellFormed) (hstat : fs.stat root = .ok node)
    (hfree : node.LinkFree) (place : List Name) (kind : Kind) :
    (place, kind) ∈ countedEntries fs options classifier root ↔
      kind = .file ∧ place ≠ [] ∧ (∃ x, node.descend? place = some x ∧ x.kind = .file) ∧
        IsCounted fs options classifier root place .file := by
  rw [countedEntries, List.mem_filter, decide_eq_true_eq, mem_entriesBelow hfs]
  constructor
  · rintro ⟨⟨hne, node', x, hnode', hx, rfl⟩, hcounted⟩
    rw [hstat, Except.ok.injEq] at hnode'
    subst hnode'
    rcases hcounted.isFile with ⟨hkind, -⟩ | ⟨hkind, -⟩
    · refine ⟨hkind, hne, ⟨x, hx, hkind⟩, ?_⟩
      rwa [hkind] at hcounted
    · exact absurd hkind (hfree.of_descend? hx).kind_ne
  · rintro ⟨rfl, hne, ⟨x, hx, hkind⟩, hcounted⟩
    exact ⟨⟨hne, node, x, hstat, hx, hkind⟩, hcounted⟩

/-- A file that is counted survives. -/
theorem survives_of_isCounted {place : List Name} {x : Node} (hne : place ≠ [])
    (hx : node.descend? place = some x) (hkind : x.kind = .file)
    (h : IsCounted fs options classifier root place .file) :
    node.Survives (isDeleted options.exclude options.ignore) [] place :=
  (survives_iff hne hx hkind).2 ⟨h.reached.kept, h.notIgnored⟩

/-- The same entries are counted before and after the deletion. -/
theorem mem_countedEntries_iff
    (h : IsWithout (isDeleted options.exclude options.ignore) root node fs fs')
    (hfs : fs.root.WellFormed) (hfs' : fs'.root.WellFormed) (e : List Name × Kind) :
    e ∈ countedEntries fs options classifier root ↔
      e ∈ countedEntries fs' ⟨[], options.language, .empty⟩ classifier root := by
  obtain ⟨place, kind⟩ := e
  rw [mem_countedEntries_of_linkFree hfs h.stat_root h.linkFree,
    mem_countedEntries_of_linkFree hfs' h.stat_root_after (h.linkFree.without [])]
  -- What is left of a file is a file, so the kinds agree; it remains to compare the places.
  apply and_congr_right
  intro _
  apply and_congr_right
  intro hne
  constructor
  · rintro ⟨⟨x, hx, hkind⟩, hcounted⟩
    have hsurvives := survives_of_isCounted hne hx hkind hcounted
    refine ⟨⟨_, (Node.descend?_without h.wellFormed).2 ⟨hsurvives, x, hx, rfl⟩, ?_⟩,
      (isCounted_iff h hne hx hkind hsurvives).1 hcounted⟩
    rwa [Node.kind_without]
  · rintro ⟨⟨y, hy, hkind⟩, hcounted⟩
    obtain ⟨hsurvives, x, hx, rfl⟩ := (Node.descend?_without h.wellFormed).1 hy
    rw [Node.kind_without] at hkind
    exact ⟨⟨x, hx, hkind⟩, (isCounted_iff h hne hx hkind hsurvives).2 hcounted⟩

/-- The two surveys record the same, up to the order. -/
theorem recordings_perm (h : IsWithout (isDeleted options.exclude options.ignore) root node fs fs')
    (hfs : fs.root.WellFormed) (hfs' : fs'.root.WellFormed) :
    ((countedEntries fs options classifier root).flatMap fun e =>
        fileRecordings fs classifier (root.descend e.1)).Perm
      ((countedEntries fs' ⟨[], options.language, .empty⟩ classifier root).flatMap fun e =>
        fileRecordings fs' classifier (root.descend e.1)) := by
  have hperm : (countedEntries fs options classifier root).Perm
      (countedEntries fs' ⟨[], options.language, .empty⟩ classifier root) :=
    (List.perm_ext_iff_of_nodup ((nodup_entriesBelow hfs).filter _)
      ((nodup_entriesBelow hfs').filter _)).2 (mem_countedEntries_iff h hfs hfs')
  apply hperm.flatMap
  intro e he
  obtain ⟨-, hne, ⟨x, hx, hkind⟩, hcounted⟩ :=
    (mem_countedEntries_of_linkFree hfs h.stat_root h.linkFree e.1 e.2).1 he
  rw [fileRecordings, fileRecordings,
    h.countFile_descend (survives_of_isCounted hne hx hkind hcounted)]

end Counted

/-! ## The survey after the deletion -/

section Pruned

variable {fs : FileSystem} {options : SurveyOptions} {classifier : Classifier} {root : Path}

/-- A tree stays well formed when entries are deleted. -/
theorem wellFormed_pruned (hfs : fs.root.WellFormed) :
    (pruned fs options root).root.WellFormed := by
  unfold pruned
  split
  · apply FileSystem.wellFormed_modifyEntriesAt hfs
    intro entries permissions h
    exact h.without []
  · exact hfs

/-- A root with a direct path stays where it is. -/
theorem realPlace?_pruned {trail : Trail} (h : fs.IsDirect root trail) :
    (pruned fs options root).realPlace? root = fs.realPlace? root := by
  rw [pruned, h.find_eq]
  exact h.realPlace?_modifyEntriesAt _

/-- If the root stays where it is, it leads to what is left of what it led to. -/
theorem isWithout_pruned (hfs : fs.root.WellFormed) {entries : List (Name × Node)}
    (hroot : fs.listing root = .ok entries) (hfree : ∀ e ∈ entries, e.2.LinkFree)
    (hsame : (pruned fs options root).realPlace? root = fs.realPlace? root) :
    ∃ node, IsWithout (isDeleted options.exclude options.ignore) root node fs
      (pruned fs options root) := by
  obtain ⟨permissions, hstat⟩ := exists_stat_of_listing hroot
  obtain ⟨trail, hfind, hnode⟩ := FileSystem.stat_eq_ok_iff.1 hstat
  have hway := (FileSystem.isWay_of_find hfind).descend?_place
  rw [hnode] at hway
  -- What is left of the directory stands at the same place, and the root still leads there.
  have hpruned : (pruned fs options root).root.descend? trail.place =
      some (.directory (Node.entriesWithout (isDeleted options.exclude options.ignore) [] entries)
        permissions) := by
    have hchanged := Node.descend?_modifyEntries
      (Node.entriesWithout (isDeleted options.exclude options.ignore) []) trail.place [] fs.root
    rw [List.append_nil, hway] at hchanged
    rw [pruned, hfind]
    exact hchanged
  -- The root is found again, since its real place is known to be the same.
  cases hfind' : (pruned fs options root).find root true with
  | error cause =>
    rw [FileSystem.realPlace?, FileSystem.realPlace?, hfind, hfind'] at hsame
    cases hsame
  | ok trail' =>
    rw [FileSystem.realPlace?, FileSystem.realPlace?, hfind, hfind'] at hsame
    have hplace : trail'.place = trail.place := Option.some.inj hsame
    refine ⟨.directory entries permissions, (hfs.of_descend? hway).2, .directory permissions hfree,
      ⟨trail, hfind, hnode⟩, trail', hfind', ?_⟩
    have hway' := (FileSystem.isWay_of_find hfind').descend?_place
    rw [hplace, hpruned] at hway'
    exact (Option.some.inj hway').symm

/-- Leaving out is deleting. A survey that leaves out directories and ignores files reports what
a survey reports that leaves out nothing, once those directories and files below the root are
deleted. The root must be one that can be listed, there must be no symbolic links below it, and its
path must still lead to the same place after the deletion. -/
theorem scan_pruned (fs : FileSystem) (options : SurveyOptions) (classifier : Classifier)
    (root : Path) (hfs : fs.root.WellFormed) {entries : List (Name × Node)}
    (hroot : fs.listing root = .ok entries) (hfree : ∀ e ∈ entries, e.2.LinkFree)
    (hsame : (pruned fs options root).realPlace? root = fs.realPlace? root) :
    ∃ report, scan fs options classifier root = .ok report ∧
      scan (pruned fs options root) ⟨[], options.language, .empty⟩ classifier root =
        .ok report := by
  obtain ⟨node, h⟩ := isWithout_pruned hfs hroot hfree hsame
  have hlist : fs.canList root = true := canList_iff.2 ⟨entries, hroot⟩
  have hlist' : (pruned fs options root).canList root = true :=
    (h.canList_descend (.here [] node)).trans hlist
  obtain ⟨report, hreport⟩ := scan_isOk_iff.2 hlist
  obtain ⟨report', hreport'⟩ := scan_isOk_iff.2 hlist'
  refine ⟨report, hreport, ?_⟩
  -- The same recordings are made in another order, so the reports are equal.
  rw [hreport', scan_eq_recordAll hfs hreport,
    scan_eq_recordAll (wellFormed_pruned hfs) hreport',
    Report.recordAll_perm _ (recordings_perm h hfs (wellFormed_pruned hfs))]

end Pruned

/-- The entries of a directory with a header and a directory of vendored code; a file bears the name
of that directory. -/
def vendoredEntries : List (Name × Node) :=
  [(Utf8.ofString "a.c", .file (.data (Utf8.ofString "int a;")) .all),
    (Utf8.ofString "a.h", .file (.data []) .all),
    (Utf8.ofString "vendor", .directory [(Utf8.ofString "b.c", .file (.data []) .all)] .all),
    (Utf8.ofString "lib", .directory [(Utf8.ofString "vendor", .file (.data []) .all)] .all)]

/-- The file system with these entries at its root. -/
def vendoredFiles : FileSystem := ⟨.directory vendoredEntries .all, []⟩

/-- The vendored code is left out, and headers are ignored. -/
def vendoredOptions : SurveyOptions :=
  ⟨["vendor"], none, (IgnoreList.ofLines ["*.h".toList]).toOption.getD .empty⟩

theorem wellFormed_vendoredFiles : vendoredFiles.root.WellFormed := by decide

theorem linkFree_vendoredEntries : ∀ e ∈ vendoredEntries, e.2.LinkFree := by
  intro e he
  simp only [vendoredEntries, List.mem_cons, List.not_mem_nil, or_false] at he
  rcases he with rfl | rfl | rfl | rfl
  · exact .file _ _
  · exact .file _ _
  · exact .directory _ (by simpa using Node.LinkFree.file _ _)
  · exact .directory _ (by simpa using Node.LinkFree.file _ _)

/-- Surveyed from its root directory, the sample gives one report either way. -/
theorem scan_pruned_vendored :
    vendoredFiles.root.WellFormed ∧ (∀ e ∈ vendoredEntries, e.2.LinkFree) ∧
      ∃ report, scan vendoredFiles vendoredOptions .builtin ⟨[Path.slash]⟩ = .ok report ∧
        scan (pruned vendoredFiles vendoredOptions ⟨[Path.slash]⟩) ⟨[], none, .empty⟩ .builtin
          ⟨[Path.slash]⟩ = .ok report := by
  have hroot : vendoredFiles.listing ⟨[Path.slash]⟩ = .ok vendoredEntries := by cbv
  have hdirect : vendoredFiles.IsDirect ⟨[Path.slash]⟩ [] := by
    refine ⟨by decide, by decide, .directory rfl (.nil _ _), ?_⟩
    intro hrelative
    cases hrelative
  exact ⟨wellFormed_vendoredFiles, linkFree_vendoredEntries,
    scan_pruned vendoredFiles vendoredOptions .builtin ⟨[Path.slash]⟩ wellFormed_vendoredFiles hroot
      linkFree_vendoredEntries (realPlace?_pruned hdirect)⟩

/-- The root's path must not lead through what is deleted: from `vendor/..` the sample can be
surveyed, but not any more once `vendor` is gone. -/
theorem scan_pruned_detour :
    ¬ ∀ (fs : FileSystem) (options : SurveyOptions) (classifier : Classifier) (root : Path)
      (entries : List (Name × Node)), fs.root.WellFormed → fs.listing root = .ok entries →
      (∀ e ∈ entries, e.2.LinkFree) →
      scan fs options classifier root =
        scan (pruned fs options root) ⟨[], options.language, .empty⟩ classifier root := by
  intro h
  have hroot : vendoredFiles.listing ⟨Utf8.ofString "vendor/.."⟩ = .ok vendoredEntries := by cbv
  have hgone : (pruned vendoredFiles vendoredOptions ⟨Utf8.ofString "vendor/.."⟩).canList
      ⟨Utf8.ofString "vendor/.."⟩ = false := by cbv
  have hok : ∃ report, scan vendoredFiles vendoredOptions .builtin ⟨Utf8.ofString "vendor/.."⟩ =
      .ok report := scan_isOk_iff.2 (canList_iff.2 ⟨_, hroot⟩)
  obtain ⟨report, hreport⟩ := hok
  rw [h _ _ _ _ _ wellFormed_vendoredFiles hroot linkFree_vendoredEntries] at hreport
  rw [scan_isOk_iff.1 ⟨report, hreport⟩] at hgone
  cases hgone

end Survey

end SourceSurvey
