import SourceSurvey.Proofs.Config.Discovery
import SourceSurvey.Proofs.FileSystem.Destination

/-!
# The search for settings and the real directories

The search for settings goes up by the text of a path. In a tree without links a path leads where
its components say, and going up by the text takes the last component off. If that is a name, the
search goes to the directory that really holds the current one. If it is two dots, the search may go
down: the path without its two dots can lead to a directory inside the current one
(`discover_detour`).

So the search is among the directories that really hold the named one, and comes by all of them, as
long as no two dots have been taken off (`Path.ancestors_between`). A path that is written without
two dots has none to lose. The main statement is `discover_amongAncestors`.
-/

set_option autoImplicit false

namespace SourceSurvey

/-! ## Going up by the text -/

namespace Path

section Ancestors

variable {p q : Path}

/-- A path from the root is the root and then names and two dots. -/
theorem components_of_isRooted (h : p.isRooted = true) :
    ∃ rest, p.components = .root :: rest ∧ ∀ c ∈ rest, c = .up ∨ ∃ name, c = .name name := by
  refine ⟨(p.otherPieces.filter (!isNoise ·)).map .ofPiece, ?_, ?_⟩
  · rw [components, firstComponents, if_pos h]
    rfl
  · intro c hc
    obtain ⟨piece, -, rfl⟩ := List.mem_map.1 hc
    rw [Component.ofPiece]
    split
    · exact .inl rfl
    · exact .inr ⟨piece, rfl⟩

/-- The component that is taken off a path from the root is a name or two dots. -/
theorem components_parent?_of_isRooted (h : p.isRooted = true) (hparent : p.parent? = some q) :
    ∃ last, p.components = q.components ++ [last] ∧ (last = .up ∨ ∃ name, last = .name name) := by
  obtain ⟨last, hlast⟩ := components_parent? hparent
  refine ⟨last, hlast, ?_⟩
  obtain ⟨rest, hrest, hmoves⟩ := components_of_isRooted h
  obtain ⟨above, habove, -⟩ := components_of_isRooted ((isRooted_parent? hparent).trans h)
  rw [hrest, habove, List.cons_append, List.cons_inj_right] at hlast
  exact hmoves last (hlast ▸ List.mem_append_right above (List.mem_singleton_self last))

/-- Every directory above a path from the root is named by the beginning of the path. -/
theorem exists_components_eq_append (h : p.isRooted = true) (hq : q ∈ p.ancestors) :
    q.isRooted = true ∧ ∃ rest, p.components = q.components ++ rest := by
  induction p using ancestors.induct with
  | case1 p hnone =>
    rw [ancestors_of_none hnone, List.mem_singleton] at hq
    subst hq
    exact ⟨h, [], (List.append_nil _).symm⟩
  | case2 p parent hparent _ ih =>
    rw [ancestors_of_some hparent, List.mem_cons] at hq
    rcases hq with rfl | hq
    · exact ⟨h, [], (List.append_nil _).symm⟩
    · obtain ⟨hrooted, rest, hrest⟩ := ih ((isRooted_parent? hparent).trans h) hq
      obtain ⟨last, hlast⟩ := components_parent? hparent
      exact ⟨hrooted, rest ++ [last], by rw [hlast, hrest, List.append_assoc]⟩

/-- A path from the root with other pieces has no more inside than these. -/
theorem innerPieces_withPieces_isPrefix {pieces : List (List UInt8)} (h : p.isRooted = true)
    (hslash : ∀ piece ∈ pieces, slash ∉ piece) :
    (p.withPieces pieces).innerPieces <+: trimNoise pieces := by
  by_cases hnil : trimNoise pieces = []
  · rw [withPieces, hnil]
    dsimp only
    rw [if_pos h]
    exact List.nil_prefix
  · have hsplit : split (p.withPieces pieces).bytes = (p.firstPiece, trimNoise pieces) := by
      rw [withPieces_eq_join hnil]
      refine split_join (List.forall_mem_cons.2 ⟨p.slash_notMem_firstPiece, fun x hx => ?_⟩)
      exact hslash x ((isPrefix_trimNoise pieces).mem hx)
    rw [innerPieces, otherPieces, hsplit]
    split
    · exact List.dropLast_prefix _
    · exact List.prefix_refl _

/-- The steps of the parent are the first steps of the path. -/
theorem innerSteps_parent? (h : p.isRooted = true) (hparent : p.parent? = some q) :
    q.innerSteps <+: p.innerSteps := by
  rcases parent?_cases hparent with ⟨hrooted, -⟩ | ⟨hp, pieces, piece, htrim, -, hslash, rfl⟩
  · rw [h] at hrooted
    cases hrooted
  · obtain ⟨-, others, hsplit, -⟩ := split_withPieces hp hslash
    have hfirst : (p.withPieces pieces).firstPiece = p.firstPiece := by rw [firstPiece, hsplit]
    have hpieces : trimNoise pieces <+: p.innerPieces := by
      rw [trimNoise_otherPieces] at htrim
      have hbefore : pieces <+: trimNoise p.innerPieces := htrim ▸ List.prefix_append _ _
      exact (isPrefix_trimNoise pieces).trans (hbefore.trans (isPrefix_trimNoise _))
    have hinner := (innerPieces_withPieces_isPrefix h hslash).trans hpieces
    rw [innerSteps, innerSteps, hfirst]
    exact ((List.prefix_cons_inj _).2 hinner).filterMap _

theorem innerSteps_isPrefix (h : p.isRooted = true) (hq : q ∈ p.ancestors) :
    q.innerSteps <+: p.innerSteps := by
  induction p using ancestors.induct with
  | case1 p hnone =>
    rw [ancestors_of_none hnone, List.mem_singleton] at hq
    rw [hq]
  | case2 p parent hparent _ ih =>
    rw [ancestors_of_some hparent, List.mem_cons] at hq
    rcases hq with rfl | hq
    · exact List.prefix_refl _
    · exact (ih ((isRooted_parent? hparent).trans h) hq).trans (innerSteps_parent? h hparent)

/-- Going up by the text leads to the directory that holds the current one, unless two dots are
taken off. -/
theorem destination_parent? {last : Component} (h : p.isRooted = true) (hparent : p.parent? = some q)
    (hlast : p.components = q.components ++ [last]) (hup : last ≠ .up) :
    ∃ name, p.destination [] = q.destination [] ++ [name] := by
  obtain ⟨last', hlast', hmove⟩ := components_parent?_of_isRooted h hparent
  -- Both name the one component that the parent lacks.
  rw [hlast', List.append_cancel_left_eq, List.singleton_inj] at hlast
  obtain ⟨name, rfl⟩ := (hlast ▸ hmove).resolve_left hup
  refine ⟨name, ?_⟩
  rw [destination, hlast', hlast, List.foldl_append]
  rfl

/-- Going up comes by every directory between, unless two dots are taken off. On the way from a path
up to a path above it, each directory that holds the one before has its turn. -/
theorem ancestors_between {before after : List Path} {rest : List Component} (h : p.isRooted = true)
    (hq : p.ancestors = before ++ q :: after) (hrest : p.components = q.components ++ rest)
    (hup : .up ∉ rest) :
    q.destination [] <+: p.destination [] ∧
      ∀ between, q.destination [] <+: between → between <+: p.destination [] →
        between ≠ q.destination [] → ∃ p' ∈ before, p'.destination [] = between := by
  -- The induction goes up the text of the path, as the search does.
  induction p using ancestors.induct generalizing before rest with
  | case1 p hnone =>
    rw [ancestors_of_none hnone, List.singleton_eq_append_iff] at hq
    obtain ⟨rfl, hq⟩ | ⟨-, hq⟩ := hq
    · cases hq
      refine ⟨List.prefix_refl _, fun between habove hbelow hne => ?_⟩
      exact absurd (hbelow.eq_of_length_le habove.length_le) hne
    · cases hq
  | case2 p parent hparent _ ih =>
    rw [ancestors_of_some hparent, List.cons_eq_append_iff] at hq
    obtain ⟨rfl, hq⟩ | ⟨before', rfl, hq⟩ := hq
    · cases hq
      refine ⟨List.prefix_refl _, fun between habove hbelow hne => ?_⟩
      exact absurd (hbelow.eq_of_length_le habove.length_le) hne
    · have hrooted := (isRooted_parent? hparent).trans h
      have hmem : q ∈ parent.ancestors := by simp [hq]
      obtain ⟨-, rest', hrest'⟩ := exists_components_eq_append hrooted hmem
      -- The parent lacks the last component of the path, which is the last of the rest as well.
      obtain ⟨last, hlast⟩ := components_parent? hparent
      rw [hlast, hrest', List.append_assoc, List.append_cancel_left_eq] at hrest
      subst hrest
      rw [List.mem_append, not_or, List.mem_singleton] at hup
      obtain ⟨name, hname⟩ := destination_parent? h hparent hlast (Ne.symm hup.2)
      obtain ⟨hdown, hbetween⟩ := ih hrooted hq hrest' hup.1
      rw [hname]
      refine ⟨hdown.trans (List.prefix_append _ _), fun between habove hbelow hne => ?_⟩
      -- The place of the path itself is the last one; the others are between the parent and `q`.
      rcases List.prefix_concat_iff.1 hbelow with rfl | hbelow
      · exact ⟨p, List.mem_cons_self, hname⟩
      · obtain ⟨p', hp', hplace⟩ := hbetween between habove hbelow hne
        exact ⟨p', List.mem_cons_of_mem _ hp', hplace⟩

end Ancestors

/-! ## Two dots in a path -/

section Up

variable {p q : Path}

/-- Two dots are a component exactly where they are a piece. -/
theorem up_mem_components_iff : .up ∈ p.components ↔ [dot, dot] ∈ p.firstPiece :: p.otherPieces := by
  have hpiece : ∀ piece, Component.ofPiece piece = .up ↔ piece = [dot, dot] := by
    intro piece
    rw [Component.ofPiece]
    split <;> simp_all
  have hothers : .up ∈ (p.otherPieces.filter (!isNoise ·)).map Component.ofPiece ↔
      [dot, dot] ∈ p.otherPieces := by
    simp only [List.mem_map, List.mem_filter, hpiece, exists_eq_right]
    exact and_iff_left rfl
  have hfirst : .up ∈ p.firstComponents ↔ [dot, dot] = p.firstPiece := by
    rw [firstComponents]
    by_cases hrooted : p.isRooted = true
    · have hempty := isRooted_eq (bytes_ne_nil_of_isRooted hrooted)
      rw [hrooted, eq_comm, decide_eq_true_eq] at hempty
      simp [hrooted, hempty]
    · rw [if_neg hrooted]
      split
      · simp_all
      split
      · simp_all
      · rw [List.mem_singleton, eq_comm, hpiece, eq_comm]
  rw [components, List.mem_append, List.mem_cons, hothers, hfirst]

end Up

end Path

/-! ## Where the search begins -/

namespace FileSystem

variable {fs : FileSystem}

/-- The working directory is the root with its names behind it. -/
theorem cwdPath_eq_descend (hcwd : ∀ name ∈ fs.cwd, ProperName name) :
    fs.cwdPath = (⟨[Path.slash]⟩ : Path).descend fs.cwd := by
  rw [cwdPath]
  split
  · rename_i hnil
    rw [hnil]
    rfl
  · rename_i hne
    have hbytes := Path.bytes_descend (p := ⟨[Path.slash]⟩) (List.cons_ne_nil _ _) hcwd hne
    exact congrArg Path.mk hbytes.symm

theorem destination_cwdPath (hcwd : ∀ name ∈ fs.cwd, ProperName name) :
    fs.cwdPath.destination [] = fs.cwd := by
  rw [cwdPath_eq_descend hcwd, Path.destination_descend (List.cons_ne_nil _ _) hcwd]
  rfl

theorem innerSteps_cwdPath (hcwd : ∀ name ∈ fs.cwd, ProperName name) :
    fs.cwdPath.innerSteps = fs.cwd.map .name := by
  rw [cwdPath_eq_descend hcwd, Path.innerSteps_descend (List.cons_ne_nil _ _) hcwd]
  rfl

end FileSystem

namespace Config

section Start

variable {fs : FileSystem} {directory : Path} {trail : Trail}

/-- Two dots in the path that the search begins with are those of the directory. -/
theorem up_mem_searchStart (hcwd : ∀ name ∈ fs.cwd, ProperName name)
    (h : .up ∈ (searchStart fs directory).components) : .up ∈ directory.components := by
  rw [searchStart] at h
  split at h
  · exact h
  · rename_i hrelative
    rw [Bool.not_eq_true] at hrelative
    have hroot : (⟨[Path.slash]⟩ : Path).bytes ≠ [] := List.cons_ne_nil _ _
    have hne := Path.bytes_ne_nil_of_isRooted fs.isRooted_cwdPath
    rw [Path.up_mem_components_iff, Path.firstPiece, Path.otherPieces,
      Path.split_append hne hrelative, fs.cwdPath_eq_descend hcwd,
      Path.firstPiece_descend hroot hcwd, Path.innerPieces_descend hroot hcwd, List.mem_cons,
      List.append_assoc, List.mem_append, List.mem_append] at h
    rw [Path.up_mem_components_iff]
    -- Neither the root nor a name of the working directory is two dots.
    rcases h with h | h | h | h
    · cases h
    · cases h
    · exact absurd rfl (hcwd _ h).ne_dots
    · exact h

/-- The search begins at the directory that is named. The path that it begins with leads from the
root to the place of that directory. -/
theorem searchStart_leads (hwf : fs.root.WellFormed) (hfree : fs.root.LinkFree) {x : Node}
    (hcwd : fs.root.descend? fs.cwd = some x) (h : fs.find directory true = .ok trail) :
    (searchStart fs directory).destination [] = trail.place ∧
      Treads fs.root [] (searchStart fs directory).steps := by
  obtain ⟨-, left, hfollows⟩ := FileSystem.follows_of_find h
  have htreads := hfollows.treads hfree (fs.isWay_start directory)
  rw [FileSystem.place_start hcwd] at htreads
  rw [FileSystem.place_eq_destination hfree hcwd h, searchStart]
  -- A relative name is put behind the working directory, whose own path treads down its names.
  by_cases hrooted : directory.isRooted = true
  · rw [if_pos hrooted] at htreads
    rw [if_pos hrooted]
    exact ⟨(Path.destination_of_isRooted hrooted _).symm, htreads⟩
  · rw [if_neg hrooted] at htreads
    rw [if_neg hrooted]
    rw [Bool.not_eq_true] at hrooted
    have hne := FileSystem.bytes_ne_nil_of_find h
    have hcwdRooted := fs.isRooted_cwdPath
    have hcwdNe := Path.bytes_ne_nil_of_isRooted hcwdRooted
    have hcwdNames := (hwf.of_descend? hcwd).1
    have hcwdPlace := fs.destination_cwdPath hcwdNames
    have hcwdSteps := Path.foldl_move_innerSteps hcwdNe []
    rw [if_pos hcwdRooted, hcwdPlace] at hcwdSteps
    rw [Path.destination_append hcwdNe hrooted hne, hcwdPlace,
      Path.steps_append hcwdNe hrooted hne, treads_append, hcwdSteps,
      fs.innerSteps_cwdPath hcwdNames]
    exact ⟨rfl, treads_names [] hcwd, htreads⟩

end Start

/-! ## The settings of real ancestors -/

/-- The name of a settings file. -/
def settingsName : Name := Utf8.ofString fileName

theorem properName_settingsName : ProperName settingsName := by decide

theorem fileIn_eq_child (directory : Path) : fileIn directory = directory.child settingsName := rfl

section RealAncestors

variable {fs : FileSystem} {directory file : Path} {trail : Trail}

/-- The settings file of a directory above the beginning of the search is read as what stands at its
place, unless the system refuses the path. -/
theorem stat_fileIn (hfree : fs.root.LinkFree) {start above : Path} (hrooted : start.isRooted = true)
    (htreads : Treads fs.root [] start.steps) (habove : above ∈ start.ancestors) {x : Node}
    (hx : fs.root.descend? (above.destination [] ++ [settingsName]) = some x) :
    fs.stat (fileIn above) = .ok x ∨
      ∃ cause, fs.stat (fileIn above) = .error cause ∧ cause.IsRefusal := by
  have haboveRooted := (Path.exists_components_eq_append hrooted habove).1
  have hne := Path.bytes_ne_nil_of_isRooted haboveRooted
  have hname := properName_settingsName
  have hnames : ∀ name ∈ [settingsName], ProperName name := by simpa using hname
  have hchild := Path.descend_cons above settingsName []
  rw [Path.descend_nil] at hchild
  -- The way to the file is that to the directory with one name more.
  have hsteps : (above.child settingsName).steps = above.innerSteps ++ [.name settingsName] := by
    rw [← hchild, Path.steps_descend hne hnames (List.cons_ne_nil _ _)]
    rfl
  have hplace := Path.foldl_move_innerSteps hne []
  rw [if_pos haboveRooted] at hplace
  rw [fileIn_eq_child]
  refine FileSystem.stat_of_treads hfree ?_ ?_ ?_
  · rw [Path.isRooted_child hne hname, haboveRooted]
  · -- The way to the directory is the first part of the way that begins the search.
    obtain ⟨rest, hrest⟩ := Path.innerSteps_isPrefix hrooted habove
    rw [Path.steps_eq, ← hrest, List.append_assoc, treads_append] at htreads
    rw [hsteps, treads_append, hplace]
    exact ⟨htreads.1, treads_names (above.destination []) hx⟩
  · rwa [Path.destination_child hne hname]

/-- Settings come from the directories that hold the named one. In a tree without links, with a
working directory that exists, let a search find a settings file for a directory that exists. Then
that file is the one that is read, and it is an entry of the directory that the path above leads to.
The path that the search began with goes on from there with some components. Two dots among them are
two dots in the name of the directory; without any, the directory of the file is the named one or
one that holds it, and no directory between the two has settings that the system lets the search
see. -/
theorem discover_amongAncestors (hwf : fs.root.WellFormed) (hfree : fs.root.LinkFree)
    (hcwd : ∃ node, fs.root.descend? fs.cwd = some node) (hdirectory : fs.find directory true = .ok trail)
    (hfile : discover fs directory = some file) :
    load fs directory = loadFile fs file ∧
      ∃ above ∈ (searchStart fs directory).ancestors, file = fileIn above ∧ ∃ rest,
        (searchStart fs directory).components = above.components ++ rest ∧
        fs.realPlace? file = some (above.destination [] ++ [settingsName]) ∧
        (.up ∈ rest → .up ∈ directory.components) ∧
        (.up ∉ rest →
          above.destination [] <+: trail.place ∧
          ∀ between, above.destination [] <+: between → between <+: trail.place →
            between ≠ above.destination [] → ∀ content permissions,
              fs.root.descend? (between ++ [settingsName]) = some (.file content permissions) →
                ∃ nearer ∈ (searchStart fs directory).ancestors, nearer.destination [] = between ∧
                  ∃ cause, fs.stat (fileIn nearer) = .error cause ∧ cause.IsRefusal) := by
  obtain ⟨x, hcwd⟩ := hcwd
  have hstart := isRooted_searchStart fs directory
  obtain ⟨hplace, htreads⟩ := searchStart_leads hwf hfree hcwd hdirectory
  refine ⟨by rw [load, hfile], ?_⟩
  rw [discover_eq] at hfile
  -- The file is that of the first ancestor with settings; those before it have none that the search
  -- sees.
  obtain ⟨above, hfind, rfl⟩ := Option.map_eq_some_iff.1 hfile
  obtain ⟨hsettings, before, after, hancestors, hbefore⟩ := List.find?_eq_some_iff_append.1 hfind
  have habove : above ∈ (searchStart fs directory).ancestors := by simp [hancestors]
  obtain ⟨haboveRooted, rest, hrest⟩ := Path.exists_components_eq_append hstart habove
  refine ⟨above, habove, rfl, rest, hrest, ?_, fun hup => ?_, fun hup => ?_⟩
  -- Without links the text of the path tells where the file is.
  · have hne := Path.bytes_ne_nil_of_isRooted haboveRooted
    have hname := properName_settingsName
    obtain ⟨content, permissions, hstat⟩ := of_decide_eq_true hsettings
    obtain ⟨found, hfound, -⟩ := FileSystem.stat_eq_ok_iff.1 hstat
    have hfoundPlace := FileSystem.place_eq_destination hfree hcwd hfound
    rw [fileIn_eq_child, Path.destination_child hne hname,
      Path.destination_of_isRooted haboveRooted] at hfoundPlace
    rw [FileSystem.realPlace?, hfound, ← hfoundPlace]
    rfl
  · exact up_mem_searchStart (hwf.of_descend? hcwd).1 (hrest ▸ List.mem_append_right _ hup)
  · obtain ⟨hdown, hbetween⟩ := Path.ancestors_between hstart hancestors hrest hup
    rw [hplace] at hdown hbetween
    refine ⟨hdown, fun between hfrom hto hne content permissions hx => ?_⟩
    obtain ⟨nearer, hnearer, rfl⟩ := hbetween between hfrom hto hne
    have hmem : nearer ∈ (searchStart fs directory).ancestors := by simp [hancestors, hnearer]
    refine ⟨nearer, hmem, rfl, ?_⟩
    -- If the file could be seen, the search would have ended there.
    refine (stat_fileIn hfree hstart htreads hmem hx).resolve_left fun hstat => ?_
    have hnone := hbefore nearer hnearer
    rw [Bool.not_eq_true', decide_eq_false_iff_not] at hnone
    exact hnone ⟨content, permissions, hstat⟩

end RealAncestors

/-- A tree with settings in `/a`, where the working directory is, and none elsewhere. -/
def nestedFiles : FileSystem :=
  let b : Node := .directory [(Utf8.ofString "x", .directory [] .all)] .all
  let a : Node := .directory [(settingsName, .file (.data []) .all), (Utf8.ofString "b", b)] .all
  ⟨.directory [(Utf8.ofString "a", a)] .all, [Utf8.ofString "a"]⟩

theorem wellFormed_nestedFiles : nestedFiles.root.WellFormed := by decide

theorem linkFree_nestedFiles : nestedFiles.root.LinkFree := by
  have hx : Node.LinkFree (.directory [] .all) := .directory _ (by simp)
  have hb : Node.LinkFree (.directory [(Utf8.ofString "x", .directory [] .all)] .all) :=
    .directory _ (by simpa using hx)
  exact .directory _ (by simpa using .directory _ (by simpa using ⟨.file _ _, hb⟩))

theorem exists_cwd_nestedFiles : ∃ node, nestedFiles.root.descend? nestedFiles.cwd = some node :=
  ⟨_, rfl⟩

/-- From `/a` up to the root and down to `/a/b/x` the path has two dots, but the search finds the
settings of `/a` before it takes them off. -/
theorem discover_amongAncestors_nested :
    nestedFiles.realPlace? (Path.ofString "../a/b/x") = some (["a", "b", "x"].map Utf8.ofString) ∧
      load nestedFiles (Path.ofString "../a/b/x") =
        loadFile nestedFiles (Path.ofString "/a/../a/.spelunk.toml") ∧
      nestedFiles.realPlace? (Path.ofString "/a/../a/.spelunk.toml") =
        some (["a"].map Utf8.ofString ++ [settingsName]) ∧
      ["a"].map Utf8.ofString <+: ["a", "b", "x"].map Utf8.ofString := by
  have hplace : nestedFiles.realPlace? (Path.ofString "../a/b/x") =
      some (["a", "b", "x"].map Utf8.ofString) := by cbv
  have hancestors : (searchStart nestedFiles (Path.ofString "../a/b/x")).ancestors =
      ["/a/../a/b/x", "/a/../a/b", "/a/../a", "/a/..", "/a", "/"].map Path.ofString := by cbv
  have hx : nestedFiles.isRegularFile (fileIn (Path.ofString "/a/../a/b/x")) = false := by cbv
  have hb : nestedFiles.isRegularFile (fileIn (Path.ofString "/a/../a/b")) = false := by cbv
  have ha : nestedFiles.isRegularFile (fileIn (Path.ofString "/a/../a")) = true := by cbv
  have hfile : discover nestedFiles (Path.ofString "../a/b/x") =
      some (fileIn (Path.ofString "/a/../a")) := by
    rw [discover_eq, hancestors]
    simp [hasSettings_iff, hx, hb, ha]
  have honly : ∀ above ∈ (searchStart nestedFiles (Path.ofString "../a/b/x")).ancestors,
      fileIn (Path.ofString "/a/../a") = fileIn above → above = Path.ofString "/a/../a" := by
    rw [hancestors]
    decide
  have hcomponents : (searchStart nestedFiles (Path.ofString "../a/b/x")).components =
      (Path.ofString "/a/../a").components ++ ["b", "x"].map (.name ∘ Utf8.ofString) := by cbv
  obtain ⟨trail, hfind, htrail⟩ := FileSystem.exists_find_of_realPlace? hplace
  obtain ⟨hload, above, habove, hfileIn, rest, hrest, hreal, -, hdown⟩ :=
    discover_amongAncestors wellFormed_nestedFiles linkFree_nestedFiles exists_cwd_nestedFiles hfind
      hfile
  obtain rfl := honly above habove hfileIn
  rw [hcomponents, List.append_cancel_left_eq] at hrest
  obtain ⟨hdown, -⟩ := hdown (by simp [← hrest])
  rw [htrail] at hdown
  exact ⟨hplace, hload, hreal, hdown⟩

/-- Two dots that are taken off lead down again: in `/a`, the settings of `/a` count for the
directory above it. -/
theorem discover_detour :
    ¬ ∀ (fs : FileSystem) (directory file : Path) (trail : Trail), fs.root.WellFormed →
      fs.root.LinkFree → (∃ node, fs.root.descend? fs.cwd = some node) →
      fs.find directory true = .ok trail → discover fs directory = some file →
      ∃ place, fs.realPlace? file = some (place ++ [settingsName]) ∧ place <+: trail.place := by
  intro h
  have hplace : nestedFiles.realPlace? (Path.ofString "..") = some [] := by cbv
  have hancestors : (searchStart nestedFiles (Path.ofString "..")).ancestors =
      ["/a/..", "/a", "/"].map Path.ofString := by cbv
  have hroot : nestedFiles.isRegularFile (fileIn (Path.ofString "/a/..")) = false := by cbv
  have ha : nestedFiles.isRegularFile (fileIn (Path.ofString "/a")) = true := by cbv
  have hreal : nestedFiles.realPlace? (fileIn (Path.ofString "/a")) =
      some [Utf8.ofString "a", settingsName] := by cbv
  have hfile : discover nestedFiles (Path.ofString "..") = some (fileIn (Path.ofString "/a")) := by
    rw [discover_eq, hancestors]
    simp [hasSettings_iff, hroot, ha]
  obtain ⟨trail, hfind, htrail⟩ := FileSystem.exists_find_of_realPlace? hplace
  obtain ⟨place, hfound, hdown⟩ := h _ _ _ _ wellFormed_nestedFiles linkFree_nestedFiles
    exists_cwd_nestedFiles hfind hfile
  rw [htrail, List.prefix_nil] at hdown
  rw [hreal, hdown] at hfound
  cases hfound

end Config

end SourceSurvey
