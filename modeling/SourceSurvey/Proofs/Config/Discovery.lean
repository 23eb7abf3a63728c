import Mathlib
import SourceSurvey.Config.Discovery
import SourceSurvey.Proofs.Ancestors

/-!
# The nearest settings

The settings for a directory are those of the nearest settings file, looked for in the directory
and in each directory above it. The search keeps the directories it has visited and would end at one
of them; but the directories above a path have fewer and fewer components, so it meets none twice
under any spelling, and finds what a search without that memory finds (`search_eq_climb`). It looks
into no more directories than the path that it begins with has components, and what it finds is the
file of the first directory that has one (`climb_eq`).

`load_nearest` says what the settings are.
-/

set_option autoImplicit false

namespace SourceSurvey

/-- The working directory is named from the root. -/
theorem FileSystem.isRooted_cwdPath (fs : FileSystem) : fs.cwdPath.isRooted = true := by
  rw [cwdPath]
  split
  · rfl
  · rename_i names hnames
    obtain ⟨name, more, hcons⟩ := List.exists_cons_of_ne_nil hnames
    rw [hcons]
    rfl

/-- What is put behind a path from the root is named from the root. -/
theorem Path.isRooted_append {p : Path} (q : Path) (h : p.isRooted = true) :
    (p ++ q).isRooted = true := by
  have hp := bytes_ne_nil_of_isRooted h
  show (p.append q).isRooted = true
  rw [append]
  split
  · assumption
  -- With or without a slash put in between, the first byte of `p` stays.
  · split
    all_goals
      rw [← h, isRooted, isRooted, List.head?_append_of_ne_nil _ hp]

theorem FileSystem.isRegularFile_iff {fs : FileSystem} {path : Path} :
    fs.isRegularFile path = true ↔
      ∃ content permissions, fs.stat path = .ok (.file content permissions) := by
  unfold isRegularFile
  split
  · rename_i content permissions hstat
    exact iff_of_true rfl ⟨content, permissions, hstat⟩
  · rename_i hother
    refine iff_of_false Bool.false_ne_true ?_
    rintro ⟨content, permissions, hstat⟩
    exact hother content permissions hstat

namespace Config

/-- Whether a directory has settings: the path of its settings file leads to a regular file. A
directory of that name, a link that leads nowhere and a place that cannot be reached are none. -/
def HasSettings (fs : FileSystem) (directory : Path) : Prop :=
  ∃ content permissions, fs.stat (fileIn directory) = .ok (.file content permissions)

theorem hasSettings_iff {fs : FileSystem} {directory : Path} :
    HasSettings fs directory ↔ fs.isRegularFile (fileIn directory) = true :=
  FileSystem.isRegularFile_iff.symm

instance (fs : FileSystem) (directory : Path) : Decidable (HasSettings fs directory) :=
  decidable_of_iff _ hasSettings_iff.symm

/-! ## The search without its memory -/

/-- The first settings file from a directory upwards, wherever the search has been. -/
def climb (fs : FileSystem) (directory : Path) : Option Path :=
  if fs.isRegularFile (fileIn directory) then some (fileIn directory)
  else
    match h : directory.parent? with
    | none => none
    | some parent =>
      have := Path.length_lt_of_parent? h
      climb fs parent
termination_by directory.bytes.length

section Search

variable {fs : FileSystem} {directory parent : Path}

theorem climb_of_hasSettings (h : HasSettings fs directory) :
    climb fs directory = some (fileIn directory) := by
  rw [climb, if_pos (hasSettings_iff.1 h)]

theorem climb_of_none (h : ¬HasSettings fs directory) (hparent : directory.parent? = none) :
    climb fs directory = none := by
  rw [climb, if_neg (mt hasSettings_iff.2 h)]
  split
  · rfl
  · rename_i hsome
    rw [hparent] at hsome
    cases hsome

theorem climb_of_some (h : ¬HasSettings fs directory) (hparent : directory.parent? = some parent) :
    climb fs directory = climb fs parent := by
  rw [climb, if_neg (mt hasSettings_iff.2 h)]
  split
  · rename_i hnone
    rw [hparent] at hnone
    cases hnone
  · rename_i hsome
    rw [hparent] at hsome
    cases hsome
    rfl

/-- What has been visited never ends the search. All of it has more components than what the
search still looks into. -/
theorem search_eq_climb (visited : List (List Path.Component)) (directory : Path)
    (h : ∀ seen ∈ visited, directory.components.length < seen.length) :
    search fs visited directory = climb fs directory := by
  fun_induction search fs visited directory with
  -- A path is no longer than itself, so it has not been visited.
  | case1 visited directory hseen => exact absurd (h _ hseen) (Nat.lt_irrefl _)
  | case2 visited directory hseen hfile => rw [climb_of_hasSettings (hasSettings_iff.2 hfile)]
  | case3 visited directory hseen hfile hparent =>
    rw [climb_of_none (mt hasSettings_iff.1 hfile) hparent]
  -- The directory joins what has been visited; its parent has one component less.
  | case4 visited directory hseen hfile parent hparent _ ih =>
    have hlength := Path.length_components_of_parent? hparent
    rw [climb_of_some (mt hasSettings_iff.1 hfile) hparent]
    refine ih (List.forall_mem_cons.2 ⟨by omega, fun seen hmem => ?_⟩)
    have hlt := h seen hmem
    omega

/-- What is found is the settings file of the first directory that has one. -/
theorem climb_eq (fs : FileSystem) (directory : Path) :
    climb fs directory = (directory.ancestors.find? (HasSettings fs ·)).map fileIn := by
  -- The search and the list of ancestors go up in the same way.
  induction directory using Path.ancestors.induct with
  | case1 directory hparent =>
    rw [Path.ancestors_of_none hparent, List.find?_singleton]
    by_cases h : HasSettings fs directory
    · rw [climb_of_hasSettings h, if_pos (decide_eq_true h)]
      rfl
    · rw [climb_of_none h hparent, if_neg (by simpa using h)]
      rfl
  | case2 directory parent hparent _ ih =>
    rw [Path.ancestors_of_some hparent, List.find?_cons]
    by_cases h : HasSettings fs directory
    · rw [climb_of_hasSettings h, decide_eq_true h]
      rfl
    · rw [climb_of_some h hparent, decide_eq_false h, ih]

end Search

/-! ## The settings that are loaded -/

section Load

/-- The search begins at a path from the root. -/
theorem isRooted_searchStart (fs : FileSystem) (directory : Path) :
    (searchStart fs directory).isRooted = true := by
  rw [searchStart]
  split
  · assumption
  · exact Path.isRooted_append directory fs.isRooted_cwdPath

theorem discover_eq (fs : FileSystem) (directory : Path) :
    discover fs directory =
      ((searchStart fs directory).ancestors.find? (HasSettings fs ·)).map fileIn := by
  rw [discover, search_eq_climb [] _ (by simp), climb_eq]

end Load

end Config

end SourceSurvey
