import SourceSurvey.FileSystem.Edit
import SourceSurvey.Proofs.FileSystem.Following

/-!
# Changing one directory

A file system changes one directory at a time (`Node.modifyEntries`). Every node above that
directory is what it was, with the change below it (`Node.descend?_modifyEntries`): this is how a
path is followed in a changed tree. The tree stays well formed if the change keeps each directory
well formed (`FileSystem.wellFormed_modifyEntriesAt`), which the deletion of entries does.
-/

set_option autoImplicit false

namespace SourceSurvey

namespace Node

theorem lookup_modifyEntry (name : Name) (f : Node → Node) (entries : List (Name × Node)) :
    (modifyEntry name f entries).lookup name = (entries.lookup name).map f := by
  induction entries with
  | nil => rfl
  | cons e rest ih =>
    obtain ⟨n, node⟩ := e
    by_cases hn : n = name
    · subst hn
      simp [modifyEntry]
    · have hne : (name == n) = false := beq_eq_false_iff_ne.2 (Ne.symm hn)
      have hcons : modifyEntry name f ((n, node) :: rest) = (n, node) :: modifyEntry name f rest := by
        simp [modifyEntry, hn]
      rw [hcons, List.lookup_cons, List.lookup_cons, hne, ih]

theorem map_fst_modifyEntry (name : Name) (f : Node → Node) (entries : List (Name × Node)) :
    (modifyEntry name f entries).map (·.1) = entries.map (·.1) := by
  rw [modifyEntry, List.map_map]
  apply List.map_congr_left
  intro e _
  show (if e.1 = name then (e.1, f e.2) else (e.1, e.2)).1 = e.1
  split <;> rfl

/-- On the way to the directory whose entries are changed, every node has the change below it. -/
theorem descend?_modifyEntries (f : List (Name × Node) → List (Name × Node))
    (above rest : List Name) (node : Node) :
    (node.modifyEntries f (above ++ rest)).descend? above =
      (node.descend? above).map (modifyEntries f rest) := by
  induction above generalizing node with
  | nil => simp
  -- The change passes through one entry, and the look-up finds that entry changed.
  | cons name above ih =>
    cases node with
    | directory entries permissions =>
      rw [List.cons_append, modifyEntries, descend?_directory_cons, lookup_modifyEntry,
        descend?_directory_cons]
      cases entries.lookup name with
      | none => rfl
      | some child => exact ih child
    | file content permissions => rfl
    | link target => rfl
    | special kind => rfl

/-- A change that keeps each directory well formed keeps a tree well formed. -/
theorem WellFormed.modifyEntries {f : List (Name × Node) → List (Name × Node)}
    (hf : ∀ entries permissions, (Node.directory entries permissions).WellFormed →
      (Node.directory (f entries) permissions).WellFormed)
    {node : Node} (h : node.WellFormed) (place : List Name) :
    (node.modifyEntries f place).WellFormed := by
  induction place generalizing node with
  | nil =>
    cases node with
    | directory entries permissions => exact hf entries permissions h
    | file content permissions => exact h
    | link target => exact h
    | special kind => exact h
  | cons name place ih =>
    cases h with
    | @directory entries permissions proper distinct wellFormed =>
      rw [Node.modifyEntries]
      -- Each entry is one that was there, with its node or with its node changed.
      have hmem : ∀ e ∈ modifyEntry name (Node.modifyEntries f place) entries, ∃ e' ∈ entries,
          e.1 = e'.1 ∧ (e.2 = e'.2 ∨ e.2 = Node.modifyEntries f place e'.2) := by
        intro e he
        obtain ⟨e', he', rfl⟩ := List.mem_map.1 he
        refine ⟨e', he', ?_⟩
        by_cases hname : e'.1 = name <;> simp [hname]
      apply WellFormed.directory
      · intro e he
        obtain ⟨e', he', hname, -⟩ := hmem e he
        rw [hname]
        exact proper e' he'
      · rw [map_fst_modifyEntry]
        exact distinct
      · intro e he
        obtain ⟨e', he', -, hnode | hnode⟩ := hmem e he
        · rw [hnode]
          exact wellFormed e' he'
        · rw [hnode]
          exact ih (wellFormed e' he')
    | file content permissions => exact .file content permissions
    | link target => exact .link target
    | special kind => exact .special kind

end Node

/-- A file system stays well formed if the change keeps each directory so. -/
theorem FileSystem.wellFormed_modifyEntriesAt {fs : FileSystem} (hfs : fs.root.WellFormed)
    (trail : Trail) {f : List (Name × Node) → List (Name × Node)}
    (hf : ∀ entries permissions, (Node.directory entries permissions).WellFormed →
      (Node.directory (f entries) permissions).WellFormed) :
    (fs.modifyEntriesAt trail f).root.WellFormed :=
  hfs.modifyEntries hf trail.place

end SourceSurvey
