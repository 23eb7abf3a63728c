import SourceSurvey.Proofs.FileSystem.Changing

/-!
# Deleting parts of a tree

`Node.without` deletes every node below a node that a predicate of places and nodes tells it to
drop, each with everything below it. What is left at a place is what was there, without the dropped
nodes below it, if nothing on the way to the place is dropped (`descend?_without`); this way of
surviving is a derivation (`Node.Survives`). Where no links are followed the same holds of paths
(`follow_without`).
-/

set_option autoImplicit false

namespace SourceSurvey.Node

/-! ## Deleting below a node -/

mutual

/-- The node without the nodes below it that are to be dropped; `above` is the place of the node
itself. -/
def without (drop : List Name → Node → Bool) (above : List Name) : Node → Node
  | .directory entries permissions => .directory (entriesWithout drop above entries) permissions
  | node => node

/-- The entries of the directory at `above` without the nodes that are to be dropped. -/
def entriesWithout (drop : List Name → Node → Bool) (above : List Name) :
    List (List UInt8 × Node) → List (List UInt8 × Node)
  | [] => []
  | (name, node) :: rest =>
    if drop (above ++ [name]) node then entriesWithout drop above rest
    else (name, without drop (above ++ [name]) node) :: entriesWithout drop above rest

end

section Without

variable {drop : List Name → Node → Bool}

@[simp]
theorem kind_without (drop : List Name → Node → Bool) (above : List Name) (node : Node) :
    (node.without drop above).kind = node.kind := by
  cases node <;> simp [without, kind]

theorem entriesWithout_eq (drop : List Name → Node → Bool) (above : List Name)
    (entries : List (Name × Node)) :
    entriesWithout drop above entries =
      (entries.filter fun e => !drop (above ++ [e.1]) e.2).map fun e =>
        (e.1, e.2.without drop (above ++ [e.1])) := by
  induction entries with
  | nil => rfl
  | cons e rest ih =>
    rw [entriesWithout, ih]
    cases h : drop (above ++ [e.1]) e.2 <;> simp [h]

theorem mem_entriesWithout {above : List Name} {entries : List (Name × Node)} {e : Name × Node}
    (h : e ∈ entriesWithout drop above entries) :
    ∃ e' ∈ entries, e.1 = e'.1 ∧ e.2 = e'.2.without drop (above ++ [e'.1]) := by
  rw [entriesWithout_eq] at h
  obtain ⟨e', he', rfl⟩ := List.mem_map.1 h
  exact ⟨e', List.mem_of_mem_filter he', rfl, rfl⟩

/-- Among distinct names the look-up finds an entry unless it is dropped. -/
theorem lookup_entriesWithout {above : List Name} {entries : List (Name × Node)}
    (h : (entries.map (·.1)).Nodup) (name : Name) :
    (entriesWithout drop above entries).lookup name =
      (entries.lookup name).bind fun node =>
        if drop (above ++ [name]) node then none else some (node.without drop (above ++ [name])) := by
  induction entries with
  | nil => rfl
  | cons e rest ih =>
    obtain ⟨n, node⟩ := e
    obtain ⟨hn, hrest⟩ := List.nodup_cons.1 h
    have ih := ih hrest
    rw [entriesWithout, List.lookup_cons]
    by_cases hname : name = n
    · subst hname
      -- Nothing behind the entry has its name, so dropping it leaves nothing to be found.
      have hnone : rest.lookup name = none := by
        refine List.lookup_eq_none_iff.2 fun e he => bne_iff_ne.2 ?_
        rintro rfl
        exact hn (List.mem_map.2 ⟨e, he, rfl⟩)
      rw [hnone, Option.bind_none] at ih
      cases hdrop : drop (above ++ [name]) node <;> simp [hdrop, ih]
    · have hne : (name == n) = false := beq_eq_false_iff_ne.2 hname
      rw [hne, ← ih]
      split
      · rfl
      · rw [List.lookup_cons, hne]

theorem WellFormed.without {node : Node} (h : node.WellFormed) (above : List Name) :
    (node.without drop above).WellFormed := by
  induction node using rec' generalizing above with
  | directory entries permissions ih =>
    cases h with
    | directory _ proper distinct wellFormed =>
    rw [Node.without]
    apply WellFormed.directory
    · intro e he
      obtain ⟨e', he', hname, -⟩ := mem_entriesWithout he
      rw [hname]
      exact proper e' he'
    -- The names that are left are some of those that were there.
    · rw [entriesWithout_eq, List.map_map]
      exact distinct.sublist (List.filter_sublist.map _)
    · intro e he
      obtain ⟨e', he', -, hnode⟩ := mem_entriesWithout he
      rw [hnode]
      exact ih e' he' (wellFormed e' he') _
  | file content permissions => exact h
  | link target => exact h
  | special kind => exact h

theorem LinkFree.without {node : Node} (h : node.LinkFree) (above : List Name) :
    (node.without drop above).LinkFree := by
  induction node using rec' generalizing above with
  | directory entries permissions ih =>
    cases h with
    | directory _ hentries =>
    rw [Node.without]
    apply LinkFree.directory
    intro e he
    obtain ⟨e', he', -, hnode⟩ := mem_entriesWithout he
    rw [hnode]
    exact ih e' he' (hentries e' he') _
  | file content permissions => exact h
  | link target => exact h
  | special kind => exact h

/-! ## What survives -/

/-- `Survives drop above node place`: the place leads somewhere from the node, which is itself at
`above`, and nothing on the way is dropped, the end included. -/
inductive Survives (drop : List Name → Node → Bool) : List Name → Node → List Name → Prop where
  | here (above : List Name) (node : Node) : Survives drop above node []
  | entry {above : List Name} {entries : List (List UInt8 × Node)} {permissions : Permissions}
      {name : Name} {child : Node} {place : List Name} :
      entries.lookup name = some child → drop (above ++ [name]) child = false →
      Survives drop (above ++ [name]) child place →
      Survives drop above (.directory entries permissions) (name :: place)

/-- A place that survives leads somewhere. -/
theorem Survives.exists_descend? {above place : List Name} {node : Node}
    (h : Survives drop above node place) : ∃ x, node.descend? place = some x := by
  induction h with
  | here above node => exact ⟨node, descend?_nil node⟩
  | entry hchild _ _ ih =>
    obtain ⟨x, hx⟩ := ih
    exact ⟨x, by rw [descend?_directory_cons, hchild]; exact hx⟩

/-- Where a place survives, so does everything on the way. -/
theorem Survives.of_append {above first rest : List Name} {node : Node}
    (h : Survives drop above node (first ++ rest)) : Survives drop above node first := by
  induction first generalizing above node with
  | nil => exact .here _ _
  | cons name first ih =>
    cases h with
    | entry hchild hdrop h => exact .entry hchild hdrop (ih h)

/-- What is left at a place is what was there, if it survives. -/
theorem descend?_without {node : Node} (h : node.WellFormed) {above place : List Name} {y : Node} :
    (node.without drop above).descend? place = some y ↔
      Survives drop above node place ∧
        ∃ x, node.descend? place = some x ∧ y = x.without drop (above ++ place) := by
  induction place generalizing node above with
  | nil =>
    simp only [descend?_nil, Option.some.injEq, List.append_nil, exists_eq_left']
    exact ⟨fun hy => ⟨.here _ _, hy.symm⟩, fun hy => hy.2.symm⟩
  | cons name place ih =>
    -- The place of the entry is the `above` of everything below it.
    have happend : above ++ name :: place = above ++ [name] ++ place := by simp
    cases node with
    | directory entries permissions =>
      cases h with
      | directory _ proper distinct wellFormed =>
      rw [without, descend?_directory_cons, lookup_entriesWithout distinct,
        descend?_directory_cons, happend]
      -- An entry that is found after the deletion was there and was not dropped, and the rest of
      -- the place survives from it.
      constructor
      · intro hy
        obtain ⟨z, hz, hy⟩ := Option.bind_eq_some_iff.1 hy
        obtain ⟨child, hchild, hz⟩ := Option.bind_eq_some_iff.1 hz
        split at hz
        · cases hz
        · rename_i hdrop
          cases hz
          have hwf := wellFormed _ ((lookup_eq_some_iff_mem distinct).1 hchild)
          obtain ⟨hsurvives, x, hx, rfl⟩ := (ih hwf).1 hy
          exact ⟨.entry hchild (by simpa using hdrop) hsurvives, x, by rw [hchild]; exact hx, rfl⟩
      · rintro ⟨hsurvives, x, hx, rfl⟩
        cases hsurvives with
        | @entry _ _ _ _ child _ hchild hdrop hsurvives =>
          have hwf := wellFormed _ ((lookup_eq_some_iff_mem distinct).1 hchild)
          rw [hchild] at hx ⊢
          simp only [Option.bind_some, hdrop, Bool.false_eq_true, if_false]
          exact (ih hwf).2 ⟨hsurvives, x, hx, rfl⟩
    | file content permissions =>
      refine iff_of_false nofun fun hy => ?_
      cases hy.1
    | link target =>
      refine iff_of_false nofun fun hy => ?_
      cases hy.1
    | special kind =>
      refine iff_of_false nofun fun hy => ?_
      cases hy.1

/-- What a surviving place leads to, permissions respected, is what it led to. -/
theorem follow_without {node : Node} (h : node.WellFormed) {above place : List Name}
    (hsurvives : Survives drop above node place) :
    (node.without drop above).follow place =
      (node.follow place).map (without drop (above ++ place)) := by
  induction hsurvives with
  | here above node =>
    rw [follow_nil, follow_nil, List.append_nil]
    rfl
  | @entry above entries permissions name child place hchild hdrop _ ih =>
    have happend : above ++ name :: place = above ++ [name] ++ place := by simp
    cases h with
    | directory _ proper distinct wellFormed =>
    have hwf := wellFormed _ ((lookup_eq_some_iff_mem distinct).1 hchild)
    rw [without, follow, follow, lookup_entriesWithout distinct, hchild, happend]
    simp only [Option.bind_some, hdrop, Bool.false_eq_true, if_false]
    -- The permission to search and the length of the name are what they were.
    split
    · rfl
    split
    · rfl
    · exact ih hwf

end Without

end SourceSurvey.Node
