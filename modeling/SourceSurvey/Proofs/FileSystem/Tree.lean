import Mathlib.Data.List.Nodup
import Mathlib.Data.Option.Basic
import SourceSurvey.FileSystem.Resolve

/-!
# The places of a tree

A place is a list of names: the way from a node through directories to one of the nodes below it.
`Node.descend?` follows a place, `Node.descendants` lists all places below a node with what they
lead to, in the order of a listing that goes down into each directory before it goes on.

A tree is well formed when every directory lists proper names, each of them once; `isWellFormed`
finds out. In such a tree the two views agree (`mem_descendants_iff`) and every place is listed once
(`nodup_places`), so the places below a node are a set and the order of the listings does not matter
for it.
-/

set_option autoImplicit false

namespace SourceSurvey

/-- A name that a directory can list: not empty, without a slash, and not one of the two names that
stand for the directory itself and for the one that holds it. -/
structure ProperName (name : Name) : Prop where
  ne_nil : name ≠ []
  ne_dot : name ≠ [Path.dot]
  ne_dots : name ≠ [Path.dot, Path.dot]
  slash_notMem : Path.slash ∉ name

instance (name : Name) : Decidable (ProperName name) :=
  decidable_of_iff
    (name ≠ [] ∧ name ≠ [Path.dot] ∧ name ≠ [Path.dot, Path.dot] ∧ Path.slash ∉ name)
    ⟨fun ⟨h1, h2, h3, h4⟩ => ⟨h1, h2, h3, h4⟩, fun ⟨h1, h2, h3, h4⟩ => ⟨h1, h2, h3, h4⟩⟩

namespace Node

/-- Induction on a tree, with the hypothesis for every entry of a directory. -/
@[elab_as_elim]
theorem rec' {motive : Node → Prop}
    (file : ∀ content permissions, motive (.file content permissions))
    (directory : ∀ entries permissions, (∀ e ∈ entries, motive e.2) →
      motive (.directory entries permissions))
    (link : ∀ target, motive (.link target))
    (special : ∀ kind, motive (.special kind)) : ∀ node, motive node
  | .file content permissions => file content permissions
  | .directory entries permissions =>
    directory entries permissions fun e he =>
      have : sizeOf e.2 < 1 + sizeOf entries + sizeOf permissions := by
        have := List.sizeOf_lt_of_mem he
        have : sizeOf e = 1 + sizeOf e.1 + sizeOf e.2 := rfl
        omega
      rec' file directory link special e.2
  | .link target => link target
  | .special kind => special kind
termination_by node => sizeOf node

/-- A tree whose directories list proper names, each of them once. -/
inductive WellFormed : Node → Prop where
  | file (content : Content) (permissions : Permissions) : WellFormed (.file content permissions)
  | directory {entries : List (List UInt8 × Node)} (permissions : Permissions) :
      (∀ e ∈ entries, ProperName e.1) → (entries.map (·.1)).Nodup →
      (∀ e ∈ entries, WellFormed e.2) → WellFormed (.directory entries permissions)
  | link (target : List UInt8) : WellFormed (.link target)
  | special (kind : Special) : WellFormed (.special kind)

mutual

/-- Whether a tree is well formed, by going through it. -/
def isWellFormed : Node → Bool
  | .directory entries _ => decide (entries.map (·.1)).Nodup && areWellFormed entries
  | _ => true

/-- Whether entries have proper names and lead to well-formed trees. -/
def areWellFormed : List (Name × Node) → Bool
  | [] => true
  | (name, node) :: rest => decide (ProperName name) && isWellFormed node && areWellFormed rest

end

theorem areWellFormed_iff {entries : List (Name × Node)} :
    areWellFormed entries = true ↔
      ∀ e ∈ entries, ProperName e.1 ∧ e.2.isWellFormed = true := by
  induction entries with
  | nil => simp [areWellFormed]
  | cons e rest ih => simp [areWellFormed, ih]

/-- The test for well-formed trees decides whether a tree is well formed. -/
theorem isWellFormed_iff {node : Node} : node.isWellFormed = true ↔ node.WellFormed := by
  induction node using rec' with
  | directory entries permissions ih =>
    rw [isWellFormed, Bool.and_eq_true, decide_eq_true_eq, areWellFormed_iff]
    constructor
    · rintro ⟨distinct, h⟩
      exact .directory _ (fun e he => (h e he).1) distinct fun e he => (ih e he).1 (h e he).2
    · intro h
      cases h with
      | directory _ proper distinct wellFormed =>
        exact ⟨distinct, fun e he => ⟨proper e he, (ih e he).2 (wellFormed e he)⟩⟩
  | file content permissions => exact iff_of_true rfl (.file _ _)
  | link target => exact iff_of_true rfl (.link _)
  | special kind => exact iff_of_true rfl (.special _)

instance : DecidablePred WellFormed :=
  fun _ => decidable_of_iff _ isWellFormed_iff

/-! ## Following a place -/

/-- The node that a place leads to through directories. -/
def descend? : Node → List Name → Option Node
  | node, [] => some node
  | .directory entries _, name :: place => (entries.lookup name).bind (descend? · place)
  | _, _ :: _ => none

@[simp]
theorem descend?_nil (node : Node) : node.descend? [] = some node := by
  cases node <;> rfl

@[simp]
theorem descend?_directory_cons (entries : List (Name × Node)) (permissions : Permissions)
    (name : Name) (place : List Name) :
    (directory entries permissions).descend? (name :: place) =
      (entries.lookup name).bind (·.descend? place) := rfl

theorem descend?_append (node : Node) (above rest : List Name) :
    node.descend? (above ++ rest) = (node.descend? above).bind (·.descend? rest) := by
  induction above generalizing node with
  | nil => simp
  | cons name above ih =>
    cases node with
    | directory entries permissions =>
      simp only [List.cons_append, descend?_directory_cons, Option.bind_assoc]
      exact Option.bind_congr fun child _ => ih child
    | file content permissions => rfl
    | link target => rfl
    | special kind => rfl

/-- Among distinct names the look-up finds every entry. -/
theorem lookup_eq_some_iff_mem {entries : List (Name × Node)} (h : (entries.map (·.1)).Nodup)
    {name : Name} {node : Node} : entries.lookup name = some node ↔ (name, node) ∈ entries := by
  induction entries with
  | nil => simp
  | cons e rest ih =>
    obtain ⟨n, x⟩ := e
    obtain ⟨hn, hrest⟩ := List.nodup_cons.1 h
    rw [List.lookup_cons]
    by_cases hname : name = n
    · subst hname
      have hnotMem : (name, node) ∉ rest := by
        intro hmem
        exact hn (List.mem_map.2 ⟨_, hmem, rfl⟩)
      simp [hnotMem, eq_comm]
    · simp [beq_eq_false_iff_ne.2 hname, hname, ih hrest]

theorem WellFormed.of_lookup {entries : List (Name × Node)} {permissions : Permissions}
    (h : WellFormed (.directory entries permissions)) {name : Name} {node : Node}
    (hnode : entries.lookup name = some node) : ProperName name ∧ WellFormed node := by
  cases h with
  | directory _ proper distinct wellFormed =>
    have hmem := (lookup_eq_some_iff_mem distinct).1 hnode
    exact ⟨proper _ hmem, wellFormed _ hmem⟩

/-- Whatever a well-formed tree leads to is well formed, and the way there has proper names. -/
theorem WellFormed.of_descend? {node : Node} (h : node.WellFormed) {place : List Name} {x : Node}
    (hx : node.descend? place = some x) : (∀ name ∈ place, ProperName name) ∧ x.WellFormed := by
  induction place generalizing node with
  | nil =>
    rw [descend?_nil, Option.some.injEq] at hx
    exact ⟨by simp, hx ▸ h⟩
  | cons name place ih =>
    cases node with
    | directory entries permissions =>
      obtain ⟨child, hchild, hx⟩ := Option.bind_eq_some_iff.1 hx
      obtain ⟨hname, hwf⟩ := h.of_lookup hchild
      obtain ⟨hplace, hx⟩ := ih hwf hx
      exact ⟨List.forall_mem_cons.2 ⟨hname, hplace⟩, hx⟩
    | file content permissions => simp [descend?] at hx
    | link target => simp [descend?] at hx
    | special kind => simp [descend?] at hx

/-! ## All places -/

mutual

/-- The places below a node with what they lead to. -/
def descendants : Node → List (List Name × Node)
  | .directory entries _ => entryDescendants entries
  | _ => []

/-- The places that begin with one of some entries. -/
def entryDescendants : List (Name × Node) → List (List Name × Node)
  | [] => []
  | (name, node) :: rest =>
    ([name], node) :: ((descendants node).map fun e => (name :: e.1, e.2)) ++ entryDescendants rest

end

theorem entryDescendants_eq_flatMap (entries : List (Name × Node)) :
    entryDescendants entries = entries.flatMap fun e =>
      ([e.1], e.2) :: e.2.descendants.map fun b => (e.1 :: b.1, b.2) := by
  induction entries with
  | nil => rfl
  | cons e rest ih => rw [entryDescendants, ih, List.flatMap_cons]

/-- What is below a list of entries is an entry or below one. -/
theorem mem_entryDescendants {entries : List (Name × Node)} {place : List Name} {x : Node} :
    (place, x) ∈ entryDescendants entries ↔ ∃ e ∈ entries, ∃ rest, place = e.1 :: rest ∧
      (rest = [] ∧ x = e.2 ∨ (rest, x) ∈ e.2.descendants) := by
  rw [entryDescendants_eq_flatMap, List.mem_flatMap]
  refine exists_congr fun e => and_congr_right fun _ => ?_
  simp only [List.mem_cons, Prod.mk.injEq, List.mem_map, Prod.exists]
  constructor
  · rintro (⟨rfl, rfl⟩ | ⟨rest, y, hy, rfl, rfl⟩)
    · exact ⟨[], rfl, .inl ⟨rfl, rfl⟩⟩
    · exact ⟨rest, rfl, .inr hy⟩
  · rintro ⟨rest, rfl, ⟨rfl, rfl⟩ | hx⟩
    · exact .inl ⟨rfl, rfl⟩
    · exact .inr ⟨rest, x, hx, rfl, rfl⟩

/-- Only a directory has places below it. -/
theorem descendants_eq_nil {node : Node} (h : node.kind ≠ .directory) : node.descendants = [] := by
  cases node with
  | directory entries permissions => exact absurd rfl h
  | file content permissions => rfl
  | link target => rfl
  | special kind => rfl

/-- No place below a node is empty. -/
theorem ne_nil_of_mem_descendants {node : Node} {place : List Name} {x : Node}
    (h : (place, x) ∈ node.descendants) : place ≠ [] := by
  cases node with
  | directory entries permissions =>
    rw [descendants] at h
    obtain ⟨e, -, rest, rfl, -⟩ := mem_entryDescendants.1 h
    exact List.cons_ne_nil _ _
  | file content permissions => simp [descendants] at h
  | link target => simp [descendants] at h
  | special kind => simp [descendants] at h

/-- The places below a node are those that lead somewhere. -/
theorem mem_descendants_iff {node : Node} (h : node.WellFormed) {place : List Name} {x : Node} :
    (place, x) ∈ node.descendants ↔ place ≠ [] ∧ node.descend? place = some x := by
  -- The induction is on the tree: a place below a directory begins with an entry, and the rest is a
  -- place below that.
  induction node using rec' generalizing place with
  | directory entries permissions ih =>
    cases h with
    | directory _ proper distinct wellFormed =>
    rw [descendants, mem_entryDescendants]
    constructor
    · rintro ⟨⟨name, child⟩, hmem, rest, rfl, hx⟩
      refine ⟨List.cons_ne_nil _ _, ?_⟩
      rw [descend?_directory_cons, (lookup_eq_some_iff_mem distinct).2 hmem, Option.bind_some]
      rcases hx with ⟨rfl, rfl⟩ | hx
      · exact descend?_nil _
      · exact ((ih _ hmem (wellFormed _ hmem)).1 hx).2
    · rintro ⟨hne, hx⟩
      obtain ⟨name, rest, rfl⟩ := List.exists_cons_of_ne_nil hne
      obtain ⟨child, hchild, hx⟩ := Option.bind_eq_some_iff.1 hx
      have hmem := (lookup_eq_some_iff_mem distinct).1 hchild
      refine ⟨(name, child), hmem, rest, rfl, ?_⟩
      -- The place is an entry of the directory, or it is below one.
      by_cases hrest : rest = []
      · subst hrest
        rw [descend?_nil, Option.some.injEq] at hx
        exact .inl ⟨rfl, hx.symm⟩
      · exact .inr ((ih _ hmem (wellFormed _ hmem)).2 ⟨hrest, hx⟩)
  | file content permissions =>
    cases place <;> simp [descendants, descend?]
  | link target =>
    cases place <;> simp [descendants, descend?]
  | special kind =>
    cases place <;> simp [descendants, descend?]

/-- Every place below a node is listed once. -/
theorem nodup_places {node : Node} (h : node.WellFormed) : (node.descendants.map (·.1)).Nodup := by
  induction node using rec' with
  | directory entries permissions ih =>
    cases h with
    | directory _ proper distinct wellFormed =>
    rw [descendants, entryDescendants_eq_flatMap, List.map_flatMap, List.nodup_flatMap]
    constructor
    -- Below one entry: the entry itself, and behind its name the places below it.
    · intro e he
      have hmap : (e.2.descendants.map fun b => (e.1 :: b.1, b.2)).map (·.1) =
          (e.2.descendants.map (·.1)).map (e.1 :: ·) := by
        simp only [List.map_map, Function.comp_def]
      rw [List.map_cons, hmap, List.nodup_cons]
      refine ⟨?_, (ih e he (wellFormed e he)).map List.cons_injective⟩
      intro hmem
      obtain ⟨rest, hrest, heq⟩ := List.mem_map.1 hmem
      obtain ⟨b, hb, rfl⟩ := List.mem_map.1 hrest
      exact ne_nil_of_mem_descendants hb (List.cons.inj heq).2
    -- Below two entries: the places begin with different names.
    · have hpairs : entries.Pairwise fun a b => a.1 ≠ b.1 := List.pairwise_map.1 distinct
      apply hpairs.imp
      intro a b hne place ha hb
      have hhead : ∀ e : Name × Node, place ∈ (([e.1], e.2) ::
          e.2.descendants.map fun b => (e.1 :: b.1, b.2)).map (·.1) → place.head? = some e.1 := by
        intro e he
        simp only [List.map_cons, List.map_map, List.mem_cons, List.mem_map] at he
        rcases he with rfl | ⟨b, -, rfl⟩ <;> rfl
      have heads := (hhead a ha).symm.trans (hhead b hb)
      exact hne (Option.some.inj heads)
  | file content permissions => simp [descendants]
  | link target => simp [descendants]
  | special kind => simp [descendants]

end Node

end SourceSurvey
