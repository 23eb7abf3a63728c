import SourceSurvey.Proofs.FileSystem.Changing

/-!
# Paths that go straight down

A path is direct if it goes neither up nor through a link (`FileSystem.IsDirect`), so it comes by no
directory but those on the way from the root to its end. A change of the directory that it leads to
does not touch these, whatever the change is, and so the path leads to the same place after it
(`FileSystem.IsDirect.realPlace?_modifyEntriesAt`).

The proof follows the path in both trees at once: `Follows.modifyEntries` keeps the two trails at
the same place.
-/

set_option autoImplicit false

namespace SourceSurvey

/-! ## Following without going up -/

section Follows

variable {root : Node} {links left : Nat} {trail trail' : Trail} {steps : List Step}

theorem Follows.left_le (h : Follows root links trail steps left trail') : left ≤ links := by
  induction h with
  | nil links trail => exact Nat.le_refl _
  | directory _ _ ih => exact ih
  | here _ _ _ ih => exact ih
  | up _ _ _ ih => exact ih
  | name _ _ _ _ _ _ ih => exact ih
  | link _ _ _ _ _ ih => exact Nat.le_succ_of_le ih

/-- Without links and without going up, a way only goes down. -/
theorem Follows.place_isPrefix (h : Follows root links trail steps left trail')
    (hlinks : left = links) (hup : .up ∉ steps) : trail.place <+: trail'.place := by
  induction h with
  | nil links trail => exact List.prefix_refl _
  | directory _ _ ih => exact ih hlinks (mt (List.mem_cons_of_mem _) hup)
  | here _ _ _ ih => exact ih hlinks (mt (List.mem_cons_of_mem _) hup)
  | up _ _ _ _ => exact absurd List.mem_cons_self hup
  | name _ _ _ _ _ _ ih =>
    have hrest := ih hlinks (mt (List.mem_cons_of_mem _) hup)
    rw [Trail.place_cons] at hrest
    exact (List.prefix_append _ _).trans hrest
  | link _ _ _ _ hrest _ =>
    have hle := hrest.left_le
    omega

end Follows

/-! ## Two trails side by side -/

namespace Node

@[simp]
theorem kind_modifyEntries (f : List (Name × Node) → List (Name × Node)) (place : List Name)
    (node : Node) : (node.modifyEntries f place).kind = node.kind := by
  cases place <;> cases node <;> rfl

end Node

section Copy

variable {root : Node} {trail copy : Trail} {f : List (Name × Node) → List (Name × Node)}

/-- A trail of the changed tree, on the way to the changed directory and at the place of a directory
of the tree, ends at a directory with the same permissions, and the next name on the way leads to a
node of the same kind. -/
theorem Trail.IsWay.exists_node_copy {place : List Name} {entries : List (Name × Node)}
    {permissions : Permissions} (hway : trail.IsWay root)
    (hnode : trail.node root = .directory entries permissions)
    (hcopy : copy.IsWay (root.modifyEntries f place)) (hplace : copy.place = trail.place)
    (hdown : trail.place <+: place) :
    ∃ entries', copy.node (root.modifyEntries f place) = .directory entries' permissions ∧
      ∀ name node, trail.place ++ [name] <+: place → entries.lookup name = some node →
        ∃ node', entries'.lookup name = some node' ∧ node'.kind = node.kind := by
  obtain ⟨rest, rfl⟩ := hdown
  have hcopyNode : copy.node (root.modifyEntries f (trail.place ++ rest)) =
      (Node.directory entries permissions).modifyEntries f rest := by
    have hdescend := hcopy.descend?_place
    rw [hplace, Node.descend?_modifyEntries, hway.descend?_place, Option.map_some, hnode]
      at hdescend
    exact (Option.some.inj hdescend).symm
  rw [hcopyNode]
  -- Either this is the changed directory itself, and no name leads on, or the next name leads to a
  -- node with the change below it.
  cases rest with
  | nil =>
    refine ⟨f entries, rfl, ?_⟩
    intro name node hnext
    rw [List.prefix_append_right_inj] at hnext
    cases List.prefix_nil.1 hnext
  | cons next rest =>
    refine ⟨_, rfl, ?_⟩
    intro name node hnext hentry
    rw [List.prefix_append_right_inj, List.cons_prefix_cons] at hnext
    refine ⟨node.modifyEntries f rest, ?_, Node.kind_modifyEntries f rest node⟩
    rw [← hnext.1, Node.lookup_modifyEntry, hentry, Option.map_some]

/-- A way straight down to the changed directory is one in the changed tree. -/
theorem Follows.modifyEntries {links left : Nat} {trail' : Trail} {steps : List Step}
    (h : Follows root links trail steps left trail') (hlinks : left = links) (hup : .up ∉ steps)
    (hway : trail.IsWay root) (hcopy : copy.IsWay (root.modifyEntries f trail'.place))
    (hplace : copy.place = trail.place) :
    ∃ copy', Follows (root.modifyEntries f trail'.place) links copy steps left copy' ∧
      copy'.place = trail'.place := by
  -- The copy takes the same steps. It needs to be kept at the place of the trail, so the induction
  -- is over all copies.
  induction h generalizing copy with
  | nil links trail => exact ⟨copy, .nil _ _, hplace⟩
  | directory hnode h ih =>
    have hrest := mt (List.mem_cons_of_mem _) hup
    obtain ⟨entries', hnode', -⟩ :=
      hway.exists_node_copy hnode hcopy hplace (h.place_isPrefix hlinks hrest)
    obtain ⟨copy', hcopy', hend⟩ := ih hlinks hrest hway hcopy hplace
    exact ⟨copy', .directory hnode' hcopy', hend⟩
  | here hnode hs h ih =>
    have hrest := mt (List.mem_cons_of_mem _) hup
    obtain ⟨entries', hnode', -⟩ :=
      hway.exists_node_copy hnode hcopy hplace (h.place_isPrefix hlinks hrest)
    obtain ⟨copy', hcopy', hend⟩ := ih hlinks hrest hway hcopy hplace
    exact ⟨copy', .here hnode' hs hcopy', hend⟩
  | up _ _ _ _ => exact absurd List.mem_cons_self hup
  | @name _ _ trail _ _ _ _ name node hnode hs hlength hentry hkind h ih =>
    have hrest := mt (List.mem_cons_of_mem _) hup
    have hnext := h.place_isPrefix hlinks hrest
    rw [Trail.place_cons] at hnext
    obtain ⟨entries', hnode', hentries'⟩ :=
      hway.exists_node_copy hnode hcopy hplace ((List.prefix_append _ _).trans hnext)
    obtain ⟨node', hentry', hkind'⟩ := hentries' name node hnext hentry
    have hlonger : Trail.IsWay _ ((name, node') :: copy) := ⟨hcopy, entries', _, hnode', hentry'⟩
    obtain ⟨copy', hcopy', hend⟩ :=
      ih hlinks hrest ⟨hway, _, _, hnode, hentry⟩ hlonger (by simp [hplace])
    exact ⟨copy', .name hnode' hs hlength hentry' (hkind' ▸ hkind) hcopy', hend⟩
  -- A link would have used up one of the links.
  | link _ _ _ _ h _ =>
    have hle := h.left_le
    omega

end Copy

/-! ## Direct paths -/

/-- The trail through the names of a place that exists leads there. -/
theorem Trail.place_ofPlace {root : Node} {trail : Trail} {place : List Name} {x : Node}
    (hx : (trail.node root).descend? place = some x) :
    (Trail.ofPlace root trail place).place = trail.place ++ place := by
  induction place generalizing trail with
  | nil => rw [Trail.ofPlace, List.append_nil]
  | cons name place ih =>
    cases hnode : trail.node root with
    | directory entries permissions =>
      rw [hnode] at hx
      obtain ⟨child, hchild, hrest⟩ := Option.bind_eq_some_iff.1 hx
      rw [Trail.ofPlace, hnode]
      simp only [hchild]
      have hcons : (Trail.node root ((name, child) :: trail)).descend? place = some x := hrest
      rw [ih hcons, Trail.place_cons, List.append_assoc, List.singleton_append]
    | file content permissions =>
      rw [hnode] at hx
      cases hx
    | link target =>
      rw [hnode] at hx
      cases hx
    | special kind =>
      rw [hnode] at hx
      cases hx

namespace FileSystem

/-- The place that a path leads to, links followed. -/
def realPlace? (fs : FileSystem) (path : Path) : Option (List Name) :=
  (fs.find path true).toOption.map Trail.place

/-- A path that leads to the end of a trail and goes neither up nor through a link. If it begins at
the working directory, that directory exists. -/
structure IsDirect (fs : FileSystem) (path : Path) (trail : Trail) : Prop where
  notRefused : path.refusal? = none
  up_notMem : .up ∉ path.steps
  follows : Follows fs.root maxLinks (fs.start path) path.steps maxLinks trail
  hasStart : path.isRooted = false → ∃ x, fs.root.descend? fs.cwd = some x

namespace IsDirect

variable {fs : FileSystem} {path : Path} {trail : Trail}

theorem find_eq (h : fs.IsDirect path trail) : fs.find path true = .ok trail := by
  rw [find_eq_ok_iff, locate_eq_followSteps h.notRefused, followSteps_eq_found_iff]
  exact ⟨maxLinks, h.follows⟩

/-- The path begins at the same place in the changed tree. -/
theorem place_start_modifyEntriesAt (h : fs.IsDirect path trail)
    (f : List (Name × Node) → List (Name × Node)) :
    ((fs.modifyEntriesAt trail f).start path).place = (fs.start path).place := by
  have hdown := h.follows.place_isPrefix rfl h.up_notMem
  unfold start at hdown ⊢
  cases hrooted : path.isRooted with
  | true => rfl
  | false =>
    obtain ⟨x, hx⟩ := h.hasStart hrooted
    have hplace : (Trail.ofPlace fs.root [] fs.cwd).place = fs.cwd := Trail.place_ofPlace hx
    rw [hrooted, if_neg Bool.false_ne_true, hplace] at hdown
    obtain ⟨rest, hrest⟩ := hdown
    have hcwd : (fs.root.modifyEntries f trail.place).descend? fs.cwd =
        some (x.modifyEntries f rest) := by
      rw [← hrest, Node.descend?_modifyEntries, hx, Option.map_some]
    have hplace' : (Trail.ofPlace (fs.root.modifyEntries f trail.place) [] fs.cwd).place = fs.cwd :=
      Trail.place_ofPlace hcwd
    rw [if_neg Bool.false_ne_true, if_neg Bool.false_ne_true, hplace]
    exact hplace'

/-- A direct path leads to the same place when the directory that it leads to is changed. -/
theorem realPlace?_modifyEntriesAt (h : fs.IsDirect path trail)
    (f : List (Name × Node) → List (Name × Node)) :
    (fs.modifyEntriesAt trail f).realPlace? path = fs.realPlace? path := by
  obtain ⟨trail', hfollows, hplace⟩ := h.follows.modifyEntries rfl h.up_notMem
    (fs.isWay_start path) ((fs.modifyEntriesAt trail f).isWay_start path)
    (h.place_start_modifyEntriesAt f)
  have hfind : (fs.modifyEntriesAt trail f).find path true = .ok trail' := by
    rw [find_eq_ok_iff, locate_eq_followSteps h.notRefused, followSteps_eq_found_iff]
    exact ⟨maxLinks, hfollows⟩
  rw [realPlace?, realPlace?, hfind, h.find_eq]
  exact congrArg some hplace

end IsDirect

end FileSystem

end SourceSurvey
