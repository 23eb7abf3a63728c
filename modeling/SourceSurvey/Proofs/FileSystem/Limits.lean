import SourceSurvey.Proofs.FileSystem.Direct

/-!
# The limits of following paths

A path is refused when it is too long, and given up when it leads through too many links. Where
neither happens, the limits make no difference: with more links the same is found
(`followSteps_add`), so an entry below a directory is the same node by every path of the directory
that is within the limits (`FileSystem.stat_descend_eq`).
-/

set_option autoImplicit false

namespace SourceSurvey

section Links

variable {root : Node} {followLast : Bool} {links left : Nat} {trail trail' : Trail}
  {steps : List Step}

/-- More links change nothing where there are enough of them. -/
theorem followSteps_add (h : followSteps root followLast links trail steps ≠ .error .tooManyLinks)
    (more : Nat) :
    followSteps root followLast (links + more) trail steps =
      followSteps root followLast links trail steps := by
  -- The induction follows the reader: as long as it goes on, so does the reader with more links.
  fun_induction followSteps root followLast links trail steps with
  | case1 => rw [followSteps_nil]
  | case2 _ _ _ _ _ hnode ih =>
    rw [followSteps_directory hnode]
    exact ih h
  | case4 _ _ _ _ _ hnode hs _ ih =>
    rw [followSteps_up hnode (by simpa using hs)]
    exact ih h
  | case9 => exact absurd rfl h
  -- A link is followed, which takes one of the links.
  | case10 _ rest _ _ hnode hs name hlength target hentry hlast links _ _ ih =>
    have hlast : rest ≠ [] ∨ followLast = true := by
      by_cases hrest : rest = []
      · exact .inr (by simpa [hrest] using hlast)
      · exact .inl hrest
    rw [Nat.succ_add, followSteps_link hnode (by simpa using hs) (Nat.not_lt.1 hlength) hentry hlast]
    exact ih h
  | case11 _ _ _ _ _ hnode hs _ hlength node hlink hentry _ ih =>
    have hkind : node.kind ≠ .link := by
      cases node <;> simp_all [Node.kind]
    rw [followSteps_name hnode (by simpa using hs) (Nat.not_lt.1 hlength) hentry hkind]
    exact ih h
  | case12 _ _ step _ _ _ hnode hdirectory hs hup hname ih =>
    have hstep : step = .here := by
      cases step <;> simp_all
    rw [hstep, followSteps_here hnode (by simpa using hs)]
    exact ih h
  -- The other cases end at this step, whatever the number of links.
  | case6 _ _ _ _ hnode hs _ hlength hentry =>
    rw [followSteps, hnode]
    simp only [reduceCtorEq, if_false, hs, hlength, hentry, if_true]
  | case7 _ _ _ _ _ hnode hs _ hlength hentry hrest =>
    rw [followSteps, hnode]
    simp only [reduceCtorEq, if_false, hs, hlength, hentry, hrest]
  | case3 | case5 | case8 | case13 =>
    rw [followSteps]
    simp_all

theorem Follows.add (h : Follows root links trail steps left trail') (more : Nat) :
    Follows root (links + more) trail steps (left + more) trail' := by
  induction h with
  | nil links trail => exact .nil _ _
  | directory hnode _ ih => exact .directory hnode ih
  | here hnode hs _ ih => exact .here hnode hs ih
  | up hnode hs _ ih => exact .up hnode hs ih
  | name hnode hs hlength hentry hkind _ ih => exact .name hnode hs hlength hentry hkind ih
  | link hnode hs hlength hentry _ ih =>
    rw [Nat.succ_add]
    exact .link hnode hs hlength hentry ih

end Links

/-! ## Trails to one place -/

/-- A place is the end of one way only. -/
theorem Trail.IsWay.eq_of_place_eq {root : Node} {trail other : Trail} (h : trail.IsWay root)
    (hother : other.IsWay root) (hplace : trail.place = other.place) : trail = other := by
  induction trail generalizing other with
  | nil =>
    cases other with
    | nil => rfl
    | cons e other => simp [Trail.place] at hplace
  | cons e trail ih =>
    cases other with
    | nil => simp [Trail.place] at hplace
    | cons e' other =>
      obtain ⟨name, node⟩ := e
      obtain ⟨name', node'⟩ := e'
      have hnode := h.descend?_place
      rw [hplace, hother.descend?_place] at hnode
      rw [Trail.place_cons, Trail.place_cons] at hplace
      obtain ⟨habove, hname⟩ := List.append_inj' hplace rfl
      rw [ih h.1 hother.1 habove, List.head_eq_of_cons_eq hname]
      cases hnode
      rfl

/-! ## Paths within the limits -/

namespace Path

variable {p : Path} {place : List Name}

theorem zero_mem_descend_iff (hp : p.bytes ≠ []) (h : ∀ name ∈ place, ProperName name) :
    (0 : UInt8) ∈ (p.descend place).bytes ↔ 0 ∈ p.bytes ∨ ∃ name ∈ place, (0 : UInt8) ∈ name := by
  induction place generalizing p with
  | nil => simp
  | cons name place ih =>
    obtain ⟨hname, hplace⟩ := List.forall_mem_cons.1 h
    have hseparator : (0 : UInt8) ∉ if p.endsInSlash then [] else [slash] := by
      split <;> decide
    rw [descend_cons, ih (child_bytes_ne_nil hp hname) hplace, bytes_child hp hname,
      List.mem_append, List.mem_append, or_iff_left hseparator, List.exists_mem_cons_iff, or_assoc]

end Path

namespace FileSystem

/-- A path that meets no limit: it is not too long, and if it leads through too many links there is
no number of links that is enough. -/
structure WithinLimits (fs : FileSystem) (path : Path) : Prop where
  length_le : path.bytes.length ≤ maxPathLength
  never_enough : fs.locate path true = .error .tooManyLinks →
    ∀ links, followSteps fs.root true links (fs.start path) path.steps = .error .tooManyLinks

section Descend

variable {fs : FileSystem} {root other : Path} {trail : Trail} {place : List Name}

/-- Of a path within the limits only a zero byte in a name is refused. -/
theorem refusal?_descend (h : fs.find root true = .ok trail)
    (hplace : ∀ name ∈ place, ProperName name) (hlimits : fs.WithinLimits (root.descend place)) :
    (root.descend place).refusal? =
      if ∃ name ∈ place, (0 : UInt8) ∈ name then some .zeroInPath else none := by
  have hbytes := bytes_ne_nil_of_find h
  have hzero : (0 : UInt8) ∉ root.bytes := by
    intro hmem
    have hrefusal := (follows_of_find h).1
    simp [Path.refusal?, hmem] at hrefusal
  simp only [Path.refusal?, Path.zero_mem_descend_iff hbytes hplace, hzero, false_or,
    Path.descend_bytes_ne_nil hbytes hplace, Nat.not_lt.2 hlimits.length_le, if_false]

/-- An entry is followed from the directory that the root leads to with a number of links that is
enough, if any number is. -/
theorem exists_links_locate_descend (h : fs.find root true = .ok trail)
    (hplace : ∀ name ∈ place, ProperName name) (hne : place ≠ [])
    (hlimits : fs.WithinLimits (root.descend place))
    (hrefusal : (root.descend place).refusal? = none) :
    ∃ left, fs.locate (root.descend place) true =
        followSteps fs.root true left trail (place.map .name) ∧
      (followSteps fs.root true left trail (place.map .name) = .error .tooManyLinks →
        ∀ more, followSteps fs.root true (left + more) trail (place.map .name) =
          .error .tooManyLinks) := by
  obtain ⟨left, hfollows⟩ := follows_innerSteps_of_find h
  have hbytes := bytes_ne_nil_of_find h
  have hstart : fs.start (root.descend place) = fs.start root := by
    rw [start, start, Path.isRooted_descend hbytes hplace]
  -- The way to the directory is the same with more links, so what is left of them when it ends is
  -- more as well.
  have hnames : ∀ more,
      followSteps fs.root true (maxLinks + more) (fs.start (root.descend place))
          (root.descend place).steps =
        followSteps fs.root true (left + more) trail (place.map .name) := by
    intro more
    rw [hstart, Path.steps_descend hbytes hplace hne]
    exact (hfollows.add more).followSteps_append true (.inr rfl)
  have hlocate := (locate_eq_followSteps hrefusal true).trans (hnames 0)
  refine ⟨left, hlocate, ?_⟩
  intro hmany more
  rw [← hnames more]
  exact hlimits.never_enough (hlocate.trans hmany) (maxLinks + more)

/-- The lesser number of links gives the answer, if it is enough or none is. -/
theorem followSteps_eq_of_le {left left' : Nat} {steps : List Step} (hle : left ≤ left')
    (hnever : followSteps fs.root true left trail steps = .error .tooManyLinks →
      ∀ more, followSteps fs.root true (left + more) trail steps = .error .tooManyLinks) :
    followSteps fs.root true left trail steps = followSteps fs.root true left' trail steps := by
  obtain ⟨more, rfl⟩ := Nat.exists_eq_add_of_le hle
  by_cases hmany : followSteps fs.root true left trail steps = .error .tooManyLinks
  · rw [hnever hmany more, hmany]
  · rw [followSteps_add hmany]

/-- An entry is the same node by every path of its directory, within the limits. -/
theorem stat_descend_eq (hroot : fs.find root true = .ok trail)
    (hother : fs.find other true = .ok trail) (hplace : ∀ name ∈ place, ProperName name)
    (hlimits : fs.WithinLimits (root.descend place))
    (hlimits' : fs.WithinLimits (other.descend place)) :
    fs.stat (root.descend place) = fs.stat (other.descend place) := by
  by_cases hne : place = []
  · subst hne
    exact stat_eq_of_find hroot hother
  rw [stat_eq_bind, stat_eq_bind]
  refine congrArg (Except.bind · _) ?_
  have hrefusal := refusal?_descend hroot hplace hlimits
  have hrefusal' := refusal?_descend hother hplace hlimits'
  by_cases hzero : ∃ name ∈ place, (0 : UInt8) ∈ name
  · rw [if_pos hzero] at hrefusal hrefusal'
    rw [locate_eq_error hrefusal, locate_eq_error hrefusal']
  rw [if_neg hzero] at hrefusal hrefusal'
  obtain ⟨left, hlocate, hnever⟩ :=
    exists_links_locate_descend hroot hplace hne hlimits hrefusal
  obtain ⟨left', hlocate', hnever'⟩ :=
    exists_links_locate_descend hother hplace hne hlimits' hrefusal'
  rw [hlocate, hlocate']
  -- By one of the paths there are fewer links left for the names; they are enough, or none are.
  rcases Nat.le_total left left' with hle | hle
  · exact followSteps_eq_of_le hle hnever
  · exact (followSteps_eq_of_le hle hnever').symm

end Descend

end FileSystem

end SourceSurvey
