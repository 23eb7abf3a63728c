import SourceSurvey.Proofs.Ancestors
import SourceSurvey.Proofs.FileSystem.Direct

/-!
# Where a path leads without links

In a tree without symbolic links the text of a path tells where it leads, if it leads anywhere: a
name goes one directory down and two dots go one up (`Path.destination`). The nodes on the way do
not matter for that (`FileSystem.place_eq_destination`); they matter for whether the path leads
there at all. If there is a directory wherever the way goes on, then only the system can refuse the
path, for a missing permission or for its length (`followSteps_of_treads`).

Paths put together lead on from where the first one leads (`Path.destination_append`).
-/

set_option autoImplicit false

namespace SourceSurvey

/-! ## Steps and components as moves -/

/-- The place that a step leads to. -/
def Step.move (place : List Name) : Step → List Name
  | .name next => place ++ [next]
  | .up => place.dropLast
  | .here => place
  | .directory => place

/-- The place that a component leads to. -/
def Path.Component.move (place : List Name) : Path.Component → List Name
  | .root => []
  | .here => place
  | .up => place.dropLast
  | .name next => place ++ [next]

namespace Path

/-- The place that a path leads to from a place, if it leads anywhere. -/
def destination (p : Path) (start : List Name) : List Name :=
  p.components.foldl Component.move start

section Destination

variable {p q : Path} {start : List Name} {name : Name}

/-- Pieces that carry no meaning lead nowhere, all others lead where their components lead. -/
theorem foldl_move_pieces (pieces : List (List UInt8)) (start : List Name) :
    ((pieces.filter (!isNoise ·)).map Component.ofPiece).foldl Component.move start =
      (pieces.filterMap Step.ofPiece?).foldl Step.move start := by
  induction pieces generalizing start with
  | nil => rfl
  | cons piece rest ih =>
    by_cases hnil : piece = []
    · subst hnil
      exact ih start
    by_cases hdot : piece = [dot]
    · subst hdot
      exact ih start
    have hnoise : isNoise piece = false := by simp [isNoise, hnil, hdot]
    rw [List.filter_cons_of_pos (by simp [hnoise]), List.map_cons, List.foldl_cons, ih]
    by_cases hdots : piece = [dot, dot]
    · subst hdots
      rfl
    · have hname : Step.ofPiece? piece = some (.name piece) := by
        simp [Step.ofPiece?, hnil, hdot, hdots]
      rw [List.filterMap_cons_some hname, List.foldl_cons, Component.ofPiece, if_neg hdots]
      rfl

/-- The steps of a path lead to its destination. A slash at the end leads nowhere. -/
theorem foldl_move_innerSteps (hp : p.bytes ≠ []) (start : List Name) :
    p.innerSteps.foldl Step.move (if p.isRooted then [] else start) = p.destination start := by
  rw [destination, components_eq, List.foldl_append, foldl_move_pieces, innerSteps]
  by_cases hrooted : p.isRooted = true
  · have hfirst : p.firstPiece = [] := by
      rw [isRooted_eq hp] at hrooted
      exact of_decide_eq_true hrooted
    rw [if_pos hrooted, firstComponents, if_pos hrooted, hfirst]
    rfl
  · have hne := firstPiece_ne_nil hp (by simpa using hrooted)
    rw [if_neg hrooted, firstComponents, if_neg hrooted, if_neg hne]
    by_cases hdot : p.firstPiece = [dot]
    · rw [if_pos hdot, hdot]
      rfl
    -- The first piece is a piece like the others.
    · have hnoise : isNoise p.firstPiece = false := by simp [isNoise, hne, hdot]
      have hpieces := foldl_move_pieces (p.firstPiece :: p.innerPieces) start
      rw [List.filter_cons_of_pos (by simp [hnoise]), List.map_cons, List.foldl_cons,
        foldl_move_pieces] at hpieces
      rw [if_neg hdot]
      exact hpieces.symm

theorem foldl_move_steps (hp : p.bytes ≠ []) (start : List Name) :
    p.steps.foldl Step.move (if p.isRooted then [] else start) = p.destination start := by
  rw [steps_eq, List.foldl_append, foldl_move_innerSteps hp]
  split <;> rfl

theorem bytes_append_ne_nil (hp : p.bytes ≠ []) (hq : q.isRooted = false) : (p ++ q).bytes ≠ [] := by
  intro hnil
  have hsplit := split_append hp hq
  rw [hnil] at hsplit
  cases hothers : p.innerPieces <;> simp [split, hothers] at hsplit

/-- The steps of a path behind another one come after those of the other. -/
theorem steps_append (hp : p.bytes ≠ []) (hq : q.isRooted = false) (hne : q.bytes ≠ []) :
    (p ++ q).steps = p.innerSteps ++ q.steps := by
  have hlast : (p ++ q).bytes.getLast? = q.bytes.getLast? := by
    rw [bytes_append hp hq, List.getLast?_append_of_ne_nil _ hne]
  rw [steps, hlast, firstPiece, otherPieces, split_append hp hq, ← List.cons_append,
    List.filterMap_append, List.append_assoc]
  rfl

/-- A path behind another one leads on from where the other leads. -/
theorem destination_append (hp : p.bytes ≠ []) (hq : q.isRooted = false) (hne : q.bytes ≠ [])
    (start : List Name) : (p ++ q).destination start = q.destination (p.destination start) := by
  have hrooted : (p ++ q).isRooted = p.isRooted := by
    rw [isRooted_eq hp, isRooted_eq (bytes_append_ne_nil hp hq), firstPiece, split_append hp hq]
  have hsteps := foldl_move_steps (bytes_append_ne_nil hp hq) start
  rw [steps_append hp hq hne, List.foldl_append, hrooted, foldl_move_innerSteps hp] at hsteps
  have hbehind := foldl_move_steps hne (p.destination start)
  rw [hq, if_neg Bool.false_ne_true] at hbehind
  rw [← hsteps, hbehind]

/-- A rooted path leads to one place, wherever it is taken from. -/
theorem destination_of_isRooted (h : p.isRooted = true) (start : List Name) :
    p.destination start = p.destination [] := by
  rw [destination, destination, components, firstComponents, if_pos h]
  rfl

theorem foldl_move_names (place start : List Name) :
    (place.map Component.name).foldl Component.move start = start ++ place := by
  induction place generalizing start with
  | nil => exact (List.append_nil _).symm
  | cons name place ih =>
    rw [List.map_cons, List.foldl_cons, ih]
    exact List.append_assoc start [name] place

/-- The names behind a path lead on from where the path leads. -/
theorem destination_descend {place : List Name} (hp : p.bytes ≠ [])
    (h : ∀ name ∈ place, ProperName name) (start : List Name) :
    (p.descend place).destination start = p.destination start ++ place := by
  rw [destination, components_descend hp h, map_ofPiece h, List.foldl_append, foldl_move_names]
  rfl

theorem destination_child (hp : p.bytes ≠ []) (hname : ProperName name) (start : List Name) :
    (p.child name).destination start = p.destination start ++ [name] := by
  have hnames : ∀ x ∈ [name], ProperName x := by simpa using hname
  exact destination_descend hp hnames start

end Destination

end Path

/-! ## Places that are found -/

/-- The place of the directory that holds the end of a trail. -/
theorem Trail.place_tail (trail : Trail) : Trail.place trail.tail = trail.place.dropLast := by
  rw [place, place, List.map_tail, ← List.dropLast_reverse]

section LinkFree

variable {root : Node} {links left : Nat} {trail trail' : Trail} {steps : List Step}
variable {entries : List (Name × Node)} {permissions : Permissions} {name : Name} {node : Node}

/-- What a directory of a tree without links lists is no link. -/
theorem Trail.IsWay.kind_ne_link (hfree : root.LinkFree) (hway : trail.IsWay root)
    (hnode : trail.node root = .directory entries permissions)
    (hentry : entries.lookup name = some node) : node.kind ≠ .link := by
  have hdirectory := hfree.of_descend? hway.descend?_place
  rw [hnode] at hdirectory
  exact (hdirectory.of_lookup hentry).kind_ne

/-- Without links a way ends where its steps lead. -/
theorem Follows.place_eq (h : Follows root links trail steps left trail') (hfree : root.LinkFree)
    (hway : trail.IsWay root) : trail'.place = steps.foldl Step.move trail.place := by
  induction h with
  | nil links trail => rfl
  | directory _ _ ih => exact ih hway
  | here _ _ _ ih => exact ih hway
  | up _ _ _ ih =>
    rw [ih hway.tail, Trail.place_tail]
    rfl
  | name hnode _ _ hentry _ _ ih =>
    rw [ih ⟨hway, _, _, hnode, hentry⟩, Trail.place_cons]
    rfl
  | link hnode _ _ hentry _ _ =>
    exact absurd rfl (hway.kind_ne_link hfree hnode hentry)

/-- There is a directory wherever the steps go on. -/
def Treads (root : Node) : (place : List Name) → List Step → Prop
  | _, [] => True
  | place, step :: rest =>
    (∃ entries permissions, root.descend? place = some (.directory entries permissions)) ∧
      Treads root (step.move place) rest

theorem treads_append {place : List Name} {first second : List Step} :
    Treads root place (first ++ second) ↔
      Treads root place first ∧ Treads root (first.foldl Step.move place) second := by
  induction first generalizing place with
  | nil => simp [Treads]
  | cons step rest ih => simp [Treads, ih, and_assoc]

theorem Follows.treads (h : Follows root links trail steps left trail') (hfree : root.LinkFree)
    (hway : trail.IsWay root) : Treads root trail.place steps := by
  induction h with
  | nil links trail => exact True.intro
  | directory hnode _ ih => exact ⟨⟨_, _, hnode ▸ hway.descend?_place⟩, ih hway⟩
  | here hnode _ _ ih => exact ⟨⟨_, _, hnode ▸ hway.descend?_place⟩, ih hway⟩
  | up hnode _ _ ih =>
    have hrest := ih hway.tail
    rw [Trail.place_tail] at hrest
    exact ⟨⟨_, _, hnode ▸ hway.descend?_place⟩, hrest⟩
  | name hnode _ _ hentry _ _ ih =>
    have hrest := ih ⟨hway, _, _, hnode, hentry⟩
    rw [Trail.place_cons] at hrest
    exact ⟨⟨_, _, hnode ▸ hway.descend?_place⟩, hrest⟩
  -- There is no link to come by.
  | link hnode _ _ hentry _ _ =>
    exact absurd rfl (hway.kind_ne_link hfree hnode hentry)

/-- The names of a place that exists tread from directory to directory. -/
theorem treads_names {place : List Name} (start : List Name) {x : Node}
    (hx : root.descend? (start ++ place) = some x) : Treads root start (place.map .name) := by
  induction place generalizing start with
  | nil => exact True.intro
  | cons name place ih =>
    refine ⟨?_, ih (start ++ [name]) (by rwa [List.append_assoc])⟩
    rw [Node.descend?_append] at hx
    obtain ⟨node, hnode, hbelow⟩ := Option.bind_eq_some_iff.1 hx
    cases node with
    | directory entries permissions => exact ⟨entries, permissions, hnode⟩
    | file content permissions => cases hbelow
    | link target => cases hbelow
    | special kind => cases hbelow

/-- A reason for which the system refuses a path that leads somewhere: a missing permission, its
length, or a zero byte in it. -/
def IoError.IsRefusal (cause : IoError) : Prop :=
  cause = .permissionDenied ∨ cause = .nameTooLong ∨ cause = .zeroInPath

/-- A place that leads on through a directory leads to one of its entries. -/
theorem Trail.IsWay.exists_entry (hway : trail.IsWay root)
    (hnode : trail.node root = .directory entries permissions) {x : Node}
    (hx : root.descend? (trail.place ++ [name]) = some x) : entries.lookup name = some x := by
  rw [Node.descend?_append, hway.descend?_place, Option.bind_some, hnode,
    Node.descend?_directory_cons] at hx
  obtain ⟨child, hchild, hx⟩ := Option.bind_eq_some_iff.1 hx
  rw [Node.descend?_nil, Option.some.injEq] at hx
  rw [hchild, hx]

/-- Steps that tread from directory to directory lead to the end, unless the system refuses them. -/
theorem followSteps_of_treads (links : Nat) (hfree : root.LinkFree) (hway : trail.IsWay root)
    (htreads : Treads root trail.place steps) {x : Node}
    (hx : root.descend? (steps.foldl Step.move trail.place) = some x) :
    (∃ trail', followSteps root true links trail steps = .ok (.found trail') ∧
        trail'.node root = x) ∨
      ∃ cause, followSteps root true links trail steps = .error cause ∧ cause.IsRefusal := by
  -- The induction is on the steps; each goes on from a trail of its own, so it is over all trails.
  induction steps generalizing trail with
  | nil =>
    refine .inl ⟨trail, followSteps_nil _ _ _ _, ?_⟩
    rw [List.foldl_nil, hway.descend?_place] at hx
    exact Option.some.inj hx
  | cons step rest ih =>
    obtain ⟨⟨entries, permissions, hdirectory⟩, hrest⟩ := htreads
    have hnode : trail.node root = .directory entries permissions := by
      rw [hway.descend?_place] at hdirectory
      exact Option.some.inj hdirectory
    rw [List.foldl_cons] at hx
    -- A step that only asks for a directory needs no permission.
    by_cases hdirectory : step = .directory
    · subst hdirectory
      rw [followSteps_directory hnode]
      exact ih hway hrest hx
    -- Every other step needs the permission to search the directory.
    by_cases hs : permissions.search = true
    · cases step with
      | directory => exact absurd rfl hdirectory
      | here =>
        rw [followSteps_here hnode hs]
        exact ih hway hrest hx
      | up =>
        rw [followSteps_up hnode hs]
        rw [Step.move, ← Trail.place_tail] at hrest hx
        exact ih hway.tail hrest hx
      | name name =>
        -- A name that is too long is refused even if it is there.
        by_cases hlength : name.length ≤ maxNameLength
        · -- The next place exists: the way goes on from it or ends there.
          have hnext : ∃ y, root.descend? (trail.place ++ [name]) = some y := by
            cases rest with
            | nil => exact ⟨x, hx⟩
            | cons step' rest' =>
              obtain ⟨⟨entries', permissions', hdirectory'⟩, -⟩ := hrest
              exact ⟨_, hdirectory'⟩
          obtain ⟨y, hy⟩ := hnext
          have hentry := hway.exists_entry hnode hy
          rw [followSteps_name hnode hs hlength hentry (hway.kind_ne_link hfree hnode hentry)]
          rw [Step.move, ← Trail.place_cons name y] at hrest hx
          exact ih ⟨hway, _, _, hnode, hentry⟩ hrest hx
        · refine .inr ⟨.nameTooLong, ?_, .inr (.inl rfl)⟩
          rw [followSteps, hnode]
          simp [hs, Nat.not_le.1 hlength]
    · refine .inr ⟨.permissionDenied, ?_, .inl rfl⟩
      rw [followSteps, hnode]
      simp [hs, hdirectory]

end LinkFree

namespace FileSystem

variable {fs : FileSystem} {path : Path} {trail : Trail}

theorem exists_find_of_realPlace? {path : Path} {place : List Name}
    (h : fs.realPlace? path = some place) :
    ∃ trail, fs.find path true = .ok trail ∧ trail.place = place := by
  rw [realPlace?] at h
  cases hfind : fs.find path true with
  | error cause =>
    rw [hfind] at h
    cases h
  | ok trail =>
    rw [hfind] at h
    exact ⟨trail, rfl, Option.some.inj h⟩

/-- A relative path begins at the working directory, if that exists. -/
theorem place_start {x : Node} (hcwd : fs.root.descend? fs.cwd = some x) (path : Path) :
    (fs.start path).place = if path.isRooted then [] else fs.cwd := by
  rw [start]
  split
  · rfl
  · have hplace : (Trail.ofPlace fs.root [] fs.cwd).place = fs.cwd := Trail.place_ofPlace hcwd
    exact hplace

/-- Without links a path leads to its destination. -/
theorem place_eq_destination (hfree : fs.root.LinkFree) {x : Node}
    (hcwd : fs.root.descend? fs.cwd = some x) (h : fs.find path true = .ok trail) :
    trail.place = path.destination fs.cwd := by
  obtain ⟨-, left, hfollows⟩ := follows_of_find h
  rw [hfollows.place_eq hfree (fs.isWay_start path), place_start hcwd,
    Path.foldl_move_steps (bytes_ne_nil_of_find h)]

/-- A path from the root that treads from directory to directory leads to its destination, unless
the system refuses it. -/
theorem stat_of_treads (hfree : fs.root.LinkFree) (hrooted : path.isRooted = true)
    (htreads : Treads fs.root [] path.steps) {x : Node}
    (hx : fs.root.descend? (path.destination []) = some x) :
    fs.stat path = .ok x ∨ ∃ cause, fs.stat path = .error cause ∧ cause.IsRefusal := by
  have hne := Path.bytes_ne_nil_of_isRooted hrooted
  have hstart : fs.start path = [] := by rw [start, if_pos hrooted]
  have hsteps := Path.foldl_move_steps hne []
  rw [hrooted, if_pos rfl] at hsteps
  rw [stat_eq_bind]
  cases hrefusal : path.refusal? with
  | some cause =>
    refine .inr ⟨cause, by rw [locate_eq_error hrefusal]; rfl, ?_⟩
    unfold Path.refusal? at hrefusal
    split at hrefusal
    · exact .inr (.inr (Option.some.inj hrefusal).symm)
    · split at hrefusal
      · exact .inr (.inl (Option.some.inj hrefusal).symm)
      · cases hrefusal
  | none =>
    rw [locate_eq_followSteps hrefusal, hstart]
    have hway : Trail.IsWay fs.root [] := True.intro
    rcases followSteps_of_treads maxLinks hfree hway htreads (hsteps ▸ hx) with
      ⟨trail', hfound, hnode⟩ | ⟨cause, herror, hcause⟩
    · exact .inl (by rw [hfound]; exact congrArg Except.ok hnode)
    · exact .inr ⟨cause, by rw [herror]; rfl, hcause⟩

end FileSystem

end SourceSurvey
