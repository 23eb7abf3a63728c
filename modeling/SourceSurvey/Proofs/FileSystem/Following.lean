import SourceSurvey.FileSystem.Access
import SourceSurvey.Proofs.Path

/-!
# Following the steps of a path

A step that succeeds is one of six, and `Follows` lists them: a derivation is a way through the tree
with the number of links that are left at its end. Steps lead to a node exactly when there is a
derivation (`followSteps_eq_found_iff`), and what follows after a derivation begins where it ended
(`Follows.followSteps_append`). A trail that is found is a way of the tree (`Follows.isWay`), so it
ends where its names lead (`Trail.IsWay.descend?_place`).

With this the node of an entry can be found from the directory that the root leads to
(`FileSystem.locate_descend`), and where no links are left only the names matter
(`FileSystem.stat_descend`).
-/

set_option autoImplicit false

namespace SourceSurvey

/-! ## One step -/

section Step

variable {root : Node} {followLast : Bool} {links : Nat} {trail : Trail} {rest : List Step}
variable {entries : List (Name × Node)} {permissions : Permissions}

@[simp]
theorem followSteps_nil (root : Node) (followLast : Bool) (links : Nat) (trail : Trail) :
    followSteps root followLast links trail [] = .ok (.found trail) := by
  rw [followSteps]

/-- A slash at the end is passed in a directory. -/
theorem followSteps_directory (h : trail.node root = .directory entries permissions) :
    followSteps root followLast links trail (.directory :: rest) =
      followSteps root followLast links trail rest := by
  rw [followSteps, h]
  simp

/-- A dot stays in a directory that may be searched. -/
theorem followSteps_here (h : trail.node root = .directory entries permissions)
    (hs : permissions.search = true) :
    followSteps root followLast links trail (.here :: rest) =
      followSteps root followLast links trail rest := by
  rw [followSteps, h]
  simp [hs]

/-- Two dots lead to the directory above, and at the top nowhere. -/
theorem followSteps_up (h : trail.node root = .directory entries permissions)
    (hs : permissions.search = true) :
    followSteps root followLast links trail (.up :: rest) =
      followSteps root followLast links trail.tail rest := by
  rw [followSteps, h]
  simp [hs]

/-- A name leads to the entry of that name, if that is no link. -/
theorem followSteps_name {name : Name} {node : Node}
    (h : trail.node root = .directory entries permissions) (hs : permissions.search = true)
    (hlength : name.length ≤ maxNameLength) (hnode : entries.lookup name = some node)
    (hkind : node.kind ≠ .link) :
    followSteps root followLast links trail (.name name :: rest) =
      followSteps root followLast links ((name, node) :: trail) rest := by
  -- The row of the match for links has to be ruled out before the last row applies.
  have hlink : ∀ target, node ≠ .link target := fun target heq => hkind (by rw [heq]; rfl)
  rw [followSteps, h]
  simp only [reduceCtorEq, if_false, hs, Bool.not_true, Bool.false_eq_true, Nat.not_lt.2 hlength,
    hnode]

/-- A link is replaced by the steps of its target and uses up one of the links that are left. -/
theorem followSteps_link {name : Name} {target : List UInt8}
    (h : trail.node root = .directory entries permissions) (hs : permissions.search = true)
    (hlength : name.length ≤ maxNameLength) (hnode : entries.lookup name = some (.link target))
    (hlast : rest ≠ [] ∨ followLast = true) :
    followSteps root followLast (links + 1) trail (.name name :: rest) =
      followSteps root followLast links (if (⟨target⟩ : Path).isRooted then [] else trail)
        ((⟨target⟩ : Path).steps ++ rest) := by
  have hfollow : (decide (rest = []) && !followLast) = false := by
    rcases hlast with h | h <;> simp [h]
  rw [followSteps, h]
  simp only [reduceCtorEq, if_false, hs, Bool.not_true, Bool.false_eq_true, Nat.not_lt.2 hlength,
    hnode, hfollow]

/-- A link at the end stays, unless it is to be followed. -/
theorem followSteps_lastLink {name : Name} {target : List UInt8}
    (h : trail.node root = .directory entries permissions) (hs : permissions.search = true)
    (hlength : name.length ≤ maxNameLength) (hnode : entries.lookup name = some (.link target)) :
    followSteps root false links trail [.name name] =
      .ok (.found ((name, .link target) :: trail)) := by
  rw [followSteps, h]
  simp [hs, Nat.not_lt.2 hlength, hnode]

end Step

/-! ## Ways through a tree -/

/-- `Follows root links trail steps left trail'`: the steps lead from `trail` to `trail'`, and of
the `links` that may be followed `left` are left. -/
inductive Follows (root : Node) : Nat → Trail → List Step → Nat → Trail → Prop where
  | nil (links : Nat) (trail : Trail) : Follows root links trail [] links trail
  | directory {links left : Nat} {trail trail' : Trail} {rest : List Step}
      {entries : List (List UInt8 × Node)} {permissions : Permissions} :
      trail.node root = .directory entries permissions →
      Follows root links trail rest left trail' →
      Follows root links trail (.directory :: rest) left trail'
  | here {links left : Nat} {trail trail' : Trail} {rest : List Step}
      {entries : List (List UInt8 × Node)} {permissions : Permissions} :
      trail.node root = .directory entries permissions → permissions.search = true →
      Follows root links trail rest left trail' →
      Follows root links trail (.here :: rest) left trail'
  | up {links left : Nat} {trail trail' : Trail} {rest : List Step}
      {entries : List (List UInt8 × Node)} {permissions : Permissions} :
      trail.node root = .directory entries permissions → permissions.search = true →
      Follows root links trail.tail rest left trail' →
      Follows root links trail (.up :: rest) left trail'
  | name {links left : Nat} {trail trail' : Trail} {rest : List Step}
      {entries : List (List UInt8 × Node)} {permissions : Permissions} {name : Name}
      {node : Node} :
      trail.node root = .directory entries permissions → permissions.search = true →
      name.length ≤ maxNameLength → entries.lookup name = some node → node.kind ≠ .link →
      Follows root links ((name, node) :: trail) rest left trail' →
      Follows root links trail (.name name :: rest) left trail'
  | link {links left : Nat} {trail trail' : Trail} {rest : List Step}
      {entries : List (List UInt8 × Node)} {permissions : Permissions} {name : Name}
      {target : List UInt8} :
      trail.node root = .directory entries permissions → permissions.search = true →
      name.length ≤ maxNameLength → entries.lookup name = some (.link target) →
      Follows root links (if (⟨target⟩ : Path).isRooted then [] else trail)
        ((⟨target⟩ : Path).steps ++ rest) left trail' →
      Follows root (links + 1) trail (.name name :: rest) left trail'

section Follows

variable {root : Node} {links left : Nat} {trail trail' : Trail} {steps : List Step}

/-- What comes after a way begins where the way ended. -/
theorem Follows.followSteps_append (h : Follows root links trail steps left trail')
    (followLast : Bool) {after : List Step} (hafter : after ≠ [] ∨ followLast = true) :
    followSteps root followLast links trail (steps ++ after) =
      followSteps root followLast left trail' after := by
  induction h with
  | nil links trail => rfl
  | directory hnode _ ih =>
    rw [List.cons_append, followSteps_directory hnode, ih]
  | here hnode hs _ ih =>
    rw [List.cons_append, followSteps_here hnode hs, ih]
  | up hnode hs _ ih =>
    rw [List.cons_append, followSteps_up hnode hs, ih]
  | name hnode hs hlength hentry hkind _ ih =>
    rw [List.cons_append, followSteps_name hnode hs hlength hentry hkind, ih]
  | @link links left trail trail' rest _ _ _ target hnode hs hlength hentry _ ih =>
    -- Whether a link is followed depends on what comes after it, so on `after` if `rest` is empty.
    have hlast : rest ++ after ≠ [] ∨ followLast = true :=
      hafter.imp_left fun hne => List.append_ne_nil_of_right_ne_nil rest hne
    rw [List.cons_append, followSteps_link hnode hs hlength hentry hlast, ← List.append_assoc, ih]

/-- Along a way, following the steps succeeds. -/
theorem Follows.followSteps_eq (h : Follows root links trail steps left trail') :
    followSteps root true links trail steps = .ok (.found trail') := by
  have happend : followSteps root true links trail (steps ++ []) =
      followSteps root true left trail' [] := h.followSteps_append true (.inr rfl)
  rwa [List.append_nil, followSteps_nil] at happend

/-- Following the steps succeeds only along a way. The cases are those of following. -/
theorem exists_follows_of_eq_found {steps : List Step}
    (h : followSteps root true links trail steps = .ok (.found trail')) :
    ∃ left, Follows root links trail steps left trail' := by
  fun_induction followSteps root true links trail steps with
  | case1 =>
    cases h
    exact ⟨_, .nil _ _⟩
  | case2 _ _ _ _ _ hnode ih =>
    obtain ⟨left, hfollows⟩ := ih h
    exact ⟨left, .directory hnode hfollows⟩
  | case4 _ _ _ _ _ hnode hs _ ih =>
    obtain ⟨left, hfollows⟩ := ih h
    exact ⟨left, .up hnode (by simpa using hs) hfollows⟩
  | case10 _ _ _ _ hnode hs _ hlength target hentry _ _ _ _ ih =>
    obtain ⟨left, hfollows⟩ := ih h
    exact ⟨left, .link hnode (by simpa using hs) (Nat.not_lt.1 hlength) hentry hfollows⟩
  | case11 _ _ _ _ _ hnode hs _ hlength node hlink hentry _ ih =>
    obtain ⟨left, hfollows⟩ := ih h
    -- The row for links comes before this one.
    have hkind : node.kind ≠ .link := by
      cases node <;> simp_all [Node.kind]
    exact ⟨left, .name hnode (by simpa using hs) (Nat.not_lt.1 hlength) hentry hkind hfollows⟩
  | case12 _ _ step _ _ _ hnode hdirectory hs hup hname ih =>
    obtain ⟨left, hfollows⟩ := ih h
    have hstep : step = .here := by
      cases step <;> simp_all
    subst hstep
    exact ⟨left, .here hnode (by simpa using hs) hfollows⟩
  -- In the other cases the step is refused, a name is missing, or a link at the end stays.
  | case3 | case5 | case6 | case7 | case8 | case9 | case13 => simp_all

/-- Steps lead to a node exactly when there is a way. -/
theorem followSteps_eq_found_iff :
    followSteps root true links trail steps = .ok (.found trail') ↔
      ∃ left, Follows root links trail steps left trail' :=
  ⟨exists_follows_of_eq_found, fun ⟨_, h⟩ => h.followSteps_eq⟩

/-- A way on which a link at the end is not followed ends there or at such a link. -/
theorem Follows.followSteps_false (h : Follows root links trail steps left trail') :
    followSteps root false links trail steps = .ok (.found trail') ∨
      ∃ name target trail'', followSteps root false links trail steps =
        .ok (.found ((name, .link target) :: trail'')) := by
  induction h with
  | nil links trail => exact .inl (followSteps_nil _ _ _ _)
  | directory hnode _ ih => rwa [followSteps_directory hnode]
  | here hnode hs _ ih => rwa [followSteps_here hnode hs]
  | up hnode hs _ ih => rwa [followSteps_up hnode hs]
  | name hnode hs hlength hentry hkind _ ih => rwa [followSteps_name hnode hs hlength hentry hkind]
  | @link _ _ trail _ rest _ _ name target hnode hs hlength hentry _ ih =>
    by_cases hrest : rest = []
    · subst hrest
      exact .inr ⟨name, target, trail, followSteps_lastLink hnode hs hlength hentry⟩
    · rwa [followSteps_link hnode hs hlength hentry (.inl hrest)]

end Follows

/-! ## Trails of a tree -/

/-- A trail each node of which is an entry of the directory before it. -/
def Trail.IsWay (root : Node) : Trail → Prop
  | [] => True
  | (name, node) :: trail =>
    IsWay root trail ∧ ∃ entries permissions,
      Trail.node root trail = .directory entries permissions ∧ entries.lookup name = some node

namespace Trail

variable {root : Node} {trail : Trail}

/-- The way to a node goes by the directory that holds it. -/
theorem IsWay.tail (h : IsWay root trail) : IsWay root trail.tail := by
  cases trail with
  | nil => exact h
  | cons e trail => exact h.1

@[simp]
theorem place_cons (name : Name) (node : Node) (trail : Trail) :
    Trail.place ((name, node) :: trail) = trail.place ++ [name] := by
  simp [place]

/-- A way ends where its names lead. -/
theorem IsWay.descend?_place (h : IsWay root trail) :
    root.descend? trail.place = some (trail.node root) := by
  induction trail with
  | nil => exact Node.descend?_nil root
  | cons e trail ih =>
    obtain ⟨name, node⟩ := e
    obtain ⟨hway, entries, permissions, hnode, hentry⟩ := h
    rw [place_cons, Node.descend?_append, ih hway, Option.bind_some, hnode,
      Node.descend?_directory_cons, hentry, Option.bind_some, Node.descend?_nil]
    rfl

/-- Going on along names that are there gives a way. -/
theorem isWay_ofPlace (h : IsWay root trail) (place : List Name) :
    IsWay root (Trail.ofPlace root trail place) := by
  induction place generalizing trail with
  | nil => exact h
  | cons name place ih =>
    rw [Trail.ofPlace]
    split
    · rename_i entries permissions hnode
      split
      · rename_i node hentry
        exact ih ⟨h, entries, permissions, hnode, hentry⟩
      · exact h
    · exact h

end Trail

/-- Following steps through a tree stays in the tree. -/
theorem Follows.isWay {root : Node} {links left : Nat} {trail trail' : Trail} {steps : List Step}
    (h : Follows root links trail steps left trail') (hway : trail.IsWay root) :
    trail'.IsWay root := by
  induction h with
  | nil links trail => exact hway
  | directory _ _ ih => exact ih hway
  | here _ _ _ ih => exact ih hway
  | up _ _ _ ih => exact ih hway.tail
  | name hnode _ _ hentry _ _ ih => exact ih ⟨hway, _, _, hnode, hentry⟩
  | link _ _ _ _ _ ih =>
    apply ih
    split
    · exact True.intro
    · exact hway

/-- A way along two lists of steps is a way along the first and one along the second. -/
theorem Follows.of_append {root : Node} {links left : Nat} {trail trail' : Trail}
    {first second : List Step} (h : Follows root links trail (first ++ second) left trail') :
    ∃ between middle, Follows root links trail first between middle ∧
      Follows root between middle second left trail' := by
  -- The relation is about one list of steps, so the two parts are kept in an equation and the
  -- induction is on the way.
  generalize hsteps : first ++ second = steps at h
  induction h generalizing first with
  | nil links trail =>
    obtain ⟨rfl, rfl⟩ := List.append_eq_nil_iff.1 hsteps
    exact ⟨links, trail, .nil _ _, .nil _ _⟩
  | directory hnode h ih =>
    rcases List.append_eq_cons_iff.1 hsteps with ⟨rfl, rfl⟩ | ⟨rest, rfl, rfl⟩
    · exact ⟨_, _, .nil _ _, .directory hnode h⟩
    · obtain ⟨between, middle, h1, h2⟩ := ih rfl
      exact ⟨between, middle, .directory hnode h1, h2⟩
  | here hnode hs h ih =>
    rcases List.append_eq_cons_iff.1 hsteps with ⟨rfl, rfl⟩ | ⟨rest, rfl, rfl⟩
    · exact ⟨_, _, .nil _ _, .here hnode hs h⟩
    · obtain ⟨between, middle, h1, h2⟩ := ih rfl
      exact ⟨between, middle, .here hnode hs h1, h2⟩
  | up hnode hs h ih =>
    rcases List.append_eq_cons_iff.1 hsteps with ⟨rfl, rfl⟩ | ⟨rest, rfl, rfl⟩
    · exact ⟨_, _, .nil _ _, .up hnode hs h⟩
    · obtain ⟨between, middle, h1, h2⟩ := ih rfl
      exact ⟨between, middle, .up hnode hs h1, h2⟩
  | name hnode hs hlength hentry hkind h ih =>
    rcases List.append_eq_cons_iff.1 hsteps with ⟨rfl, rfl⟩ | ⟨rest, rfl, rfl⟩
    · exact ⟨_, _, .nil _ _, .name hnode hs hlength hentry hkind h⟩
    · obtain ⟨between, middle, h1, h2⟩ := ih rfl
      exact ⟨between, middle, .name hnode hs hlength hentry hkind h1, h2⟩
  | link hnode hs hlength hentry h ih =>
    -- The steps of the target are put in front of both lists, so they belong to the first.
    rcases List.append_eq_cons_iff.1 hsteps with ⟨rfl, rfl⟩ | ⟨rest, rfl, rfl⟩
    · exact ⟨_, _, .nil _ _, .link hnode hs hlength hentry h⟩
    · obtain ⟨between, middle, h1, h2⟩ := ih (List.append_assoc _ _ _)
      exact ⟨between, middle, .link hnode hs hlength hentry h1, h2⟩

/-! ## Paths -/

/-- Why a path is refused before it is followed. -/
def Path.refusal? (path : Path) : Option IoError :=
  if (0 : UInt8) ∈ path.bytes then some .zeroInPath
  else if path.bytes = [] then some .notFound
  else if maxPathLength < path.bytes.length then some .nameTooLong
  else none

namespace FileSystem

variable {fs : FileSystem} {path : Path} {trail : Trail}

/-- Where a path begins. -/
def start (fs : FileSystem) (path : Path) : Trail :=
  if path.isRooted then [] else Trail.ofPlace fs.root [] fs.cwd

/-- A path starts at the top or in the working directory, which both are in the tree. -/
theorem isWay_start (fs : FileSystem) (path : Path) : (fs.start path).IsWay fs.root := by
  unfold start
  split
  · exact True.intro
  · have hroot : Trail.IsWay fs.root [] := True.intro
    exact Trail.isWay_ofPlace hroot fs.cwd

/-- A path that is refused leads nowhere. -/
theorem locate_eq_error {cause : IoError} (h : path.refusal? = some cause) (followLast : Bool) :
    fs.locate path followLast = .error cause := by
  unfold Path.refusal? at h
  unfold locate
  split at h <;> rename_i hzero
  · rw [if_pos hzero, Option.some.inj h]
  split at h <;> rename_i hempty
  · rw [if_neg hzero, if_pos hempty, Option.some.inj h]
  split at h <;> rename_i hlong
  · rw [if_neg hzero, if_neg hempty, if_pos hlong, Option.some.inj h]
  · cases h

/-- A path that is not refused leads where its steps do. -/
theorem locate_eq_followSteps (h : path.refusal? = none) (followLast : Bool) :
    fs.locate path followLast =
      followSteps fs.root followLast maxLinks (fs.start path) path.steps := by
  unfold Path.refusal? at h
  unfold locate
  split at h <;> rename_i hzero
  · cases h
  split at h <;> rename_i hempty
  · cases h
  split at h <;> rename_i hlong
  · cases h
  rw [if_neg hzero, if_neg hempty, if_neg hlong]
  rfl

theorem find_eq_ok_iff {followLast : Bool} :
    fs.find path followLast = .ok trail ↔ fs.locate path followLast = .ok (.found trail) := by
  unfold find
  split
  · rename_i trail' h
    rw [h]
    simp
  · rename_i h
    rw [h]
    simp
  · rename_i h
    rw [h]
    simp

/-- What a path leads to is the node at the end of its trail. -/
theorem stat_eq_ok_iff {node : Node} :
    fs.stat path = .ok node ↔ ∃ trail, fs.find path true = .ok trail ∧ trail.node fs.root = node := by
  rw [stat]
  cases fs.find path true with
  | error cause => simp [Except.map]
  | ok trail => simp [Except.map]

/-- Paths with one trail lead to one node. -/
theorem stat_eq_of_find {other : Path} (h : fs.find path true = .ok trail)
    (hother : fs.find other true = .ok trail) : fs.stat path = fs.stat other := by
  rw [stat, stat, h, hother]

/-- A path that leads somewhere is followed along a way. -/
theorem follows_of_find (h : fs.find path true = .ok trail) :
    path.refusal? = none ∧
      ∃ left, Follows fs.root maxLinks (fs.start path) path.steps left trail := by
  rw [find_eq_ok_iff] at h
  cases hrefusal : path.refusal? with
  | some cause =>
    rw [locate_eq_error hrefusal] at h
    cases h
  | none =>
    rw [locate_eq_followSteps hrefusal] at h
    exact ⟨rfl, followSteps_eq_found_iff.1 h⟩

/-- The empty path leads nowhere. -/
theorem bytes_ne_nil_of_find (h : fs.find path true = .ok trail) : path.bytes ≠ [] := by
  intro hempty
  have hrefusal := (follows_of_find h).1
  simp [Path.refusal?, hempty] at hrefusal

/-- What a path finds is in the tree. -/
theorem isWay_of_find (h : fs.find path true = .ok trail) : trail.IsWay fs.root := by
  obtain ⟨-, left, hfollows⟩ := follows_of_find h
  exact hfollows.isWay (fs.isWay_start path)

/-- A slash at the end of a path changes nothing about where the path leads. -/
theorem follows_innerSteps_of_find (h : fs.find path true = .ok trail) :
    ∃ left, Follows fs.root maxLinks (fs.start path) path.innerSteps left trail := by
  obtain ⟨-, left, hfollows⟩ := follows_of_find h
  rw [Path.steps_eq] at hfollows
  obtain ⟨between, middle, hfirst, hsecond⟩ := hfollows.of_append
  split at hsecond
  · cases hsecond with
    | directory hnode h =>
      cases h
      exact ⟨left, hfirst⟩
  · cases hsecond
    exact ⟨left, hfirst⟩

/-- An entry is found from the directory that the root leads to. The number of links that are
left is the same for all entries. -/
theorem locate_descend (h : fs.find path true = .ok trail) :
    ∃ left, ∀ place : List Name, (∀ name ∈ place, ProperName name) → place ≠ [] →
      (path.descend place).refusal? = none → ∀ followLast,
        fs.locate (path.descend place) followLast =
          followSteps fs.root followLast left trail (place.map .name) := by
  obtain ⟨left, hfollows⟩ := follows_innerSteps_of_find h
  have hbytes := bytes_ne_nil_of_find h
  refine ⟨left, ?_⟩
  intro place hplace hne hrefusal followLast
  have hstart : fs.start (path.descend place) = fs.start path := by
    rw [start, start, Path.isRooted_descend hbytes hplace]
  rw [locate_eq_followSteps hrefusal, hstart, Path.steps_descend hbytes hplace hne]
  exact hfollows.followSteps_append followLast (.inl (by simpa using hne))

end FileSystem

/-! ## Trees without links -/

namespace Node

/-- A tree in which nothing is a symbolic link. -/
inductive LinkFree : Node → Prop where
  | file (content : Content) (permissions : Permissions) : LinkFree (.file content permissions)
  | directory {entries : List (List UInt8 × Node)} (permissions : Permissions) :
      (∀ e ∈ entries, LinkFree e.2) → LinkFree (.directory entries permissions)
  | special (kind : Special) : LinkFree (.special kind)

theorem LinkFree.of_lookup {entries : List (Name × Node)} {permissions : Permissions}
    (h : LinkFree (.directory entries permissions)) {name : Name} {node : Node}
    (hnode : entries.lookup name = some node) : LinkFree node := by
  cases h with
  | directory _ hentries =>
    obtain ⟨before, after, rfl, -⟩ := List.lookup_eq_some_iff.1 hnode
    exact hentries (name, node) (by simp)

/-- What is below a node without links has no links. -/
theorem LinkFree.of_descend? {node : Node} (h : node.LinkFree) {place : List Name} {x : Node}
    (hx : node.descend? place = some x) : x.LinkFree := by
  induction place generalizing node with
  | nil =>
    rw [descend?_nil, Option.some.injEq] at hx
    exact hx ▸ h
  | cons name place ih =>
    cases node with
    | directory entries permissions =>
      obtain ⟨child, hchild, hx⟩ := Option.bind_eq_some_iff.1 hx
      exact ih (h.of_lookup hchild) hx
    | file content permissions => cases hx
    | link target => cases hx
    | special kind => cases hx

/-- A node without links is no link. -/
theorem LinkFree.kind_ne {node : Node} (h : LinkFree node) : node.kind ≠ .link := by
  cases h <;> simp [kind]

/-- Follows names from a node through directories that may be searched; a link is not a
directory. -/
def follow : Node → List Name → Except IoError Node
  | node, [] => .ok node
  | .directory entries permissions, name :: place =>
    if !permissions.search then .error .permissionDenied
    else if maxNameLength < name.length then .error .nameTooLong
    else match entries.lookup name with
      | none => .error .notFound
      | some node => node.follow place
  | _, _ :: _ => .error .notDirectory

@[simp]
theorem follow_nil (node : Node) : node.follow [] = .ok node := by
  cases node <;> rfl

end Node

/-- The node that a spot stands for, if there is one. -/
def Spot.node (root : Node) : Spot → Except IoError Node
  | .found trail => .ok (trail.node root)
  | .absent .. => .error .notFound

namespace FileSystem

/-- A path leads to a node if it is located and there is something. -/
theorem stat_eq_bind (fs : FileSystem) (path : Path) :
    fs.stat path = (fs.locate path true).bind (Spot.node fs.root) := by
  unfold stat find
  split <;> rename_i h <;> rw [h] <;> rfl

/-- Without links only the names matter. -/
theorem followSteps_names {root : Node} {links : Nat} {trail : Trail} {place : List Name}
    (h : (trail.node root).LinkFree) :
    (followSteps root true links trail (place.map .name)).bind (Spot.node root) =
      (trail.node root).follow place := by
  induction place generalizing trail with
  | nil =>
    rw [List.map_nil, followSteps_nil, Node.follow_nil]
    rfl
  | cons name place ih =>
    rw [List.map_cons]
    cases hnode : trail.node root with
    | directory entries permissions =>
      rw [Node.follow]
      -- Searching, the length of the name and the look-up fail in the same order on both sides.
      by_cases hs : permissions.search = true
      · by_cases hlength : name.length ≤ maxNameLength
        · simp only [hs, Bool.not_true, Bool.false_eq_true, if_false, Nat.not_lt.2 hlength]
          cases hentry : entries.lookup name with
          | none =>
            rw [followSteps, hnode]
            simp only [reduceCtorEq, if_false, hs, Bool.not_true, Bool.false_eq_true,
              Nat.not_lt.2 hlength, hentry]
            split <;> rfl
          | some node =>
            rw [hnode] at h
            have hfree := h.of_lookup hentry
            rw [followSteps_name hnode hs hlength hentry hfree.kind_ne]
            exact ih hfree
        · rw [followSteps, hnode]
          simp only [reduceCtorEq, if_false, hs, Bool.not_true, Bool.false_eq_true,
            Nat.not_le.1 hlength, if_true]
          rfl
      · rw [followSteps, hnode]
        simp only [reduceCtorEq, if_false, hs, Bool.not_false, if_true]
        rfl
    | file content permissions =>
      rw [followSteps, hnode]
      rfl
    | link target =>
      rw [followSteps, hnode]
      rfl
    | special kind =>
      rw [followSteps, hnode]
      rfl

/-- In a tree without links below the root, an entry is what its names lead to. -/
theorem stat_descend {fs : FileSystem} {path : Path} {trail : Trail}
    (h : fs.find path true = .ok trail) (hfree : (trail.node fs.root).LinkFree)
    {place : List Name} (hplace : ∀ name ∈ place, ProperName name) (hne : place ≠ []) :
    fs.stat (path.descend place) =
      match (path.descend place).refusal? with
      | some cause => .error cause
      | none => (trail.node fs.root).follow place := by
  rw [stat_eq_bind]
  cases hrefusal : (path.descend place).refusal? with
  | some cause =>
    rw [locate_eq_error hrefusal]
    rfl
  | none =>
    obtain ⟨left, hlocate⟩ := locate_descend h
    rw [hlocate place hplace hne hrefusal]
    exact followSteps_names hfree

end FileSystem

end SourceSurvey
