import Mathlib.Data.List.Infix
import SourceSurvey.Proofs.FileSystem.Following
import SourceSurvey.Proofs.Report.Recording

/-!
# What a survey comes across

A walk reaches an entry when every directory on the way can be listed and none of them has a name
that is left out (`Survey.Reached`); of the entries that it reaches a survey counts some
(`Survey.IsCounted`). Both are said of places, without following the walk. What is made of the
entries of a walk is made of the places that are reached, in the order in which the tree lists them
(`Survey.flatMap_visits`), and the main statement is that a survey records exactly the counted
places (`Survey.recordings_findings`).

The root itself, which may be a link, is visited and never counted (`Survey.visits_of_listing`).
-/

set_option autoImplicit false

namespace SourceSurvey

/-- Whether the directory that a path leads to can be listed. -/
def FileSystem.canList (fs : FileSystem) (path : Path) : Bool := (fs.listing path).isOk

/-- Whether a directory of this name is left out of a walk. -/
def isExcludedName (exclude : List String) (name : Name) : Bool :=
  match Utf8.toString? name with
  | some text => text = vcsDirectory || exclude.contains text
  | none => false

namespace Survey

/-- A place below `root` that a walk can get to: every directory on the way, the root included, can
be listed, and no directory on the way below the root has a name that is left out. -/
structure Reached (fs : FileSystem) (exclude : List String) (root : Path) (place : List Name) :
    Prop where
  listed : ∀ above ∈ place.dropLast.inits, fs.canList (root.descend above) = true
  kept : ∀ name ∈ place.dropLast, isExcludedName exclude name = false

/-- What a survey takes for a file: a regular file that exists, or a link that leads to a regular
file. -/
def IsFile (fs : FileSystem) (path : Path) (kind : Kind) : Prop :=
  kind = .file ∧ fs.exists? path = true ∨ kind = .link ∧ fs.isRegularFile path = true

/-- An entry that a survey counts, given by its place and its kind: a file that is reached and not
ignored, of the category that is asked for, if one is. -/
structure IsCounted (fs : FileSystem) (options : SurveyOptions) (classifier : Classifier)
    (root : Path) (place : List Name) (kind : Kind) : Prop where
  reached : Reached fs options.exclude root place
  isFile : IsFile fs (root.descend place) kind
  notIgnored : options.ignore.ignores (Path.ofPlace place) = false
  wanted : options.language = none ∨
    options.language = some (classifier.classify (root.descend place))

instance (fs : FileSystem) (exclude : List String) (root : Path) (place : List Name) :
    Decidable (Reached fs exclude root place) :=
  decidable_of_iff
    ((∀ above ∈ place.dropLast.inits, fs.canList (root.descend above) = true) ∧
      ∀ name ∈ place.dropLast, isExcludedName exclude name = false)
    ⟨fun h => ⟨h.1, h.2⟩, fun h => ⟨h.1, h.2⟩⟩

instance (fs : FileSystem) (path : Path) (kind : Kind) : Decidable (IsFile fs path kind) :=
  inferInstanceAs (Decidable (_ ∨ _))

instance (fs : FileSystem) (options : SurveyOptions) (classifier : Classifier) (root : Path)
    (place : List Name) (kind : Kind) :
    Decidable (IsCounted fs options classifier root place kind) :=
  decidable_of_iff
    (Reached fs options.exclude root place ∧ IsFile fs (root.descend place) kind ∧
      options.ignore.ignores (Path.ofPlace place) = false ∧
      (options.language = none ∨
        options.language = some (classifier.classify (root.descend place))))
    ⟨fun h => ⟨h.1, h.2.1, h.2.2.1, h.2.2.2⟩, fun h => ⟨h.1, h.2, h.3, h.4⟩⟩

/-! ## Reaching -/

section Reached

variable {fs : FileSystem} {exclude : List String} {root : Path}

/-- The entries of the root are reached if it can be listed. -/
theorem reached_singleton {name : Name} :
    Reached fs exclude root [name] ↔ fs.canList root = true := by
  constructor
  · intro h
    simpa using h.listed [] (by simp)
  · intro h
    exact ⟨by simpa using h, by simp⟩

/-- Reaching an entry of a directory is reaching the directory and, from there, the entry. -/
theorem reached_cons {name : Name} {rest : List Name} (hne : rest ≠ []) :
    Reached fs exclude root (name :: rest) ↔
      fs.canList root = true ∧ isExcludedName exclude name = false ∧
        Reached fs exclude (root.child name) rest := by
  have hlast : (name :: rest).dropLast = name :: rest.dropLast := List.dropLast_cons_of_ne_nil hne
  constructor
  · rintro ⟨listed, kept⟩
    rw [hlast] at listed kept
    refine ⟨by simpa using listed [] (by simp), kept name List.mem_cons_self, ?_, ?_⟩
    · intro above ha
      exact listed (name :: above) (by simpa using ha)
    · intro n hn
      exact kept n (List.mem_cons_of_mem _ hn)
  · rintro ⟨hroot, hname, listed, kept⟩
    constructor
    · intro above ha
      rw [hlast, List.mem_inits, List.prefix_cons_iff] at ha
      rcases ha with rfl | ⟨above, rfl, ha⟩
      · exact hroot
      · exact listed above ((List.mem_inits _ _).2 ha)
    · intro n hn
      rw [hlast] at hn
      rcases List.mem_cons.1 hn with rfl | hn
      · exact hname
      · exact kept n hn

end Reached

/-! ## The root -/

section Root

variable {fs : FileSystem} {root : Path} {entries : List (Name × Node)}

theorem canList_iff : fs.canList root = true ↔ ∃ entries, fs.listing root = .ok entries := by
  unfold FileSystem.canList
  cases fs.listing root <;> simp [Except.isOk, Except.toBool]

/-- A root that can be listed is a directory with these entries. -/
theorem exists_stat_of_listing (h : fs.listing root = .ok entries) :
    ∃ permissions, fs.stat root = .ok (.directory entries permissions) := by
  rw [FileSystem.listing] at h
  split at h
  · rename_i entries' permissions hstat
    split at h
    · cases h
      exact ⟨permissions, hstat⟩
    · cases h
  · cases h
  · cases h

/-- A root that can be listed is found. -/
theorem exists_find_of_canList (h : fs.canList root = true) :
    ∃ trail, fs.find root true = .ok trail := by
  obtain ⟨entries, hlisting⟩ := canList_iff.1 h
  obtain ⟨permissions, hstat⟩ := exists_stat_of_listing hlisting
  obtain ⟨trail, hfind, -⟩ := FileSystem.stat_eq_ok_iff.1 hstat
  exact ⟨trail, hfind⟩

/-- The path of a root that can be listed is not empty. -/
theorem bytes_ne_nil_of_canList (h : fs.canList root = true) : root.bytes ≠ [] := by
  obtain ⟨trail, hfind⟩ := exists_find_of_canList h
  exact FileSystem.bytes_ne_nil_of_find hfind

/-- A root that can be listed is visited, as a directory or as a link, and then its entries. -/
theorem visits_of_listing (h : fs.listing root = .ok entries) (skip : Entry → Bool)
    (hskip : ∀ entry : Entry, entry.depth = 0 → skip entry = false) :
    ∃ entry : Entry, entry.path = root ∧ (entry.kind = .directory ∨ entry.kind = .link) ∧
      Walk.visits fs skip root = .entry entry :: Walk.visitEntries fs skip root 1 entries := by
  obtain ⟨permissions, hstat⟩ := exists_stat_of_listing h
  obtain ⟨trail, hfind, hnode⟩ := FileSystem.stat_eq_ok_iff.1 hstat
  obtain ⟨hrefusal, left, hfollows⟩ := FileSystem.follows_of_find hfind
  -- The root is a directory by itself, or a link that leads to one.
  rcases hfollows.followSteps_false with hsame | ⟨name, target, trail', hlink⟩
  · have hlinkStat : fs.linkStat root = .ok (.directory entries permissions) := by
      rw [← FileSystem.locate_eq_followSteps hrefusal, ← FileSystem.find_eq_ok_iff] at hsame
      rw [FileSystem.linkStat, hsame, ← hnode]
      rfl
    refine ⟨⟨root, 0, root.fileName?.getD root.bytes, .directory⟩, rfl, .inl rfl, ?_⟩
    simp only [Walk.visits, hlinkStat, Walk.visitNode, Node.kind, hskip, h, Bool.false_eq_true,
      if_false]
  · have hlinkStat : fs.linkStat root = .ok (.link target) := by
      rw [← FileSystem.locate_eq_followSteps hrefusal, ← FileSystem.find_eq_ok_iff] at hlink
      rw [FileSystem.linkStat, hlink]
      rfl
    refine ⟨⟨root, 0, root.fileName?.getD root.bytes, .link⟩, rfl, .inr rfl, ?_⟩
    simp only [Walk.visits, hlinkStat, hstat, Walk.visitLinkedRoot, h]

/-- The root is no file to count, even if it is a link. -/
theorem not_isFile_root (h : fs.canList root = true) : ¬ IsFile fs root .link := by
  obtain ⟨entries, hlisting⟩ := canList_iff.1 h
  obtain ⟨permissions, hstat⟩ := exists_stat_of_listing hlisting
  rintro (⟨hkind, -⟩ | ⟨-, hregular⟩)
  · cases hkind
  · simp [FileSystem.isRegularFile, hstat] at hregular

end Root

/-! ## What is recorded for an entry -/

/-- Two ways to choose elements and to map them give the same list if they agree on each element. -/
theorem flatMap_filter_eq {α β : Type} {p q : α → Bool} {f g : α → List β} {xs : List α}
    (h : ∀ x ∈ xs, (if p x then f x else []) = if q x then g x else []) :
    (xs.filter p).flatMap f = (xs.filter q).flatMap g := by
  induction xs with
  | nil => rfl
  | cons x rest ih =>
    obtain ⟨hx, hrest⟩ := List.forall_mem_cons.1 h
    have hcons : ∀ (r : α → Bool) (k : α → List β),
        ((x :: rest).filter r).flatMap k =
          (if r x then k x else []) ++ (rest.filter r).flatMap k := by
      intro r k
      cases hr : r x <;> simp [hr]
    rw [hcons, hcons, hx, ih hrest]

section Recordings

variable (fs : FileSystem) (options : SurveyOptions) (classifier : Classifier) (root : Path)

/-- What is recorded for the file of a path. -/
def fileRecordings (path : Path) : List Recording :=
  Recording.ofFile path (classifier.classify path) (countFile fs path)

/-- What is recorded for an entry of this path and kind, if the walk reaches it. -/
def entryRecordings (path : Path) (kind : Kind) : List Recording :=
  (findingOfEntry fs options classifier root ⟨path, 0, [], kind⟩).recordings

/-- Nothing is recorded for a directory. -/
theorem entryRecordings_directory (path : Path) :
    entryRecordings fs options classifier root path .directory = [] := rfl

/-- The test of a survey for files is whether there is a file. -/
theorem isCountable_iff_isFile (entry : Entry) :
    entry.isCountable fs = true ↔ IsFile fs entry.path entry.kind := by
  unfold Entry.isCountable IsFile
  cases entry.kind <;> simp

/-- A survey wants every category, or one. -/
theorem wants_iff (category : String) :
    wants options category = true ↔
      options.language = none ∨ options.language = some category := by
  unfold wants
  cases options.language <;> simp

/-- Seen from the root, the path of a place is its names, so the patterns are about the names. -/
theorem isIgnored_descend {place : List Name} (hroot : root.bytes ≠ [])
    (hplace : ∀ name ∈ place, ProperName name) (hne : place ≠ []) :
    isIgnored options root (root.descend place) =
      options.ignore.ignores (Path.ofPlace place) := by
  rw [isIgnored, Path.relativeTo?_descend hroot hplace hne, Option.getD_some]
  -- Without patterns the path is not looked at, and then nothing is ignored.
  by_cases h : options.ignore.isEmpty = true
  · have hglobs : options.ignore.globs = [] := List.isEmpty_iff.1 h
    simp [h, IgnoreList.ignores, hglobs]
  · simp [h]

/-- For an entry that is reached, something is recorded if and only if it is counted. -/
theorem entryRecordings_descend {place : List Name} (kind : Kind) (hroot : root.bytes ≠ [])
    (hplace : ∀ name ∈ place, ProperName name) (hne : place ≠ [])
    (hreached : Reached fs options.exclude root place) :
    entryRecordings fs options classifier root (root.descend place) kind =
      if IsCounted fs options classifier root place kind then
        fileRecordings fs classifier (root.descend place)
      else [] := by
  have hignored := isIgnored_descend options root hroot hplace hne
  have hcounted : IsCounted fs options classifier root place kind ↔
      IsFile fs (root.descend place) kind ∧
        isIgnored options root (root.descend place) = false ∧
        wants options (classifier.classify (root.descend place)) = true := by
    rw [hignored, wants_iff]
    exact ⟨fun h => ⟨h.isFile, h.notIgnored, h.wanted⟩, fun h => ⟨hreached, h.1, h.2.1, h.2.2⟩⟩
  have hfile := isCountable_iff_isFile fs ⟨root.descend place, 0, [], kind⟩
  unfold entryRecordings findingOfEntry
  -- The tests are made in this order, and only an entry that passes all of them is recorded.
  by_cases h1 : IsFile fs (root.descend place) kind
  · rw [hfile.2 h1]
    by_cases h2 : isIgnored options root (root.descend place) = true
    · simp [h2, hcounted, Finding.recordings]
    · by_cases h3 : wants options (classifier.classify (root.descend place)) = true
      · simp [h1, h2, h3, hcounted, Finding.recordings, fileRecordings]
      · simp [h2, h3, hcounted, Finding.recordings]
  · have hcountable : Entry.isCountable fs ⟨root.descend place, 0, [], kind⟩ = false := by
      simpa using mt hfile.1 h1
    simp [hcountable, h1, hcounted, Finding.recordings]

end Recordings

/-! ## What a walk makes of places -/

/-- What `f` makes of a visit, if it makes something of entries by their path and kind. -/
def visitOutcomes {β : Type} (f : Path → Kind → List β) : Visit → List β
  | .entry entry => f entry.path entry.kind
  | .failure .. => []

/-- What `f` makes of those of some places below `path` that are reached. -/
def placeOutcomes {β : Type} (fs : FileSystem) (exclude : List String) (f : Path → Kind → List β)
    (path : Path) (places : List (List Name × Node)) : List β :=
  (places.filter fun e => decide (Reached fs exclude path e.1)).flatMap fun e =>
    f (path.descend e.1) e.2.kind

section Places

variable {β : Type} {fs : FileSystem} {exclude : List String} {f : Path → Kind → List β} {path : Path}

/-- What is made of places is made one after the other. -/
theorem placeOutcomes_append (first second : List (List Name × Node)) :
    placeOutcomes fs exclude f path (first ++ second) =
      placeOutcomes fs exclude f path first ++ placeOutcomes fs exclude f path second := by
  rw [placeOutcomes, List.filter_append, List.flatMap_append]
  rfl

/-- The entries of a directory that can be listed are reached. -/
theorem placeOutcomes_cons (hpath : fs.canList path = true) (name : Name) (node : Node)
    (places : List (List Name × Node)) :
    placeOutcomes fs exclude f path (([name], node) :: places) =
      f (path.child name) node.kind ++ placeOutcomes fs exclude f path places := by
  have hself : decide (Reached fs exclude path (([name], node) : List Name × Node).1) = true := by
    simpa using reached_singleton.2 hpath
  rw [placeOutcomes, List.filter_cons, if_pos hself, List.flatMap_cons]
  rfl

/-- Nothing is made where nothing is reached. -/
theorem placeOutcomes_eq_nil {name : Name} {places : List (List Name × Node)}
    (h : ∀ e ∈ places, ¬ Reached fs exclude path (name :: e.1)) :
    placeOutcomes fs exclude f path (places.map fun e => (name :: e.1, e.2)) = [] := by
  rw [placeOutcomes, List.filter_eq_nil_iff.2]
  · rfl
  · intro e he
    obtain ⟨b, hb, rfl⟩ := List.mem_map.1 he
    simpa using h b hb

/-- What is made of places below a directory that is entered. -/
theorem placeOutcomes_map {name : Name} {places : List (List Name × Node)}
    (h : ∀ e ∈ places, Reached fs exclude path (name :: e.1) ↔
      Reached fs exclude (path.child name) e.1) :
    placeOutcomes fs exclude f path (places.map fun e => (name :: e.1, e.2)) =
      placeOutcomes fs exclude f (path.child name) places := by
  rw [placeOutcomes, placeOutcomes, List.filter_map, List.flatMap_map]
  congr 1
  exact List.filter_congr fun e he => by simp [h e he]

/-- Below the root, directories are left out by their names. -/
theorem isExcluded_iff {depth : Nat} {name : Name} {kind : Kind} :
    Entry.isExcluded exclude ⟨path, depth + 1, name, kind⟩ = true ↔
      kind = .directory ∧ isExcludedName exclude name = true := by
  show (decide (depth + 1 ≠ 0) && decide (kind = .directory) &&
    isExcludedName exclude name) = true ↔ _
  simp

end Places

/-! ## One node of a walk -/

section Visits

variable {fs : FileSystem} {skip : Entry → Bool} {path : Path} {depth : Nat} {name : Name}
variable {entries : List (Name × Node)} {permissions : Permissions}

/-- A node that is skipped is not visited. -/
theorem visitNode_skip {node : Node} (h : skip ⟨path, depth, name, node.kind⟩ = true) :
    Walk.visitNode fs skip path depth name node = [] := by
  rw [Walk.visitNode.eq_def]
  exact if_pos h

/-- A node that is no directory is visited by itself. -/
theorem visitNode_leaf {node : Node} (h : skip ⟨path, depth, name, node.kind⟩ = false)
    (hkind : node.kind ≠ .directory) :
    Walk.visitNode fs skip path depth name node = [.entry ⟨path, depth, name, node.kind⟩] := by
  rw [Walk.visitNode.eq_def]
  cases node with
  | directory entries permissions => exact absurd rfl hkind
  | file content permissions => exact if_neg (by simpa using h)
  | link target => exact if_neg (by simpa using h)
  | special kind => exact if_neg (by simpa using h)

/-- A directory that cannot be listed is visited, and the failure noted. -/
theorem visitNode_unlisted {cause : IoError} (h : skip ⟨path, depth, name, .directory⟩ = false)
    (hlisting : fs.listing path = .error cause) :
    Walk.visitNode fs skip path depth name (.directory entries permissions) =
      [.entry ⟨path, depth, name, .directory⟩, .failure path cause] := by
  rw [Walk.visitNode.eq_def]
  simp [Node.kind, h, hlisting]

/-- A directory that can be listed is visited before its entries. -/
theorem visitNode_listed {listed : List (Name × Node)}
    (h : skip ⟨path, depth, name, .directory⟩ = false) (hlisting : fs.listing path = .ok listed) :
    Walk.visitNode fs skip path depth name (.directory entries permissions) =
      .entry ⟨path, depth, name, .directory⟩ ::
        Walk.visitEntries fs skip path (depth + 1) entries := by
  rw [Walk.visitNode.eq_def]
  simp [Node.kind, h, hlisting]

end Visits

section Walk

variable {β : Type} {fs : FileSystem} {exclude : List String} {f : Path → Kind → List β}

/-- A walk over entries makes what is made of each of them. -/
theorem flatMap_visitEntries {path : Path} {depth : Nat} {entries : List (Name × Node)}
    (h : ∀ e ∈ entries,
      (Walk.visitNode fs (·.isExcluded exclude) (path.child e.1) depth e.1 e.2).flatMap
          (visitOutcomes f) =
        placeOutcomes fs exclude f path
          (([e.1], e.2) :: e.2.descendants.map fun b => (e.1 :: b.1, b.2))) :
    (Walk.visitEntries fs (·.isExcluded exclude) path depth entries).flatMap (visitOutcomes f) =
      placeOutcomes fs exclude f path (Node.entryDescendants entries) := by
  induction entries with
  | nil => rfl
  | cons e rest ih =>
    obtain ⟨hhead, hrest⟩ := List.forall_mem_cons.1 h
    rw [Walk.visitEntries, List.flatMap_append, hhead, ih hrest, Node.entryDescendants,
      placeOutcomes_append]

/-- A node that is no directory counts for its own place. -/
theorem flatMap_visitNode_leaf {node : Node} {path : Path} {depth : Nat} {name : Name}
    (hpath : fs.canList path = true) (hkind : node.kind ≠ .directory) :
    (Walk.visitNode fs (·.isExcluded exclude) (path.child name) (depth + 1) name node).flatMap
        (visitOutcomes f) =
      placeOutcomes fs exclude f path
        (([name], node) :: node.descendants.map fun e => (name :: e.1, e.2)) := by
  have hskip : Entry.isExcluded exclude ⟨path.child name, depth + 1, name, node.kind⟩ = false := by
    rw [← Bool.not_eq_true, isExcluded_iff]
    exact fun h => hkind h.1
  rw [visitNode_leaf hskip hkind, placeOutcomes_cons hpath, Node.descendants_eq_nil hkind]
  rfl

/-- A walk over a node makes what is made of the places that are reached, if nothing is made of
directories. -/
theorem flatMap_visitNode (hdirectory : ∀ path, f path .directory = []) (node : Node) :
    ∀ (path : Path) (depth : Nat) (name : Name), fs.canList path = true →
    (Walk.visitNode fs (·.isExcluded exclude) (path.child name) (depth + 1) name node).flatMap
        (visitOutcomes f) =
      placeOutcomes fs exclude f path
        (([name], node) :: node.descendants.map fun e => (name :: e.1, e.2)) := by
  -- The induction is on the tree. The path of a directory changes on the way down, so it stands
  -- behind the node in the statement.
  induction node using Node.rec' with
  | directory entries permissions ih =>
    intro path depth name hpath
    have hplaces : ∀ e ∈ (Node.directory entries permissions).descendants, e.1 ≠ [] :=
      fun e he => Node.ne_nil_of_mem_descendants he
    rw [placeOutcomes_cons hpath, Node.kind, hdirectory, List.nil_append]
    by_cases hname : isExcludedName exclude name = true
    -- The directory is left out, and with it everything below it.
    · rw [visitNode_skip (isExcluded_iff.2 ⟨rfl, hname⟩), placeOutcomes_eq_nil fun e he hreached => by
        simp [((reached_cons (hplaces e he)).1 hreached).2.1] at hname]
      rfl
    · have hskip : Entry.isExcluded exclude ⟨path.child name, depth + 1, name, .directory⟩ =
          false := by
        rw [← Bool.not_eq_true, isExcluded_iff]
        exact fun h => hname h.2
      cases hlisting : fs.listing (path.child name) with
      -- The directory cannot be listed: nothing below it is reached.
      | error cause =>
        rw [visitNode_unlisted hskip hlisting, placeOutcomes_eq_nil fun e he hreached => by
          have hlisted := ((reached_cons (hplaces e he)).1 hreached).2.2.listed [] (by simp)
          obtain ⟨entries, hentries⟩ := canList_iff.1 hlisted
          rw [Path.descend_nil, hlisting] at hentries
          cases hentries]
        simp [visitOutcomes, hdirectory]
      -- The directory is entered.
      | ok listed =>
        have hchild : fs.canList (path.child name) = true := canList_iff.2 ⟨_, hlisting⟩
        rw [visitNode_listed hskip hlisting, placeOutcomes_map fun e he => by
          rw [reached_cons (hplaces e he)]
          exact ⟨fun h => h.2.2, fun h => ⟨hpath, by simpa using hname, h⟩⟩]
        rw [List.flatMap_cons, visitOutcomes, hdirectory, List.nil_append]
        exact flatMap_visitEntries fun e he => ih e he (path.child name) (depth + 1) e.1 hchild
  | file content permissions =>
    exact fun _ _ _ hpath => flatMap_visitNode_leaf hpath Kind.noConfusion
  | link target =>
    exact fun _ _ _ hpath => flatMap_visitNode_leaf hpath Kind.noConfusion
  | special kind =>
    exact fun _ _ _ hpath => flatMap_visitNode_leaf hpath Kind.noConfusion

end Walk

end Survey

/-! ## The entries below a root -/

/-- All entries below what a path leads to, each with its place and its kind. -/
def FileSystem.entriesBelow (fs : FileSystem) (root : Path) : List (List Name × Kind) :=
  match fs.stat root with
  | .ok node => node.descendants.map fun e => (e.1, e.2.kind)
  | .error _ => []

namespace Survey

section Entries

variable {fs : FileSystem} {root : Path} {entries : List (Name × Node)}

/-- Whatever a path leads to in a well-formed tree is well formed. -/
theorem wellFormed_of_stat (hfs : fs.root.WellFormed) {node : Node} (h : fs.stat root = .ok node) :
    node.WellFormed := by
  unfold FileSystem.stat at h
  cases hfind : fs.find root true with
  | error cause => rw [hfind] at h; cases h
  | ok trail =>
    rw [hfind] at h
    cases h
    exact (hfs.of_descend? (FileSystem.isWay_of_find hfind).descend?_place).2

/-- The entries below a root are the nodes that its names lead to. -/
theorem mem_entriesBelow (hfs : fs.root.WellFormed) {place : List Name} {kind : Kind} :
    (place, kind) ∈ fs.entriesBelow root ↔
      place ≠ [] ∧ ∃ node x, fs.stat root = .ok node ∧ node.descend? place = some x ∧
        x.kind = kind := by
  unfold FileSystem.entriesBelow
  cases h : fs.stat root with
  | error cause => simp
  | ok node =>
    -- Names of a well-formed tree lead to one node each, so being a descendant is being led to.
    have hnode := wellFormed_of_stat hfs h
    simp only [List.mem_map, Prod.mk.injEq, Prod.exists]
    constructor
    · rintro ⟨p, x, hmem, rfl, rfl⟩
      obtain ⟨hne, hx⟩ := (Node.mem_descendants_iff hnode).1 hmem
      exact ⟨hne, node, x, rfl, hx, rfl⟩
    · rintro ⟨hne, _, x, hok, hx, rfl⟩
      cases hok
      exact ⟨place, x, (Node.mem_descendants_iff hnode).2 ⟨hne, hx⟩, rfl, rfl⟩

/-- Every entry is listed once. -/
theorem nodup_entriesBelow (hfs : fs.root.WellFormed) : (fs.entriesBelow root).Nodup := by
  unfold FileSystem.entriesBelow
  cases h : fs.stat root with
  | error cause => exact List.nodup_nil
  | ok node =>
    have hplaces := Node.nodup_places (wellFormed_of_stat hfs h)
    refine List.Nodup.of_map (·.1) ?_
    rwa [List.map_map]

/-- The place of an entry is made of proper names, one at least. -/
theorem properNames_of_mem (hfs : fs.root.WellFormed) {place : List Name} {kind : Kind}
    (h : (place, kind) ∈ fs.entriesBelow root) :
    place ≠ [] ∧ ∀ name ∈ place, ProperName name := by
  obtain ⟨hne, node, x, hnode, hx, -⟩ := (mem_entriesBelow hfs).1 h
  exact ⟨hne, ((wellFormed_of_stat hfs hnode).of_descend? hx).1⟩

/-- The entries below a root are found from its listing. -/
theorem entriesBelow_of_listing (h : fs.listing root = .ok entries) :
    fs.entriesBelow root = (Node.entryDescendants entries).map fun e => (e.1, e.2.kind) := by
  obtain ⟨permissions, hstat⟩ := exists_stat_of_listing h
  simp only [FileSystem.entriesBelow, hstat, Node.descendants]

end Entries

section Scan

variable (fs : FileSystem) (options : SurveyOptions) (classifier : Classifier) (root : Path)

/-- The entries that a survey counts. -/
def countedEntries : List (List Name × Kind) :=
  (fs.entriesBelow root).filter fun e => decide (IsCounted fs options classifier root e.1 e.2)

variable {fs options classifier root}

/-- A walk makes what is made of the entries that are reached, in the order of the tree, if
nothing is made of directories and of the root, should it be a link. -/
theorem flatMap_visits {β : Type} {f : Path → Kind → List β} (hroot : fs.canList root = true)
    (hdirectory : ∀ path, f path .directory = []) (hlink : f root .link = []) :
    (Walk.visits fs (·.isExcluded options.exclude) root).flatMap (visitOutcomes f) =
      ((fs.entriesBelow root).filter fun e => decide (Reached fs options.exclude root e.1)).flatMap
        fun e => f (root.descend e.1) e.2 := by
  obtain ⟨entries, hlisting⟩ := canList_iff.1 hroot
  obtain ⟨rootEntry, hpath, hkind, hvisits⟩ := visits_of_listing hlisting
    (·.isExcluded options.exclude) fun entry hdepth => by simp [Entry.isExcluded, hdepth]
  have hrootEntry : visitOutcomes f (.entry rootEntry) = [] := by
    rw [visitOutcomes, hpath]
    rcases hkind with hkind | hkind
    · rw [hkind, hdirectory]
    · rw [hkind, hlink]
  rw [hvisits, List.flatMap_cons, hrootEntry, List.nil_append,
    flatMap_visitEntries fun e _ => flatMap_visitNode hdirectory e.2 root 0 e.1 hroot,
    entriesBelow_of_listing hlisting, List.filter_map, List.flatMap_map]
  rfl

/-- A survey records exactly the counted entries of the tree. -/
theorem recordings_findings (hfs : fs.root.WellFormed) (hroot : fs.canList root = true) :
    (findings fs options classifier root).flatMap Finding.recordings =
      (countedEntries fs options classifier root).flatMap fun e =>
        fileRecordings fs classifier (root.descend e.1) := by
  have hbytes := bytes_ne_nil_of_canList hroot
  -- The walk visits the root as well, but it is no file to count, even as a link.
  have hlink : entryRecordings fs options classifier root root .link = [] := by
    have hcountable : Entry.isCountable fs ⟨root, 0, [], .link⟩ = false := by
      rw [← Bool.not_eq_true, isCountable_iff_isFile]
      exact not_isFile_root hroot
    simp [entryRecordings, findingOfEntry, hcountable, Finding.recordings]
  have hvisit : ∀ visit, (findingOf fs options classifier root visit).recordings =
      visitOutcomes (entryRecordings fs options classifier root) visit := by
    intro visit
    cases visit <;> rfl
  rw [findings, List.flatMap_map, funext hvisit,
    flatMap_visits hroot (entryRecordings_directory fs options classifier root) hlink,
    countedEntries]
  -- Of the entries that are reached the counted ones are recorded.
  apply flatMap_filter_eq
  intro e he
  obtain ⟨hne, hproper⟩ := properNames_of_mem hfs he
  by_cases hreached : Reached fs options.exclude root e.1
  · have hentry := entryRecordings_descend fs options classifier root e.2 hbytes hproper hne hreached
    simp [hreached, hentry]
  · have hcounted : ¬ IsCounted fs options classifier root e.1 e.2 := by
      intro h
      exact hreached h.reached
    simp [hreached, hcounted]

/-- A survey succeeds exactly when its root can be listed. -/
theorem scan_isOk_iff :
    (∃ report, scan fs options classifier root = .ok report) ↔ fs.canList root = true := by
  rw [canList_iff]
  unfold scan
  cases fs.listing root <;> simp

/-- The report of a survey is what is recorded for the entries that it counts. -/
theorem scan_eq_recordAll (hfs : fs.root.WellFormed) {report : Report}
    (h : scan fs options classifier root = .ok report) :
    report = Report.empty.recordAll ((countedEntries fs options classifier root).flatMap fun e =>
      fileRecordings fs classifier (root.descend e.1)) := by
  have hroot := scan_isOk_iff.1 ⟨report, h⟩
  obtain ⟨entries, hlisting⟩ := canList_iff.1 hroot
  rw [scan, hlisting, Except.ok.injEq] at h
  rw [← h, Report.ofFindings_eq_recordAll, recordings_findings hfs hroot]

end Scan

end Survey

end SourceSurvey
