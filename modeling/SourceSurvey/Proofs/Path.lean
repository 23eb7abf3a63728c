import SourceSurvey.Proofs.FileSystem.Tree

/-!
# Paths of what is below a directory

Entries of a walk have the path of the root with their names behind it (`Path.descend`). Such a path
has the pieces of the root followed by the names (`otherPieces_descend`), whichever way the root is
written: with slashes at its end, with dots, rooted or not. From that follow its steps
(`steps_descend`) and that seen from the root it is the names alone, with slashes between them
(`relativeTo?_descend`).
-/

set_option autoImplicit false

namespace SourceSurvey.Path

/-- The path of a place below the directory `p`. -/
def descend (p : Path) (place : List Name) : Path := place.foldl child p

/-- A place as a path: its names with slashes between them. -/
def ofPlace : List Name → Path
  | [] => ⟨[]⟩
  | name :: place => ⟨join name place⟩

@[simp]
theorem descend_nil (p : Path) : p.descend [] = p := rfl

@[simp]
theorem descend_cons (p : Path) (name : Name) (place : List Name) :
    p.descend (name :: place) = (p.child name).descend place := rfl

/-! ## Pieces -/

/-- A slash cuts a path into two that are split apart. -/
theorem split_append_slash (a b : List UInt8) :
    split (a ++ slash :: b) = ((split a).1, (split a).2 ++ (split b).1 :: (split b).2) := by
  induction a with
  | nil => simp [split]
  | cons c rest ih =>
    rw [List.cons_append, split, ih, split]
    split <;> simp

/-- Without a slash there is one piece. -/
theorem split_eq_of_slash_notMem {bytes : List UInt8} (h : slash ∉ bytes) :
    split bytes = (bytes, []) := by
  induction bytes with
  | nil => rfl
  | cons b rest ih =>
    obtain ⟨hb, hrest⟩ := List.ne_and_not_mem_of_not_mem_cons h
    rw [split, ih hrest, if_neg (Ne.symm hb)]

/-- Whether a path is written with a slash at its end. -/
def endsInSlash (p : Path) : Bool := p.bytes.getLast? = some slash

/-- The pieces after the first, without the empty piece behind a slash at the end. -/
def innerPieces (p : Path) : List (List UInt8) :=
  if p.endsInSlash then p.otherPieces.dropLast else p.otherPieces

theorem exists_of_endsInSlash {p : Path} (h : p.endsInSlash) : ∃ bytes, p.bytes = bytes ++ [slash] := by
  simp only [endsInSlash, decide_eq_true_eq] at h
  exact List.getLast?_eq_some_iff.1 h

/-- A slash at the end brings one empty piece. -/
theorem otherPieces_eq (p : Path) :
    p.otherPieces = p.innerPieces ++ if p.endsInSlash then [[]] else [] := by
  unfold innerPieces
  split
  · rename_i h
    obtain ⟨bytes, hbytes⟩ := exists_of_endsInSlash h
    have : p.otherPieces = (split bytes).2 ++ [[]] := by
      rw [otherPieces, hbytes, split_append_slash]
      rfl
    rw [this, List.dropLast_concat]
  · simp

section Append

variable {p q : Path}

/-- A path is put behind exactly one slash. -/
theorem bytes_append (hp : p.bytes ≠ []) (hq : q.isRooted = false) :
    (p ++ q).bytes = p.bytes ++ (if p.endsInSlash then [] else [slash]) ++ q.bytes := by
  show (append p q).bytes = _
  rw [append, hq]
  by_cases hs : p.endsInSlash
  · have hlast : p.bytes.getLast? = some slash := by simpa [endsInSlash] using hs
    simp [hlast, hs]
  · have hlast : ¬ p.bytes.getLast? = some slash := by simpa [endsInSlash] using hs
    simp [hp, hlast, hs]

/-- A path behind another one has the pieces of both. -/
theorem split_append (hp : p.bytes ≠ []) (hq : q.isRooted = false) :
    split (p ++ q).bytes = (p.firstPiece, p.innerPieces ++ q.firstPiece :: q.otherPieces) := by
  rw [bytes_append hp hq, firstPiece, innerPieces, otherPieces]
  by_cases hs : p.endsInSlash
  -- The first piece of `q` takes the place of the empty piece behind the last slash.
  · obtain ⟨bytes, hbytes⟩ := exists_of_endsInSlash hs
    have hsplit := split_append_slash bytes []
    rw [← hbytes] at hsplit
    rw [if_pos hs, if_pos hs, hsplit, List.append_nil, hbytes, List.append_assoc,
      List.singleton_append, split_append_slash]
    simp [split, firstPiece, otherPieces]
  · rw [if_neg hs, if_neg hs, List.append_assoc, List.singleton_append, split_append_slash]
    rfl

end Append

section Child

variable {p : Path} {name : Name}

/-- A name is no rooted path. -/
theorem isRooted_name (h : ProperName name) : (⟨name⟩ : Path).isRooted = false := by
  simp only [isRooted, decide_eq_false_iff_not]
  exact fun hhead => h.slash_notMem (List.mem_of_mem_head? hhead)

/-- A child is written behind exactly one slash. -/
theorem bytes_child (hp : p.bytes ≠ []) (h : ProperName name) :
    (p.child name).bytes = p.bytes ++ (if p.endsInSlash then [] else [slash]) ++ name :=
  bytes_append hp (isRooted_name h)

theorem child_bytes_ne_nil (hp : p.bytes ≠ []) (h : ProperName name) :
    (p.child name).bytes ≠ [] := by
  rw [bytes_child hp h]
  simp [hp]

/-- A child does not end in a slash, however its directory is written. -/
theorem endsInSlash_child (hp : p.bytes ≠ []) (h : ProperName name) :
    (p.child name).endsInSlash = false := by
  have hlast : (p.child name).bytes.getLast? = name.getLast? := by
    rw [bytes_child hp h, List.getLast?_append_of_ne_nil _ h.ne_nil]
  simp only [endsInSlash, hlast, decide_eq_false_iff_not]
  exact fun hmem => h.slash_notMem (List.mem_of_getLast? hmem)

/-- A child is rooted if its directory is. -/
theorem isRooted_child (hp : p.bytes ≠ []) (h : ProperName name) :
    (p.child name).isRooted = p.isRooted := by
  rw [isRooted, isRooted, bytes_child hp h, List.append_assoc, List.head?_append_of_ne_nil _ hp]

/-- A child has the pieces of its directory and then its name. -/
theorem split_child (hp : p.bytes ≠ []) (h : ProperName name) :
    split (p.child name).bytes = (p.firstPiece, p.innerPieces ++ [name]) := by
  have hname := split_eq_of_slash_notMem h.slash_notMem
  have hfirst : (⟨name⟩ : Path).firstPiece = name := by rw [firstPiece, hname]
  have hothers : (⟨name⟩ : Path).otherPieces = [] := by rw [otherPieces, hname]
  rw [child, split_append hp (isRooted_name h), hfirst, hothers]

theorem firstPiece_child (hp : p.bytes ≠ []) (h : ProperName name) :
    (p.child name).firstPiece = p.firstPiece := by
  rw [firstPiece, split_child hp h]

theorem otherPieces_child (hp : p.bytes ≠ []) (h : ProperName name) :
    (p.child name).otherPieces = p.innerPieces ++ [name] := by
  rw [otherPieces, split_child hp h]

theorem innerPieces_child (hp : p.bytes ≠ []) (h : ProperName name) :
    (p.child name).innerPieces = p.innerPieces ++ [name] := by
  rw [innerPieces, endsInSlash_child hp h, otherPieces_child hp h]
  rfl

end Child

/-! ## Places -/

section Descend

variable {p : Path} {place : List Name}

theorem descend_bytes_ne_nil (hp : p.bytes ≠ []) (h : ∀ name ∈ place, ProperName name) :
    (p.descend place).bytes ≠ [] := by
  induction place generalizing p with
  | nil => exact hp
  | cons name place ih =>
    obtain ⟨hname, hplace⟩ := List.forall_mem_cons.1 h
    exact ih (child_bytes_ne_nil hp hname) hplace

/-- Below a directory all paths begin with the same piece. -/
theorem firstPiece_descend (hp : p.bytes ≠ []) (h : ∀ name ∈ place, ProperName name) :
    (p.descend place).firstPiece = p.firstPiece := by
  induction place generalizing p with
  | nil => rfl
  | cons name place ih =>
    obtain ⟨hname, hplace⟩ := List.forall_mem_cons.1 h
    rw [descend_cons, ih (child_bytes_ne_nil hp hname) hplace, firstPiece_child hp hname]

theorem isRooted_descend (hp : p.bytes ≠ []) (h : ∀ name ∈ place, ProperName name) :
    (p.descend place).isRooted = p.isRooted := by
  induction place generalizing p with
  | nil => rfl
  | cons name place ih =>
    obtain ⟨hname, hplace⟩ := List.forall_mem_cons.1 h
    rw [descend_cons, ih (child_bytes_ne_nil hp hname) hplace, isRooted_child hp hname]

/-- The names of a place follow the pieces of the root one by one. -/
theorem innerPieces_descend (hp : p.bytes ≠ []) (h : ∀ name ∈ place, ProperName name) :
    (p.descend place).innerPieces = p.innerPieces ++ place := by
  induction place generalizing p with
  | nil => simp
  | cons name place ih =>
    obtain ⟨hname, hplace⟩ := List.forall_mem_cons.1 h
    rw [descend_cons, ih (child_bytes_ne_nil hp hname) hplace, innerPieces_child hp hname,
      List.append_assoc, List.singleton_append]

/-- What is below a directory has a path that does not end in a slash. -/
theorem endsInSlash_descend (hp : p.bytes ≠ []) (h : ∀ name ∈ place, ProperName name)
    (hne : place ≠ []) : (p.descend place).endsInSlash = false := by
  induction place generalizing p with
  | nil => exact absurd rfl hne
  | cons name place ih =>
    obtain ⟨hname, hplace⟩ := List.forall_mem_cons.1 h
    rw [descend_cons]
    -- Only the last child decides, and the induction ends at a place of one name.
    by_cases hrest : place = []
    · subst hrest
      exact endsInSlash_child hp hname
    · exact ih (child_bytes_ne_nil hp hname) hplace hrest

/-- The path of a place has the pieces of the root and then the names. -/
theorem otherPieces_descend (hp : p.bytes ≠ []) (h : ∀ name ∈ place, ProperName name)
    (hne : place ≠ []) : (p.descend place).otherPieces = p.innerPieces ++ place := by
  rw [otherPieces_eq, endsInSlash_descend hp h hne, innerPieces_descend hp h]
  simp

/-- The text of the path is that of its pieces with slashes between them. -/
theorem bytes_descend (hp : p.bytes ≠ []) (h : ∀ name ∈ place, ProperName name) (hne : place ≠ []) :
    (p.descend place).bytes = join p.firstPiece (p.innerPieces ++ place) := by
  rw [← firstPiece_descend hp h, ← otherPieces_descend hp h hne]
  exact (join_split _).symm

/-! ## Components -/

/-- A proper name is no dot and not empty, so it counts as a component. -/
theorem isNoise_eq_false {name : Name} (h : ProperName name) : isNoise name = false := by
  simp [isNoise, h.ne_nil, h.ne_dot]

theorem filter_not_isNoise (h : ∀ name ∈ place, ProperName name) :
    place.filter (!isNoise ·) = place :=
  List.filter_eq_self.2 fun name hname => by simp [isNoise_eq_false (h name hname)]

/-- The empty piece behind a slash at the end is no component. -/
theorem components_eq (p : Path) :
    p.components = p.firstComponents ++ (p.innerPieces.filter (!isNoise ·)).map .ofPiece := by
  rw [components, otherPieces_eq, List.filter_append]
  split <;> simp [isNoise]

/-- The components of a place are those of the root and then one for each name. -/
theorem components_descend (hp : p.bytes ≠ []) (h : ∀ name ∈ place, ProperName name) :
    (p.descend place).components = p.components ++ place.map .ofPiece := by
  rw [components_eq, components_eq, innerPieces_descend hp h, List.filter_append,
    filter_not_isNoise h, List.map_append, ← List.append_assoc]
  congr 2
  rw [firstComponents, firstComponents, isRooted_descend hp h, firstPiece_descend hp h]

/-- The first piece is empty only in front of a slash, and then the path is rooted. -/
theorem firstPiece_ne_nil (hp : p.bytes ≠ []) (hrooted : p.isRooted = false) :
    p.firstPiece ≠ [] := by
  intro hfirst
  obtain ⟨b, rest, hb⟩ := List.exists_cons_of_ne_nil hp
  simp only [firstPiece, hb, split] at hfirst
  split at hfirst
  · rename_i hslash
    simp [isRooted, hb, hslash] at hrooted
  · simp at hfirst

/-- The first piece of a path that is not empty stands for one component. -/
theorem length_firstComponents (hp : p.bytes ≠ []) : p.firstComponents.length = 1 := by
  unfold firstComponents
  split
  · rfl
  · rename_i hrooted
    rw [if_neg (firstPiece_ne_nil hp (by simpa using hrooted))]
    split <;> rfl

/-! ## Seen from the root -/

theorem dropWhile_isNoise (h : ∀ name ∈ place, ProperName name) :
    place.dropWhile isNoise = place := by
  cases place with
  | nil => rfl
  | cons name place =>
    rw [List.dropWhile_cons, isNoise_eq_false (h name List.mem_cons_self)]
    rfl

/-- No name is trimmed as if it were noise. -/
theorem trimNoise_eq_self (h : ∀ name ∈ place, ProperName name) : trimNoise place = place := by
  rw [trimNoise, dropWhile_isNoise fun name hname => h name (List.mem_reverse.1 hname),
    List.reverse_reverse]

/-- Dropping as many pieces as carry a meaning leaves nothing of them but noise. -/
theorem dropWhile_dropPieces (h : ∀ name ∈ place, ProperName name) (pieces : List (List UInt8)) :
    (dropPieces (pieces.filter (!isNoise ·)).length (pieces ++ place)).dropWhile isNoise = place := by
  induction pieces with
  | nil =>
    simp only [List.filter_nil, List.length_nil, List.nil_append, dropPieces]
    exact dropWhile_isNoise h
  | cons piece pieces ih =>
    by_cases hnoise : isNoise piece = true
    -- Noise is dropped while counting if there is a piece left to count, else by `dropWhile`.
    · rw [List.filter_cons_of_neg (by simp [hnoise]), List.cons_append]
      cases hcount : (pieces.filter (!isNoise ·)).length with
      | zero =>
        rw [hcount] at ih
        simp only [dropPieces] at ih ⊢
        rw [List.dropWhile_cons_of_pos hnoise, ih]
      | succ n =>
        rw [hcount] at ih
        rw [dropPieces, if_pos hnoise, ih]
    · rw [List.filter_cons_of_pos (by simp [hnoise]), List.length_cons, List.cons_append,
        dropPieces, if_neg hnoise, ih]

/-- Seen from the root, an entry is its names. -/
theorem relativeTo?_descend (hp : p.bytes ≠ []) (h : ∀ name ∈ place, ProperName name)
    (hne : place ≠ []) : (p.descend place).relativeTo? p = some (ofPlace place) := by
  have hprefix : p.components.isPrefixOf (p.descend place).components = true := by
    rw [List.isPrefixOf_iff_prefix, components_descend hp h]
    exact List.prefix_append _ _
  -- One component is of the first piece, the others are of the pieces that are dropped.
  have hlength : p.components.length = (p.innerPieces.filter (!isNoise ·)).length + 1 := by
    rw [components_eq, List.length_append, length_firstComponents hp, List.length_map]
    omega
  rw [relativeTo?, if_pos hprefix, hlength]
  simp only [otherPieces_descend hp h hne, dropWhile_dropPieces h, trimNoise_eq_self h]
  cases place with
  | nil => exact absurd rfl hne
  | cons name place => rfl

/-! ## Steps -/

/-- The steps of a path without the one that a slash at its end stands for. -/
def innerSteps (p : Path) : List Step := (p.firstPiece :: p.innerPieces).filterMap Step.ofPiece?

/-- A slash at the end asks for a directory, and is the last step. -/
theorem steps_eq (p : Path) :
    p.steps = p.innerSteps ++ if p.endsInSlash then [.directory] else [] := by
  have hlast : (p.bytes.getLast? = some slash) = (p.endsInSlash = true) := by
    simp [endsInSlash]
  have hempty : [[]].filterMap Step.ofPiece? = [] := rfl
  rw [steps, innerSteps, otherPieces_eq, ← List.cons_append, List.filterMap_append]
  simp only [hlast]
  split <;> simp [hempty]

/-- A proper name is a step to the entry of that name. -/
theorem ofPiece?_name {name : Name} (h : ProperName name) :
    Step.ofPiece? name = some (.name name) := by
  simp [Step.ofPiece?, h.ne_nil, h.ne_dot, h.ne_dots]

/-- No piece of a path holds a slash. -/
theorem slash_notMem_of_mem_split {bytes : List UInt8} :
    ∀ piece ∈ (split bytes).1 :: (split bytes).2, slash ∉ piece := by
  induction bytes with
  | nil => simp [split]
  | cons b rest ih =>
    obtain ⟨hfirst, hothers⟩ := List.forall_mem_cons.1 ih
    rw [split]
    split
    · exact List.forall_mem_cons.2 ⟨List.not_mem_nil, ih⟩
    · rename_i hb
      refine List.forall_mem_cons.2 ⟨?_, hothers⟩
      rw [List.mem_cons]
      rintro (hslash | hslash)
      · exact hb hslash.symm
      · exact hfirst hslash

/-- Each name is one step more. -/
theorem innerSteps_descend (hp : p.bytes ≠ []) (h : ∀ name ∈ place, ProperName name) :
    (p.descend place).innerSteps = p.innerSteps ++ place.map .name := by
  have hnames : place.filterMap Step.ofPiece? = place.map .name := by
    rw [← List.filterMap_eq_map]
    exact List.filterMap_congr fun name hname => ofPiece?_name (h name hname)
  rw [innerSteps, innerSteps, firstPiece_descend hp h, innerPieces_descend hp h, ← List.cons_append,
    List.filterMap_append, hnames]

/-- The way to an entry is the way to the root and then its names. -/
theorem steps_descend (hp : p.bytes ≠ []) (h : ∀ name ∈ place, ProperName name)
    (hne : place ≠ []) : (p.descend place).steps = p.innerSteps ++ place.map .name := by
  rw [steps_eq, endsInSlash_descend hp h hne, innerSteps_descend hp h, if_neg Bool.false_ne_true,
    List.append_nil]

end Descend

/-! ## Places as paths -/

section Bytes

variable {p : Path} {name : Name} {place : List Name}

theorem join_append_cons (first : List UInt8) (name : Name) (others : List Name) :
    join (first ++ slash :: name) others = join first (name :: others) := by
  simp [join]

/-- The names stand behind the path, a slash before each. -/
theorem bytes_descend_eq_join (hp : p.bytes ≠ []) (hs : p.endsInSlash = false)
    (h : ∀ name ∈ place, ProperName name) : (p.descend place).bytes = join p.bytes place := by
  induction place generalizing p with
  | nil => simp [join]
  | cons name place ih =>
    obtain ⟨hname, hplace⟩ := List.forall_mem_cons.1 h
    rw [descend_cons, ih (child_bytes_ne_nil hp hname) (endsInSlash_child hp hname) hplace,
      bytes_child hp hname, hs, if_neg Bool.false_ne_true, List.append_assoc,
      List.singleton_append, join_append_cons]

/-- A place as a path is its first name and what is below that. -/
theorem ofPlace_cons_eq_descend (h : ∀ x ∈ name :: place, ProperName x) :
    ofPlace (name :: place) = (⟨name⟩ : Path).descend place := by
  obtain ⟨hname, hplace⟩ := List.forall_mem_cons.1 h
  have hs : (⟨name⟩ : Path).endsInSlash = false := by
    simp only [endsInSlash, decide_eq_false_iff_not]
    exact fun hlast => hname.slash_notMem (List.mem_of_getLast? hlast)
  have hbytes := bytes_descend_eq_join hname.ne_nil hs hplace
  exact congrArg Path.mk hbytes.symm

/-- A proper name alone is one component. -/
theorem components_ofName (h : ProperName name) : (⟨name⟩ : Path).components = [.name name] := by
  have hsplit := split_eq_of_slash_notMem h.slash_notMem
  have hfirst : (⟨name⟩ : Path).firstComponents = [.name name] := by
    rw [firstComponents, isRooted_name h, firstPiece, hsplit]
    simp [h.ne_nil, h.ne_dot, Component.ofPiece, h.ne_dots]
  rw [components, hfirst, otherPieces, hsplit]
  rfl

/-- No name of a place is two dots. -/
theorem map_ofPiece (h : ∀ name ∈ place, ProperName name) :
    place.map Component.ofPiece = place.map .name :=
  List.map_congr_left fun name hname => by simp [Component.ofPiece, (h name hname).ne_dots]

/-- The last name of a place is the file name of its path. -/
theorem fileName?_descend (hp : p.bytes ≠ []) (h : ∀ x ∈ place ++ [name], ProperName x) :
    (p.descend (place ++ [name])).fileName? = some name := by
  rw [fileName?, components_descend hp h, map_ofPiece h, List.map_append, List.map_singleton,
    ← List.append_assoc, List.getLast?_concat]

/-- The components of a place are its names. -/
theorem components_ofPlace (h : ∀ name ∈ place, ProperName name) :
    (ofPlace place).components = place.map .name := by
  cases place with
  | nil => rfl
  | cons name place =>
    obtain ⟨hname, hplace⟩ := List.forall_mem_cons.1 h
    rw [ofPlace_cons_eq_descend h, components_descend hname.ne_nil hplace, components_ofName hname,
      map_ofPiece hplace]
    rfl

/-- The last name of a place is the file name of the place as a path. -/
theorem fileName?_ofPlace (h : ∀ x ∈ place ++ [name], ProperName x) :
    (ofPlace (place ++ [name])).fileName? = some name := by
  rw [fileName?, components_ofPlace h, List.map_append, List.map_singleton,
    List.getLast?_concat]

end Bytes

end SourceSurvey.Path
