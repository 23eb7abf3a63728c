import SourceSurvey.Text.Utf8

/-!
# Paths

A path is a byte string that is read as pieces between slashes. Repeated slashes, trailing slashes
and single dots carry no meaning, except that a dot at the very beginning is kept: `./a` and `a`
lead to the same place and are different paths. All functions here look at the text only and never
at a file system; `parent?` of `x/..` is `x`.

The pieces of a path determine its components (`components`). A parent is shorter than the path it
is the parent of (`length_lt_of_parent?`), so the chain of parents is finite (`ancestors`).
-/

set_option autoImplicit false

namespace SourceSurvey

/-- A path: any byte string. -/
structure Path where
  /-- The bytes of the path. -/
  bytes : List UInt8
  deriving DecidableEq, Repr, Inhabited

namespace Path

/-- The byte between two pieces. -/
def slash : UInt8 := 0x2F

/-- The byte `.`. -/
def dot : UInt8 := 0x2E

/-- One step of a path. -/
inductive Component where
  /-- The beginning of a path from the root of the file system. -/
  | root
  /-- A dot at the beginning of a path. -/
  | here
  /-- Two dots. -/
  | up
  /-- A name. -/
  | name (bytes : List UInt8)
  deriving DecidableEq, Repr

/-- The path written as a text. -/
def ofString (text : String) : Path := ⟨Utf8.ofString text⟩

/-- The path as it is shown: ill-formed stretches become replacement characters. -/
def display (p : Path) : String := Utf8.toStringLossy p.bytes

/-! ## Pieces -/

/-- The pieces between the slashes of a byte string: the first piece and those after it. -/
def split : List UInt8 → List UInt8 × List (List UInt8)
  | [] => ([], [])
  | b :: rest =>
    let pieces := split rest
    if b = slash then ([], pieces.1 :: pieces.2) else (b :: pieces.1, pieces.2)

/-- Puts pieces together with a slash before each but the first. -/
def join (first : List UInt8) (others : List (List UInt8)) : List UInt8 :=
  first ++ others.flatMap (slash :: ·)

/-- Cutting at the slashes loses nothing. -/
theorem join_split (bytes : List UInt8) : join (split bytes).1 (split bytes).2 = bytes := by
  induction bytes with
  | nil => rfl
  | cons b rest ih =>
    by_cases h : b = slash <;> simp_all [split, join]

/-- The first piece of a path; empty when the path begins with a slash. -/
def firstPiece (p : Path) : List UInt8 := (split p.bytes).1

/-- The pieces after the first. -/
def otherPieces (p : Path) : List (List UInt8) := (split p.bytes).2

/-- Whether a piece after the first carries no meaning. -/
def isNoise (piece : List UInt8) : Bool := piece = [] || piece = [dot]

/-- The pieces with those at the end removed that carry no meaning. -/
def trimNoise (pieces : List (List UInt8)) : List (List UInt8) :=
  (pieces.reverse.dropWhile isNoise).reverse

/-- Whether a path begins at the root of the file system. -/
def isRooted (p : Path) : Bool := p.bytes.head? = some slash

/-- The component that a piece stands for. -/
def Component.ofPiece (piece : List UInt8) : Component :=
  if piece = [dot, dot] then .up else .name piece

/-- The components of the first piece. -/
def firstComponents (p : Path) : List Component :=
  if p.isRooted then [.root]
  else if p.firstPiece = [] then []
  else if p.firstPiece = [dot] then [.here]
  else [.ofPiece p.firstPiece]

/-- The components of a path: two paths with the same components are the same path written
differently. -/
def components (p : Path) : List Component :=
  p.firstComponents ++ (p.otherPieces.filter (!isNoise ·)).map .ofPiece

/-- The last component, when it is a name. -/
def fileName? (p : Path) : Option (List UInt8) :=
  match p.components.getLast? with
  | some (.name n) => some n
  | _ => none

/-! ## Parents -/

/-- The bytes of the path before its last component. -/
def parentBytes? (p : Path) : Option (List UInt8) :=
  match trimNoise p.otherPieces with
  | [] => if p.isRooted || p.bytes = [] then none else some []
  | piece :: pieces =>
    match trimNoise ((piece :: pieces).dropLast) with
    | [] => if p.isRooted then some [slash] else some p.firstPiece
    | kept => some (join p.firstPiece kept)

/-- The path without its last component; none for the empty path and for the root. The slashes and
dots before the last component go with it. -/
def parent? (p : Path) : Option Path := p.parentBytes?.map Path.mk

theorem length_join (first : List UInt8) (others : List (List UInt8)) :
    (join first others).length = first.length + (others.flatMap (slash :: ·)).length :=
  List.length_append

theorem isPrefix_trimNoise (pieces : List (List UInt8)) : trimNoise pieces <+: pieces := by
  rw [← List.reverse_suffix, trimNoise, List.reverse_reverse]
  exact List.dropWhile_suffix _

theorem length_flatMap_le_of_isPrefix {xs ys : List (List UInt8)} (h : xs <+: ys) :
    (xs.flatMap (slash :: ·)).length ≤ (ys.flatMap (slash :: ·)).length := by
  obtain ⟨zs, rfl⟩ := h
  simp

/-- What is left after trimming, if anything, holds a piece that is not empty. -/
theorem exists_ne_nil_of_trimNoise {pieces : List (List UInt8)} (h : trimNoise pieces ≠ []) :
    ∃ piece ∈ pieces, piece ≠ [] := by
  have hne : pieces.reverse.dropWhile isNoise ≠ [] := fun h' => h (by simp [trimNoise, h'])
  have hhead := List.head_dropWhile_not isNoise (l := pieces.reverse) hne
  refine ⟨_, List.mem_reverse.1 ((List.dropWhile_suffix _).mem (List.head_mem hne)), fun h' => ?_⟩
  rw [h'] at hhead
  simp [isNoise] at hhead

theorem length_lt_of_mem {pieces : List (List UInt8)} {piece : List UInt8}
    (h : piece ∈ pieces) : piece.length < (pieces.flatMap (slash :: ·)).length := by
  induction pieces with
  | nil => simp at h
  | cons p ps ih =>
    simp only [List.flatMap_cons, List.length_append, List.length_cons]
    rcases List.mem_cons.1 h with rfl | h
    · omega
    · have := ih h; omega

/-- A parent is shorter than its path. -/
theorem length_lt_of_parent? {p q : Path} (h : p.parent? = some q) :
    q.bytes.length < p.bytes.length := by
  have hp : p.bytes.length
      = p.firstPiece.length + (p.otherPieces.flatMap (slash :: ·)).length := by
    rw [← length_join]; exact congrArg List.length (join_split p.bytes).symm
  obtain ⟨bytes, hb, rfl⟩ := Option.map_eq_some_iff.1 h
  show bytes.length < p.bytes.length
  have htrim := length_flatMap_le_of_isPrefix (isPrefix_trimNoise p.otherPieces)
  unfold parentBytes? at hb
  split at hb
  -- the first piece is the whole path
  · split at hb
    · simp at hb
    · rename_i hne
      simp only [Bool.or_eq_true, decide_eq_true_eq, not_or] at hne
      simp only [Option.some.injEq] at hb
      subst hb
      exact List.length_pos_iff.2 hne.2
  -- the last piece goes, and it has at least its slash
  · rename_i piece pieces heq
    rw [heq] at htrim
    have hlast : ((piece :: pieces).dropLast.flatMap (slash :: ·)).length + 1
        ≤ ((piece :: pieces).flatMap (slash :: ·)).length := by
      conv => rhs; rw [← List.dropLast_concat_getLast (List.cons_ne_nil piece pieces)]
      simp
    have hkept := length_flatMap_le_of_isPrefix (isPrefix_trimNoise ((piece :: pieces).dropLast))
    split at hb
    · split at hb
      · obtain ⟨long, hmem, hlong⟩ :=
          exists_ne_nil_of_trimNoise (heq ▸ List.cons_ne_nil piece pieces)
        have := length_lt_of_mem hmem
        have := List.length_pos_iff.2 hlong
        simp only [Option.some.injEq] at hb
        subst hb
        simp only [List.length_singleton]; omega
      · simp only [Option.some.injEq] at hb
        subst hb; omega
    · simp only [Option.some.injEq] at hb
      subst hb
      rw [length_join]; omega

/-- The path, its parent, the parent of that, and so on. -/
def ancestors (p : Path) : List Path :=
  match h : p.parent? with
  | none => [p]
  | some q =>
    have := length_lt_of_parent? h
    p :: ancestors q
termination_by p.bytes.length

/-! ## Longer and shorter paths -/

/-- The path `q` seen from `p`: a rooted path stands for itself, any other is put behind `p`. -/
def append (p q : Path) : Path :=
  if q.isRooted then q
  else if p.bytes = [] || p.bytes.getLast? = some slash then ⟨p.bytes ++ q.bytes⟩
  else ⟨p.bytes ++ slash :: q.bytes⟩

instance : Append Path := ⟨append⟩

/-- The path of an entry called `name` of the directory `p`. -/
def child (p : Path) (name : List UInt8) : Path := p ++ (⟨name⟩ : Path)

/-- The pieces after the first `n` that carry a meaning. -/
def dropPieces : Nat → List (List UInt8) → List (List UInt8)
  | 0, pieces => pieces
  | _ + 1, [] => []
  | n + 1, piece :: pieces =>
    if isNoise piece then dropPieces (n + 1) pieces else dropPieces n pieces

/-- The path without the slashes and dots at its end. -/
def trimRight (p : Path) : Path :=
  match trimNoise p.otherPieces with
  | [] => if p.isRooted then ⟨[slash]⟩ else ⟨p.firstPiece⟩
  | kept => ⟨join p.firstPiece kept⟩

/-- The path seen from `base`, when its components begin with those of `base`. -/
def relativeTo? (p base : Path) : Option Path :=
  if base.components.isPrefixOf p.components then
    -- The first component is in the first piece; the others are pieces that carry a meaning.
    match base.components.length with
    | 0 => some p.trimRight
    | n + 1 =>
      match trimNoise ((dropPieces n p.otherPieces).dropWhile isNoise) with
      | [] => some ⟨[]⟩
      | piece :: pieces => some ⟨join piece pieces⟩
  else none

/-! ## How the place of a file is shown -/

/-- The directory that holds the path, as reports show it: a dot when no other directory is
written. -/
def parentDisplay (p : Path) : String :=
  match p.parent? with
  | none => "."
  | some q => if q.bytes = [] then "." else q.display

end Path

end SourceSurvey
