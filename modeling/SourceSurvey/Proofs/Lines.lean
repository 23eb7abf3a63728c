import Mathlib.Algebra.GroupWithZero.Nat
import Mathlib.Algebra.Order.Group.Nat
import Mathlib.Data.Char
import Mathlib.Data.List.Nodup
import SourceSurvey.Lines

/-!
# Line ends

The lines of a text are counted in one pass that looks one character ahead. The count has a closed
form: the line feeds, the carriage returns that no line feed follows, and one more if the text ends
within a line (`lineCount_eq`).

* A text can be counted in pieces. A cut makes one line too many exactly when no line ends there:
  it falls within a line, or between a carriage return and its line feed (`countLines_append`).
* The count is that of the pieces between the line ends, once every line end is written as a line
  feed. So it does not depend on which line end a text is written with (`countLines_eq_pieces`).
-/

set_option autoImplicit false

namespace SourceSurvey

/-! ## The closed form -/

/-- How often `first` stands in a list without `second` right behind it. -/
def countAlone {α : Type} [DecidableEq α] (first second : α) : List α → Nat
  | [] => 0
  | x :: rest =>
    countAlone first second rest + if x = first ∧ rest.head? ≠ some second then 1 else 0

/-- The number of line ends of a text. -/
def lineEnds (text : List Char) : Nat := text.count '\n' + countAlone '\r' '\n' text

/-- Whether a text ends within a line; an empty text does so if the line has begun before it. -/
def endsWithinLine (unfinished : Bool) (text : List Char) : Bool :=
  match text.getLast? with
  | none => unfinished
  | some c => c ≠ '\n' && c ≠ '\r'

/-- A character ends a line if it is a line feed, or a carriage return without one behind it. -/
theorem lineEnds_cons (c : Char) (text : List Char) :
    lineEnds (c :: text) =
      lineEnds text + if c = '\n' ∨ (c = '\r' ∧ text.head? ≠ some '\n') then 1 else 0 := by
  rw [lineEnds, lineEnds, countAlone, List.count_cons]
  by_cases hfeed : c = '\n'
  · subst hfeed
    have hreturn : ¬ ('\n' = '\r' ∧ text.head? ≠ some '\n') := fun h => absurd h.1 (by decide)
    rw [if_pos (beq_self_eq_true _), if_neg hreturn, if_pos (.inl rfl)]
    omega
  · simp only [beq_iff_eq, hfeed, if_false, false_or]
    omega

/-- Whether a text ends within a line is decided by its last character. -/
theorem endsWithinLine_cons (unfinished : Bool) (c : Char) (text : List Char) :
    endsWithinLine unfinished (c :: text) = endsWithinLine (c ≠ '\n' && c ≠ '\r') text := by
  unfold endsWithinLine
  rw [List.getLast?_cons]
  cases text.getLast? <;> rfl

/-- Behind a line end a text ends within a line only if another line has begun. -/
theorem endsWithinLine_cons_of_eq {c : Char} (h : c = '\n' ∨ c = '\r') (unfinished : Bool)
    (text : List Char) : endsWithinLine unfinished (c :: text) = endsWithinLine false text := by
  rw [endsWithinLine_cons]
  rcases h with rfl | rfl <;> rfl

theorem endsWithinLine_cons_of_ne {c : Char} (hfeed : c ≠ '\n') (hreturn : c ≠ '\r')
    (unfinished : Bool) (text : List Char) :
    endsWithinLine unfinished (c :: text) = endsWithinLine true text := by
  have hwithin : (c ≠ '\n' && c ≠ '\r') = true := by simpa using ⟨hfeed, hreturn⟩
  rw [endsWithinLine_cons, hwithin]

/-- The form in which a case split says that a text does not begin with a character. -/
theorem head?_ne_of_forall_cons {c : Char} {text : List Char} (h : ∀ rest, text = c :: rest → False) :
    text.head? ≠ some c := by
  intro hhead
  obtain ⟨rest, rfl⟩ := List.head?_eq_some_iff.1 hhead
  exact h rest rfl

/-- The lines of a text are its line ends, and one more if it ends within a line. -/
theorem lineCount_eq (unfinished : Bool) (text : List Char) :
    lineCount unfinished text = lineEnds text + (endsWithinLine unfinished text).toNat := by
  fun_induction lineCount unfinished text with
  | case1 => rfl
  | case2 unfinished hbegun => simp [lineEnds, countAlone, endsWithinLine, hbegun]
  | case3 unfinished rest ih =>
    rw [ih, lineEnds_cons, endsWithinLine_cons_of_eq (.inl rfl), if_pos (.inl rfl)]
    omega
  -- A carriage return with a line feed behind it ends no line of its own.
  | case4 unfinished rest ih =>
    rw [ih, lineEnds_cons, lineEnds_cons, endsWithinLine_cons_of_eq (.inr rfl),
      endsWithinLine_cons_of_eq (.inl rfl), if_pos (.inl rfl), if_neg (by simp)]
    omega
  | case5 unfinished rest halone ih =>
    rw [ih, lineEnds_cons, endsWithinLine_cons_of_eq (.inr rfl),
      if_pos (.inr ⟨rfl, head?_ne_of_forall_cons halone⟩)]
    omega
  -- Any other character leaves a line unfinished.
  | case6 unfinished c rest hfeed _ hreturn ih =>
    have hend : ¬ (c = '\n' ∨ (c = '\r' ∧ rest.head? ≠ some '\n')) := by
      rintro (hc | ⟨hc, -⟩)
      · exact hfeed hc
      · exact hreturn hc
    rw [ih, lineEnds_cons, endsWithinLine_cons_of_ne hfeed hreturn, if_neg hend, Nat.add_zero]

/-- There are no more lines than characters, with one for a line that has begun. -/
theorem lineCount_le (unfinished : Bool) (text : List Char) :
    lineCount unfinished text ≤ text.length + unfinished.toNat := by
  fun_induction lineCount unfinished text with
  | case1 => exact Nat.le_refl 1
  | case2 unfinished hbegun => exact Nat.zero_le _
  | case3 unfinished rest ih | case4 unfinished rest ih | case5 unfinished rest halone ih =>
    simp only [List.length_cons, Bool.toNat_false] at ih ⊢
    omega
  | case6 unfinished c rest hfeed _ hreturn ih =>
    simp only [List.length_cons, Bool.toNat_true] at ih ⊢
    omega

/-- With fewer than `2 ^ 64` characters the counter of a text is the number of its lines. -/
theorem toNat_countLines {text : List Char} (h : text.length < 2 ^ 64) :
    (countLines text).toNat = lineCount false text := by
  have hle : lineCount false text ≤ text.length := lineCount_le false text
  have hlimit : Count.limit = 2 ^ 64 - 1 := rfl
  rw [countLines, Count.toNat_ofNat]
  omega

/-! ## Texts in pieces -/

theorem countAlone_cons_cons {α : Type} [DecidableEq α] (first second x y : α) (rest : List α) :
    countAlone first second (x :: y :: rest) =
      countAlone first second (y :: rest) + if x = first ∧ y ≠ second then 1 else 0 := by
  simp [countAlone]

/-- A cut between two parts brings one more if it takes a first from its second. -/
theorem countAlone_append {α : Type} [DecidableEq α] (first second : α) (a b : List α) :
    countAlone first second (a ++ b) +
        (if a.getLast? = some first ∧ b.head? = some second then 1 else 0) =
      countAlone first second a + countAlone first second b := by
  induction a with
  | nil => simp [countAlone]
  | cons x rest ih =>
    cases rest with
    -- The cut is right behind `x`.
    | nil =>
      by_cases hx : x = first <;> by_cases hb : b.head? = some second <;>
        simp [countAlone, hx, hb, Nat.add_comm]
    | cons y more =>
      rw [List.cons_append] at ih
      rw [List.cons_append, List.cons_append, countAlone_cons_cons, countAlone_cons_cons,
        List.getLast?_cons_cons]
      omega

/-- The line ends of two parts are those of the whole, and one more if a pair is cut. -/
theorem lineEnds_append (a b : List Char) :
    lineEnds (a ++ b) + (if a.getLast? = some '\r' ∧ b.head? = some '\n' then 1 else 0) =
      lineEnds a + lineEnds b := by
  -- Line feeds are counted without regard to their neighbours; only a carriage return looks at what
  -- is behind it.
  have halone := countAlone_append '\r' '\n' a b
  rw [lineEnds, lineEnds, lineEnds, List.count_append]
  omega

/-- The second part goes on where the first one ended. -/
theorem endsWithinLine_append (unfinished : Bool) (a b : List Char) :
    endsWithinLine unfinished (a ++ b) = endsWithinLine (endsWithinLine unfinished a) b := by
  unfold endsWithinLine
  rw [List.getLast?_append]
  cases b.getLast? <;> rfl

/-- What was before a text counts only if the text is empty. -/
theorem endsWithinLine_of_ne_nil {text : List Char} (h : text ≠ []) (unfinished other : Bool) :
    endsWithinLine unfinished text = endsWithinLine other text := by
  obtain ⟨c, hc⟩ := Option.isSome_iff_exists.1 (List.getLast?_isSome.2 h)
  simp only [endsWithinLine, hc]

/-- Whether no line ends where a text is cut in two: the cut is within a line, or between the two
characters of one line end. -/
def CutsLine (a b : List Char) : Prop :=
  a ≠ [] ∧ b ≠ [] ∧
    ((a.getLast? ≠ some '\n' ∧ a.getLast? ≠ some '\r') ∨
      (a.getLast? = some '\r' ∧ b.head? = some '\n'))

instance (a b : List Char) : Decidable (CutsLine a b) := inferInstanceAs (Decidable (_ ∧ _))

/-- A line is cut where the first part ends within it or between the two characters of its end. -/
theorem cutsLine_toNat {a b : List Char} (ha : a ≠ []) (hb : b ≠ []) :
    (if CutsLine a b then 1 else 0) =
      (endsWithinLine false a).toNat +
        if a.getLast? = some '\r' ∧ b.head? = some '\n' then 1 else 0 := by
  obtain ⟨c, hc⟩ := Option.isSome_iff_exists.1 (List.getLast?_isSome.2 ha)
  simp only [CutsLine, endsWithinLine, hc, Option.some.injEq]
  by_cases hfeed : c = '\n'
  · simp [hfeed]
  by_cases hreturn : c = '\r'
  · simp [hreturn, ha, hb]
  · simp [hfeed, hreturn, ha, hb]

/-- The lines of two texts are those of both together, and one more where a line is cut. -/
theorem lineCount_append (a b : List Char) :
    lineCount false (a ++ b) + (if CutsLine a b then 1 else 0) =
      lineCount false a + lineCount false b := by
  -- An empty part is cut from nothing.
  by_cases ha : a = []
  · simp [ha, CutsLine, lineCount]
  by_cases hb : b = []
  · simp [hb, CutsLine, lineCount]
  have hends := lineEnds_append a b
  have hcut := cutsLine_toNat ha hb
  have hlast := endsWithinLine_of_ne_nil hb (endsWithinLine false a) false
  rw [lineCount_eq, lineCount_eq, lineCount_eq, endsWithinLine_append, hlast]
  omega

/-- The number of cuts between the pieces of a text at which no line ends. -/
def lineCuts : List (List Char) → Nat
  | [] => 0
  | piece :: rest => lineCuts rest + if CutsLine piece rest.flatten then 1 else 0

/-- The lines of all pieces are those of the whole, and one more for each line that is cut. -/
theorem lineCount_flatten (pieces : List (List Char)) :
    lineCount false pieces.flatten + lineCuts pieces = (pieces.map (lineCount false)).sum := by
  induction pieces with
  | nil => rfl
  | cons piece rest ih =>
    have hcut := lineCount_append piece rest.flatten
    rw [List.flatten_cons, lineCuts, List.map_cons, List.sum_cons]
    omega

/-- A text can be counted in pieces. The lines of a text that is cut in two are those of the one
part and of the other, less one if no line ends at the cut. The same holds of any number of pieces,
with one line less for each such cut. -/
theorem countLines_append (a b : List Char) (h : a.length + b.length < 2 ^ 64) :
    ((countLines (a ++ b)).toNat : Int) =
        (countLines a).toNat + (countLines b).toNat - (if CutsLine a b then 1 else 0) ∧
      ∀ pieces : List (List Char), pieces.flatten = a ++ b →
        ((countLines (a ++ b)).toNat : Int) =
          (pieces.map fun piece => (countLines piece).toNat).sum - lineCuts pieces := by
  have hlength : (a ++ b).length < 2 ^ 64 := by rwa [List.length_append]
  constructor
  · have hcut := lineCount_append a b
    rw [toNat_countLines hlength, toNat_countLines (by omega), toNat_countLines (by omega)]
    by_cases hwithin : CutsLine a b
    · rw [if_pos hwithin] at hcut ⊢
      omega
    · rw [if_neg hwithin] at hcut ⊢
      omega
  · intro pieces hpieces
    have hcuts := lineCount_flatten pieces
    -- No piece is longer than the text, so no counter is full.
    have heach : (pieces.map fun piece => (countLines piece).toNat) =
        pieces.map (lineCount false) := by
      apply List.map_congr_left
      intro piece hpiece
      have hle := (List.sublist_flatten_of_mem hpiece).length_le
      rw [hpieces] at hle
      exact toNat_countLines (by omega)
    rw [toNat_countLines hlength, heach, ← hpieces]
    omega

/-- A cut between a carriage return and its line feed, and cuts around an empty piece. -/
theorem countLines_append_pair :
    ['a', '\r'].length + ['\n', 'b'].length < 2 ^ 64 ∧
      CutsLine ['a', '\r'] ['\n', 'b'] ∧
      ((countLines ['a', '\r', '\n', 'b']).toNat : Int) = 1 + 2 - 1 ∧
      [['a'], ['\r'], [], ['\n', 'b']].flatten = ['a', '\r'] ++ ['\n', 'b'] ∧
      ((countLines ['a', '\r', '\n', 'b']).toNat : Int) = (1 + 1 + 0 + 2) - 2 := by
  obtain ⟨hcut, hpieces⟩ := countLines_append ['a', '\r'] ['\n', 'b'] (by decide)
  exact ⟨by decide, by decide, hcut, rfl, hpieces [['a'], ['\r'], [], ['\n', 'b']] rfl⟩

/-! ## Line feeds only -/

/-- The text with one line feed in the place of each carriage return that has a line feed behind
it and of that line feed. -/
def replacePairs : List Char → List Char
  | '\r' :: '\n' :: rest => '\n' :: replacePairs rest
  | c :: rest => c :: replacePairs rest
  | [] => []

/-- The text with a line feed in the place of each carriage return. -/
def replaceReturns (text : List Char) : List Char := text.map fun c => if c = '\r' then '\n' else c

/-- The number of pieces between the line feeds of a text; an empty piece at the end is none. -/
def pieceCount (text : List Char) : Nat :=
  let pieces := text.splitOn '\n'
  if pieces.getLast? = some [] then pieces.length - 1 else pieces.length

section Split

variable {α : Type} [DecidableEq α] (c : α) (xs : List α)

/-- Each separator begins one more piece. -/
theorem length_splitOn : (xs.splitOn c).length = xs.count c + 1 := by
  induction xs with
  | nil => rfl
  | cons x rest ih =>
    rw [List.splitOn_cons_eq_if_modifyHead, List.count_cons]
    split
    · rw [List.length_cons, ih]
    · rw [List.length_modifyHead, ih]

/-- Behind a separator at the end there is an empty piece. -/
theorem getLast?_splitOn_concat : ((xs ++ [c]).splitOn c).getLast? = some [] := by
  rw [List.splitOn_append_cons_self, List.splitOn_nil, List.getLast?_concat]

/-- The last piece is not empty if the list does not end in a separator. -/
theorem getLast?_splitOn_ne {x : α} (hx : x ≠ c) :
    ((xs ++ [x]).splitOn c).getLast? ≠ some [] := by
  induction xs with
  | nil => simp [List.splitOn_cons_eq_if_modifyHead, hx]
  | cons y rest ih =>
    rw [List.cons_append, List.splitOn_cons_eq_if_modifyHead]
    obtain ⟨piece, pieces, hpieces⟩ :=
      List.exists_cons_of_ne_nil (List.splitOn_ne_nil c (rest ++ [x]))
    rw [hpieces] at ih ⊢
    split
    · rwa [List.getLast?_cons_cons]
    -- Only the first piece grows, and it is the last one if there is no other.
    · cases pieces with
      | nil => simp
      | cons piece' pieces => rwa [List.modifyHead_cons, List.getLast?_cons_cons]

end Split

/-- Without a first there is none that stands alone. -/
theorem countAlone_eq_zero {α : Type} [DecidableEq α] {first : α} {xs : List α} (h : first ∉ xs)
    (second : α) : countAlone first second xs = 0 := by
  induction xs with
  | nil => rfl
  | cons x rest ih =>
    obtain ⟨hx, hrest⟩ := List.ne_and_not_mem_of_not_mem_cons h
    rw [countAlone, ih hrest, if_neg fun hboth => hx hboth.1.symm]

/-- The pieces of a text without carriage returns are its lines. -/
theorem pieceCount_eq {text : List Char} (h : '\r' ∉ text) :
    pieceCount text = lineCount false text := by
  rw [lineCount_eq, lineEnds, countAlone_eq_zero h, pieceCount, length_splitOn]
  rcases List.eq_nil_or_concat text with rfl | ⟨init, c, rfl⟩
  · rfl
  rw [List.concat_eq_append] at h ⊢
  have hreturn : c ≠ '\r' := by
    rintro rfl
    exact h (by simp)
  by_cases hfeed : c = '\n'
  · subst hfeed
    rw [if_pos (getLast?_splitOn_concat _ init)]
    simp [endsWithinLine]
  · rw [if_neg (getLast?_splitOn_ne _ init hfeed)]
    simp [endsWithinLine, hfeed, hreturn]

/-- A character that begins no pair stays. -/
theorem replacePairs_cons {c : Char} {text : List Char} (h : c = '\r' → text.head? ≠ some '\n') :
    replacePairs (c :: text) = c :: replacePairs text := by
  rw [replacePairs]
  rintro rest rfl rfl
  exact h rfl rfl

theorem replaceReturns_cons (c : Char) (text : List Char) :
    replaceReturns (c :: text) = (if c = '\r' then '\n' else c) :: replaceReturns text :=
  List.map_cons

/-- No carriage return is left. -/
theorem return_notMem_replaceReturns (text : List Char) : '\r' ∉ replaceReturns text := by
  rw [replaceReturns, List.mem_map]
  rintro ⟨c, -, hc⟩
  split at hc
  · cases hc
  · rename_i hne
    exact hne hc

/-- Writing each line end as a line feed does not change the count. -/
theorem lineCount_replaceReturns (unfinished : Bool) (text : List Char) :
    lineCount unfinished (replaceReturns (replacePairs text)) = lineCount unfinished text := by
  fun_induction lineCount unfinished text with
  | case1 => rfl
  | case2 unfinished hbegun => simp [replacePairs, replaceReturns, lineCount, hbegun]
  | case3 unfinished rest ih =>
    rw [replacePairs_cons fun hc => absurd hc (by decide), ← ih]
    rfl
  | case4 unfinished rest ih =>
    rw [replacePairs, ← ih]
    rfl
  | case5 unfinished rest halone ih =>
    rw [replacePairs_cons fun _ => head?_ne_of_forall_cons halone, ← ih]
    rfl
  | case6 unfinished c rest hfeed hpair hreturn ih =>
    rw [replacePairs_cons fun hc => absurd hc hreturn, ← ih, replaceReturns_cons, if_neg hreturn,
      lineCount]
    · exact hfeed
    · exact fun more hc => absurd hc hreturn
    · exact hreturn

/-! ## Other line ends -/

/-- The text with `lineEnd` in the place of each line feed. -/
def withLineEnd (lineEnd text : List Char) : List Char :=
  text.flatMap fun c => if c = '\n' then lineEnd else [c]

theorem withLineEnd_cons (lineEnd : List Char) (c : Char) (text : List Char) :
    withLineEnd lineEnd (c :: text) =
      (if c = '\n' then lineEnd else [c]) ++ withLineEnd lineEnd text :=
  List.flatMap_cons

/-- Where a line ends in a carriage return alone, no line feed begins the next one. -/
theorem head?_withLineEnd_return (text : List Char) :
    (withLineEnd ['\r'] text).head? ≠ some '\n' := by
  cases text with
  | nil => simp [withLineEnd]
  | cons c rest =>
    rw [withLineEnd_cons]
    split
    · simp
    · simpa

/-- Replacing undoes the writing of line feeds as other line ends. -/
theorem replaceReturns_withLineEnd {lineEnd text : List Char}
    (hend : lineEnd = ['\r', '\n'] ∨ lineEnd = ['\r']) (h : '\r' ∉ text) :
    replaceReturns (replacePairs (withLineEnd lineEnd text)) = text := by
  induction text with
  | nil => rfl
  | cons c rest ih =>
    obtain ⟨hc, hrest⟩ := List.ne_and_not_mem_of_not_mem_cons h
    rw [withLineEnd_cons]
    by_cases hfeed : c = '\n'
    · rw [if_pos hfeed]
      rcases hend with rfl | rfl
      · rw [List.cons_append, List.singleton_append, replacePairs, replaceReturns_cons, ih hrest,
          if_neg (by decide), hfeed]
      -- No line feed is left that could follow the carriage return.
      · rw [List.singleton_append, replacePairs_cons fun _ => head?_withLineEnd_return rest,
          replaceReturns_cons, ih hrest, if_pos rfl, hfeed]
    · rw [if_neg hfeed, List.singleton_append, replacePairs_cons fun hc' => absurd hc'.symm hc,
        replaceReturns_cons, ih hrest, if_neg (Ne.symm hc)]

/-- The lines of a text are the pieces between its line ends. Write a carriage return and line
feed that stand together as one line feed, then every other carriage return as a line feed: the
lines are the pieces between the line feeds, but for an empty piece at the end. A text without
carriage returns keeps its count when it is written with either of the other line ends. -/
theorem countLines_eq_pieces (text : List Char) :
    (text.length < 2 ^ 64 →
      (countLines text).toNat = pieceCount (replaceReturns (replacePairs text))) ∧
    ('\r' ∉ text →
      countLines (withLineEnd ['\r', '\n'] text) = countLines text ∧
      countLines (withLineEnd ['\r'] text) = countLines text) := by
  constructor
  · intro h
    rw [toNat_countLines h, pieceCount_eq (return_notMem_replaceReturns _),
      lineCount_replaceReturns]
  · intro h
    have hkeeps : ∀ lineEnd, lineEnd = ['\r', '\n'] ∨ lineEnd = ['\r'] →
        countLines (withLineEnd lineEnd text) = countLines text := by
      intro lineEnd hend
      rw [countLines, ← lineCount_replaceReturns, replaceReturns_withLineEnd hend h, countLines]
    exact ⟨hkeeps _ (.inl rfl), hkeeps _ (.inr rfl)⟩

/-- A text with every line end next to every other, and one that ends within a line. -/
theorem countLines_eq_pieces_mixed :
    ['a', '\r', '\r', '\n', '\n', '\r', 'b', '\r'].length < 2 ^ 64 ∧
      (countLines ['a', '\r', '\r', '\n', '\n', '\r', 'b', '\r']).toNat =
        pieceCount ['a', '\n', '\n', '\n', '\n', 'b', '\n'] ∧
      '\r' ∉ ['a', '\n', '\n', 'b'] ∧
      countLines ['a', '\r', '\r', 'b'] = countLines ['a', '\n', '\n', 'b'] := by
  obtain ⟨hpieces, -⟩ := countLines_eq_pieces ['a', '\r', '\r', '\n', '\n', '\r', 'b', '\r']
  obtain ⟨-, hother⟩ := countLines_eq_pieces ['a', '\n', '\n', 'b']
  exact ⟨by decide, hpieces (by decide), by decide, (hother (by decide)).2⟩

end SourceSurvey
