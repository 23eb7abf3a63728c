import SourceSurvey.Glob.Basic

/-!
# Matching a pattern

A pattern is matched against all suffixes of a text at once. The row of a token sequence holds, for
each suffix from the longest to the empty one, whether the sequence accepts it; the row of a
sequence is computed from the row of the sequence without its first token, in time linear in the
text. So the work is the product of the two lengths, whatever the number of stars.

`accepts_iff` says that the answer is the one that the relation `Glob.Accepts` gives.
-/

set_option autoImplicit false

namespace SourceSurvey.Glob

/-- The first entry of a row: the answer for the whole text. -/
def first (row : List Bool) : Bool := row.headD false

@[simp]
theorem first_cons (b : Bool) (row : List Bool) : first (b :: row) = b := rfl

/-- The row of no token. -/
def emptyRow : List Char → List Bool
  | [] => [true]
  | _ :: text => false :: emptyRow text

/-- The row of a sequence that begins with a token for one character, from the row of the rest. -/
def singleRow (token : Token) : List Char → List Bool → List Bool
  | [], _ => [false]
  | c :: text, row => (token.takes c && first row.tail) :: singleRow token text row.tail

/-- The row of a sequence that begins with a star, from the row of the rest. -/
def starRow : List Char → List Bool → List Bool
  | [], row => [first row]
  | c :: text, row =>
    let later := starRow text row.tail
    (first row || (c ≠ '/' && first later)) :: later

/-- For each suffix, whether the rest of the sequence accepts what follows some slash in it. After
the last slash `atEnd` decides: it says whether the sequence has no rest. -/
def beyondRow (atEnd : Bool) : List Char → List Bool → List Bool
  | [], _ => [atEnd]
  | c :: text, row =>
    let later := beyondRow atEnd text row.tail
    ((c = '/' && first row.tail) || first later) :: later

/-- The row of a token sequence for a text. -/
def row : List Token → List Char → List Bool
  | [], text => emptyRow text
  | .star :: tokens, text => starRow text (row tokens text)
  | .directories :: tokens, text =>
    let rest := row tokens text
    List.zipWith (· || ·) rest (beyondRow tokens.isEmpty text rest)
  | token :: tokens, text => singleRow token text (row tokens text)

/-- Whether a pattern accepts a text. -/
def accepts (glob : Glob) (text : List Char) : Bool :=
  first (row glob.tokens text)

/-! ## The rows of the suffixes of a text -/

theorem first_emptyRow (text : List Char) : first (emptyRow text) = text.isEmpty := by
  cases text <;> rfl

/-- The row of a text continues with the row of the text without its first character. -/
theorem row_cons (tokens : List Token) (c : Char) (text : List Char) :
    ∃ b, row tokens (c :: text) = b :: row tokens text := by
  induction tokens with
  | nil => exact ⟨_, rfl⟩
  | cons token tokens ih =>
    obtain ⟨b, hb⟩ := ih
    cases token <;> simp [row, singleRow, starRow, beyondRow, hb]

theorem tail_row (tokens : List Token) (c : Char) (text : List Char) :
    (row tokens (c :: text)).tail = row tokens text := by
  obtain ⟨b, hb⟩ := row_cons tokens c text
  rw [hb]; rfl

/-- A row has an entry for the end of the text at least. -/
theorem row_ne_nil (tokens : List Token) (text : List Char) : row tokens text ≠ [] := by
  induction tokens generalizing text with
  | nil => cases text <;> simp [row, emptyRow]
  | cons token tokens ih =>
    cases text with
    | nil => cases token <;> simp [row, singleRow, starRow, beyondRow, ih]
    | cons c text =>
      obtain ⟨b, hb⟩ := row_cons (token :: tokens) c text
      simp [hb]

/-! ## The relation decided -/

/-- Whether some slash of a text is followed by a text that the tokens accept. -/
def Beyond (tokens : List Token) (text : List Char) : Prop :=
  tokens = [] ∨ ∃ above rest, text = above ++ '/' :: rest ∧ Accepts tokens rest

/-- The row of everything beyond a slash is right at its first entry if the row below it is right.
-/
theorem first_beyondRow {tokens : List Token}
    (ih : ∀ text, first (row tokens text) = true ↔ Accepts tokens text) (text : List Char) :
    first (beyondRow tokens.isEmpty text (row tokens text)) = true ↔ Beyond tokens text := by
  -- The first slash of the text is the one to stop at, or a later one is.
  induction text with
  | nil => simp [beyondRow, Beyond]
  | cons c text iht =>
    rw [beyondRow, tail_row]
    simp only [first_cons, Bool.or_eq_true, Bool.and_eq_true, decide_eq_true_eq]
    rw [iht]
    unfold Beyond
    constructor
    · rintro (⟨rfl, h⟩ | h | ⟨above, rest, rfl, h⟩)
      · exact .inr ⟨[], text, rfl, (ih text).1 h⟩
      · exact .inl h
      · exact .inr ⟨c :: above, rest, rfl, h⟩
    · rintro (h | ⟨above, rest, heq, h⟩)
      · exact .inr (.inl h)
      · cases above with
        | nil =>
          simp only [List.nil_append, List.cons.injEq] at heq
          exact .inl ⟨heq.1, (ih text).2 (heq.2 ▸ h)⟩
        | cons a above =>
          simp only [List.cons_append, List.cons.injEq] at heq
          exact .inr (.inr ⟨above, rest, heq.2, h⟩)

/-- So is the row of a star, which goes through the text up to a slash. -/
theorem first_starRow {tokens : List Token}
    (ih : ∀ text, first (row tokens text) = true ↔ Accepts tokens text) (text : List Char) :
    first (starRow text (row tokens text)) = true ↔ Accepts (.star :: tokens) text := by
  -- A star takes nothing, or one character that is no slash and then the rest, so the induction is
  -- on the text.
  induction text with
  | nil =>
    -- Relations on the empty text are taken apart with the text behind an equation, for `cases`
    -- cannot solve an append.
    show first (row tokens []) = true ↔ _
    rw [ih]
    constructor
    · intro h; exact @Accepts.star _ [] _ (by simp) h
    · generalize ht : ([] : List Char) = t
      intro h
      cases h with
      | single h _ => simp at ht
      | star _ h =>
        obtain ⟨rfl, rfl⟩ := List.append_eq_nil_iff.1 ht.symm
        exact h
  | cons c text iht =>
    rw [starRow, tail_row]
    simp only [first_cons, Bool.or_eq_true, Bool.and_eq_true, decide_eq_true_eq]
    rw [ih, iht]
    constructor
    · rintro (h | ⟨hc, h⟩)
      · exact @Accepts.star _ [] _ (by simp) h
      · cases h with
        | single h _ => simp [Token.takes] at h
        | @star _ run text hrun h =>
          rw [← List.cons_append]
          exact Accepts.star (by simpa [hrun] using fun h => hc h.symm) h
    · generalize ht : c :: text = t
      intro h
      cases h with
      | single h _ => simp [Token.takes] at h
      | @star _ run rest hrun h =>
        cases run with
        | nil => exact .inl (by simpa using h)
        | cons r run =>
          simp only [List.cons_append, List.cons.injEq] at ht
          obtain ⟨rfl, rfl⟩ := ht
          simp only [List.mem_cons, not_or] at hrun
          exact .inr ⟨fun h => hrun.1 h.symm, Accepts.star hrun.2 h⟩

/-- So is the row of a token for one character. -/
theorem first_singleRow {token : Token} {tokens : List Token} (hs : token ≠ .star)
    (hd : token ≠ .directories)
    (ih : ∀ text, first (row tokens text) = true ↔ Accepts tokens text) (text : List Char) :
    first (singleRow token text (row tokens text)) = true ↔ Accepts (token :: tokens) text := by
  cases text with
  | nil =>
    simp only [singleRow, first_cons, Bool.false_eq_true, false_iff]
    generalize ht : ([] : List Char) = t
    intro h
    cases h with
    | single => simp at ht
    | star => exact hs rfl
    | noDirectories => exact hd rfl
    | directories => exact hd rfl
    | anything => exact hd rfl
  | cons c text =>
    rw [singleRow, tail_row]
    simp only [first_cons, Bool.and_eq_true]
    rw [ih]
    constructor
    · rintro ⟨h, h'⟩; exact .single h h'
    · generalize ht : c :: text = t
      intro h
      cases h with
      | single h h' =>
        simp only [List.cons.injEq] at ht
        exact ⟨ht.1 ▸ h, ht.2 ▸ h'⟩
      | star => exact absurd rfl hs
      | noDirectories => exact absurd rfl hd
      | directories => exact absurd rfl hd
      | anything => exact absurd rfl hd

theorem first_zipWith {xs ys : List Bool} (hx : xs ≠ []) (hy : ys ≠ []) :
    first (List.zipWith (· || ·) xs ys) = (first xs || first ys) := by
  cases xs <;> cases ys <;> simp_all [first]

theorem beyondRow_ne_nil (atEnd : Bool) (text : List Char) (row : List Bool) :
    beyondRow atEnd text row ≠ [] := by
  cases text <;> simp [beyondRow]

/-- The first entry of a row decides acceptance. -/
theorem first_row_iff (tokens : List Token) (text : List Char) :
    first (row tokens text) = true ↔ Accepts tokens text := by
  induction tokens generalizing text with
  | nil =>
    rw [row, first_emptyRow, List.isEmpty_iff]
    constructor
    · rintro rfl; exact .nil
    · intro h; cases h; rfl
  | cons token tokens ih =>
    -- A row comes in three forms: one for stars, one for two stars, and one for all tokens that
    -- take a character.
    by_cases hs : token = .star
    · subst hs; exact first_starRow ih text
    by_cases hd : token = .directories
    · subst hd
      rw [row, first_zipWith (row_ne_nil _ _) (beyondRow_ne_nil _ _ _), Bool.or_eq_true, ih,
        first_beyondRow ih]
      constructor
      · rintro (h | rfl | ⟨above, rest, rfl, h⟩)
        · exact .noDirectories h
        · exact .anything
        · exact .directories h
      · intro h
        cases h with
        | single h _ => simp [Token.takes] at h
        | noDirectories h => exact .inl h
        | directories h => exact .inr (.inr ⟨_, _, rfl, h⟩)
        | anything => exact .inr (.inl rfl)
    · have : row (token :: tokens) text = singleRow token text (row tokens text) := by
        cases token <;> simp_all [row]
      rw [this]
      exact first_singleRow hs hd ih text

/-- Matching decides the relation. -/
theorem accepts_iff (glob : Glob) (text : List Char) :
    glob.accepts text = true ↔ Accepts glob.tokens text :=
  first_row_iff glob.tokens text

end SourceSurvey.Glob
