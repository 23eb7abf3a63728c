import SourceSurvey.Glob.Match

/-!
# The slashes of a pattern

How patterns are written is the relation `Glob.Written`; the reader of patterns decides it
(`parse_eq_ok_iff`), so what holds of written patterns holds of those that are read.

Two stars stand only where a component begins (`Placed`). A pattern with a literal slash accepts
only texts with a slash (`Accepts.slash_mem`). A pattern without one that accepts a name behind some
whole components accepts the name alone as well (`Accepts.of_append`): either it holds no two stars,
and then it accepts no text with a slash, or the two stars that it begins with take the components.
-/

set_option autoImplicit false

namespace SourceSurvey.Glob

/-! ## How patterns are written -/

/-- The text of a sequence of tokens, by whether a component begins where the text does. -/
inductive Written : Bool → List Char → List Token → Prop where
  | nil {atStart : Bool} : Written atStart [] []
  | anyChar {atStart : Bool} {rest : List Char} {tokens : List Token} :
      Written false rest tokens → Written atStart ('?' :: rest) (.anyChar :: tokens)
  /-- One star and not two. -/
  | star {atStart : Bool} {rest : List Char} {tokens : List Token} :
      rest.head? ≠ some '*' → Written false rest tokens →
      Written atStart ('*' :: rest) (.star :: tokens)
  /-- Two stars as the last component. -/
  | lastDirectories : Written true ['*', '*'] [.directories]
  /-- Two stars take the slash behind them. -/
  | directories {rest : List Char} {tokens : List Token} :
      Written true rest tokens →
      Written true ('*' :: '*' :: '/' :: rest) (.directories :: tokens)
  | charClass {atStart : Bool} {rest after : List Char} {token : Token} {tokens : List Token} :
      parseClass rest = some (token, after) → Written false after tokens →
      Written atStart ('[' :: rest) (token :: tokens)
  | literal {atStart : Bool} {c : Char} {rest : List Char} {tokens : List Token} :
      c ≠ '?' → c ≠ '*' → c ≠ '[' → Written (c = '/') rest tokens →
      Written atStart (c :: rest) (.literal c :: tokens)

section Reading

variable {atStart : Bool} {cs : List Char} {tokens : List Token}

theorem written_of_parseTokens {position : Nat}
    (h : parseTokens position atStart cs = .ok tokens) : Written atStart cs tokens := by
  -- Whatever is read first, the reader goes on with the rest and puts its token in front.
  have hmap : ∀ {read : Except ParseError (List Token)} {token : Token} {tokens : List Token},
      read.map (token :: ·) = .ok tokens → ∃ later, read = .ok later ∧ tokens = token :: later := by
    intro read token tokens h
    cases read with
    | error e => cases h
    | ok later => cases h; exact ⟨later, rfl, rfl⟩
  fun_induction parseTokens position atStart cs generalizing tokens with
  | case1 => cases h; exact .nil
  | case2 _ _ _ ih =>
    obtain ⟨later, hread, rfl⟩ := hmap h
    exact .anyChar (ih hread)
  -- Three stars in a row are refused, and two where no component begins.
  | case3 => cases h
  | case4 => cases h
  -- Two stars at the end, and with a slash behind them.
  | case5 _ atStart hstart =>
    have hstart : atStart = true := by simpa using hstart
    cases h
    rw [hstart]
    exact .lastDirectories
  | case6 _ atStart hstart _ _ ih =>
    have hstart : atStart = true := by simpa using hstart
    obtain ⟨later, hread, rfl⟩ := hmap h
    rw [hstart]
    exact .directories (ih hread)
  -- Anything else behind two stars is refused.
  | case7 => cases h
  -- One star, for no other one follows.
  | case8 _ _ rest _ hsingle ih =>
    obtain ⟨later, hread, rfl⟩ := hmap h
    refine .star ?_ (ih hread)
    intro hhead
    obtain ⟨after, rfl⟩ := List.head?_eq_some_iff.1 hhead
    exact hsingle after rfl
  -- A bracket opens a class or is refused; any other character stands for itself.
  | case9 => cases h
  | case10 _ _ _ _ _ hclass _ ih =>
    obtain ⟨later, hread, rfl⟩ := hmap h
    exact .charClass hclass (ih hread)
  | case11 _ _ _ _ hany _ _ hstar hclass ih =>
    obtain ⟨later, hread, rfl⟩ := hmap h
    exact .literal hany hstar hclass (ih hread)

theorem parseTokens_of_written (h : Written atStart cs tokens) (position : Nat) :
    parseTokens position atStart cs = .ok tokens := by
  induction h generalizing position with
  | nil => rw [parseTokens]
  | anyChar _ ih => rw [parseTokens, ih]; rfl
  | star hsingle _ ih =>
    rw [parseTokens]
    · rw [ih]; rfl
    · rintro after rfl; exact hsingle rfl
    · rintro after rfl; exact hsingle rfl
  | lastDirectories => simp [parseTokens]
  | directories _ ih => simp [parseTokens, ih, Except.map]
  | charClass hclass _ ih =>
    rw [parseTokens]
    split
    · rename_i hnone
      rw [hclass] at hnone
      cases hnone
    · rename_i hsome
      rw [hclass] at hsome
      cases hsome
      rw [ih]; rfl
  | literal hany hstar hclass _ ih =>
    rw [parseTokens]
    · rw [ih]; rfl
    · exact hany
    · exact fun _ h => absurd h hstar
    · exact fun _ h => absurd h hstar
    · exact hstar
    · exact hclass

/-- The reader accepts the patterns that are written as patterns are. -/
theorem parse_eq_ok_iff {glob : Glob} : parse cs = .ok glob ↔ Written true cs glob.tokens := by
  constructor
  · intro h
    rw [parse] at h
    cases hread : parseTokens 0 true cs with
    | error e => rw [hread] at h; cases h
    | ok tokens =>
      rw [hread] at h
      cases h
      exact written_of_parseTokens hread
  · intro h
    rw [parse, parseTokens_of_written h]
    rfl

end Reading

/-! ## The tokens of a written pattern -/

section Tokens

variable {atStart : Bool} {cs : List Char} {tokens : List Token}

theorem isSuffix_of_splitAtBracket {body after : List Char}
    (h : splitAtBracket cs = some (body, after)) : after <:+ cs := by
  fun_induction splitAtBracket cs generalizing body with
  | case1 => cases h
  | case2 rest => cases h; exact List.suffix_cons _ _
  | case3 c rest _ ih =>
    obtain ⟨⟨read, left⟩, hread, heq⟩ := Option.map_eq_some_iff.1 h
    cases heq
    exact (ih hread).trans (List.suffix_cons _ _)

theorem parseClass_spec {token : Token} {after : List Char}
    (h : parseClass cs = some (token, after)) :
    (∃ negated ranges, token = .charClass negated ranges) ∧ after <:+ cs := by
  unfold parseClass at h
  split at h
  · obtain ⟨⟨body, left⟩, hread, heq⟩ := Option.map_eq_some_iff.1 h
    cases heq
    exact ⟨⟨_, _, rfl⟩, ((isSuffix_of_splitAtBracket hread).trans (List.suffix_cons _ _)).trans
      (List.suffix_cons _ _)⟩
  · cases h
  · obtain ⟨⟨body, left⟩, hread, heq⟩ := Option.map_eq_some_iff.1 h
    cases heq
    exact ⟨⟨_, _, rfl⟩, (isSuffix_of_splitAtBracket hread).trans (List.suffix_cons _ _)⟩
  · cases h

theorem Written.ne_nil (h : Written atStart cs tokens) (hcs : cs ≠ []) : tokens ≠ [] := by
  cases h with
  | nil => exact absurd rfl hcs
  | _ => exact List.cons_ne_nil _ _

/-- A literal slash is a slash of the text. -/
theorem Written.literal_notMem (h : Written atStart cs tokens) (hcs : '/' ∉ cs) :
    .literal '/' ∉ tokens := by
  induction h with
  | nil => exact List.not_mem_nil
  | anyChar _ ih | star _ _ ih =>
    exact List.not_mem_cons_of_ne_of_not_mem (by simp) (ih (List.not_mem_of_not_mem_cons hcs))
  | lastDirectories => simp
  | directories _ _ => simp at hcs
  | charClass hclass _ ih =>
    obtain ⟨⟨negated, ranges, rfl⟩, hsuffix⟩ := parseClass_spec hclass
    refine List.not_mem_cons_of_ne_of_not_mem (by simp) (ih ?_)
    exact fun hmem => hcs (List.mem_cons_of_mem _ (hsuffix.mem hmem))
  | literal _ _ _ _ ih =>
    obtain ⟨hc, hrest⟩ := List.ne_and_not_mem_of_not_mem_cons hcs
    exact List.not_mem_cons_of_ne_of_not_mem (by simpa using hc) (ih hrest)

/-- Two stars stand only where a component begins; `atStart` says whether one does in front of the
first token. -/
def Placed : Bool → List Token → Prop
  | _, [] => True
  | atStart, .directories :: tokens => atStart = true ∧ Placed true tokens
  | _, .literal c :: tokens => Placed (c = '/') tokens
  | _, _ :: tokens => Placed false tokens

theorem Written.placed (h : Written atStart cs tokens) : Placed atStart tokens := by
  induction h with
  | nil => trivial
  | anyChar _ ih | star _ _ ih | literal _ _ _ _ ih => exact ih
  | lastDirectories => exact ⟨rfl, trivial⟩
  | directories _ ih => exact ⟨rfl, ih⟩
  | charClass hclass _ ih =>
    obtain ⟨⟨negated, ranges, rfl⟩, -⟩ := parseClass_spec hclass
    exact ih

/-- Inside a component two stars can only come after a slash. -/
theorem Placed.directories_notMem (h : Placed false tokens) (hslash : .literal '/' ∉ tokens) :
    .directories ∉ tokens := by
  induction tokens with
  | nil => exact List.not_mem_nil
  | cons token tokens ih =>
    obtain ⟨hhead, htail⟩ := List.ne_and_not_mem_of_not_mem_cons hslash
    cases token with
    | directories => exact absurd h.1 Bool.false_ne_true
    | literal c =>
      have hc : decide (c = '/') = false := decide_eq_false fun hc => hhead (by rw [hc])
      rw [Placed, hc] at h
      exact List.not_mem_cons_of_ne_of_not_mem (by simp) (ih h htail)
    | anyChar | charClass | star =>
      exact List.not_mem_cons_of_ne_of_not_mem (by simp) (ih h htail)

end Tokens

/-! ## The slashes of what is accepted -/

section Accepted

variable {tokens : List Token} {text : List Char}

/-- A literal slash takes a slash. -/
theorem Accepts.slash_mem (h : Accepts tokens text) (hslash : .literal '/' ∈ tokens) :
    '/' ∈ text := by
  induction h with
  | nil => cases hslash
  | single htakes _ ih =>
    rcases List.mem_cons.1 hslash with rfl | hslash
    · simp only [Token.takes, decide_eq_true_eq] at htakes
      exact List.mem_cons.2 (.inl htakes.symm)
    · exact List.mem_cons_of_mem _ (ih hslash)
  | star _ _ ih =>
    rcases List.mem_cons.1 hslash with h | hslash
    · cases h
    · exact List.mem_append_right _ (ih hslash)
  | noDirectories _ ih =>
    rcases List.mem_cons.1 hslash with h | hslash
    · cases h
    · exact ih hslash
  | directories => simp
  | anything => simp at hslash

/-- Only a literal slash and two stars take slashes. -/
theorem Accepts.slash_notMem (h : Accepts tokens text) (hslash : .literal '/' ∉ tokens)
    (hstars : .directories ∉ tokens) : '/' ∉ text := by
  induction h with
  | nil => exact List.not_mem_nil
  | @single token _ _ _ htakes _ ih =>
    obtain ⟨hhead, htail⟩ := List.ne_and_not_mem_of_not_mem_cons hslash
    refine List.not_mem_cons_of_ne_of_not_mem ?_ (ih htail (List.not_mem_of_not_mem_cons hstars))
    rintro rfl
    cases token <;> simp_all [Token.takes]
  | star hrun _ ih =>
    rw [List.mem_append, not_or]
    exact ⟨hrun, ih (List.not_mem_of_not_mem_cons hslash) (List.not_mem_of_not_mem_cons hstars)⟩
  | noDirectories | directories | anything => exact absurd List.mem_cons_self hstars

/-- Two stars in front of a pattern do nothing where there is no slash. -/
theorem accepts_directories_iff (htokens : tokens ≠ []) (htext : '/' ∉ text) :
    Accepts (.directories :: tokens) text ↔ Accepts tokens text := by
  constructor
  · intro h
    cases h with
    | single htakes _ => cases htakes
    | noDirectories h => exact h
    | directories _ => simp at htext
    | anything => exact absurd rfl htokens
  · exact .noDirectories

section Behind

variable {above name : List Char}

/-- Without two stars and a literal slash nothing can stand in front of a name. -/
theorem Accepts.above_eq_nil (h : Accepts tokens (above ++ name)) (hslash : .literal '/' ∉ tokens)
    (hstars : .directories ∉ tokens) (habove : ∀ c ∈ above.getLast?, c = '/') : above = [] := by
  cases hlast : above.getLast? with
  | none => exact List.getLast?_eq_none_iff.1 hlast
  | some c =>
    have hmem := List.mem_of_getLast? hlast
    rw [habove c hlast] at hmem
    exact absurd (List.mem_append_left _ hmem) (h.slash_notMem hslash hstars)

/-- A pattern without a literal slash that accepts a name behind whole components accepts the name
alone. -/
theorem Accepts.of_append (h : Accepts tokens (above ++ name)) (hplaced : Placed true tokens)
    (hslash : .literal '/' ∉ tokens) (hname : '/' ∉ name) (habove : ∀ c ∈ above.getLast?, c = '/') :
    Accepts tokens name := by
  induction tokens generalizing above with
  | nil => rwa [h.above_eq_nil hslash List.not_mem_nil habove] at h
  | cons token tokens ih =>
    obtain ⟨hhead, htail⟩ := List.ne_and_not_mem_of_not_mem_cons hslash
    -- Two stars at the front are the only way to pass over what stands before the name.
    by_cases htoken : token = .directories
    · subst htoken
      generalize htext : above ++ name = text at h
      cases h with
      | single htakes _ => cases htakes
      | noDirectories h => exact .noDirectories (ih (htext ▸ h) hplaced.2 htail habove)
      | @directories _ skipped rest h =>
        -- The slash that the stars stop at is one of those in front of the name.
        rcases List.append_eq_append_iff.1 htext with ⟨more, -, hmore⟩ | ⟨more, hmore, hrest⟩
        · simp [hmore] at hname
        · cases more with
          | nil =>
            rw [List.nil_append] at hrest
            exact absurd (hrest ▸ List.mem_cons_self) hname
          | cons slash more =>
            obtain ⟨rfl, rfl⟩ := List.cons.inj hrest
            refine .noDirectories (ih h hplaced.2 htail ?_)
            intro c hc
            refine habove c ?_
            rw [hmore, List.getLast?_append, List.getLast?_cons, Option.mem_def.1 hc]
            rfl
      | anything => exact .anything
    -- Behind any other token there are no two stars either, as they have to follow a slash.
    · have hstars : .directories ∉ tokens := by
        refine Placed.directories_notMem ?_ htail
        cases token with
        | literal c =>
          have hc : decide (c = '/') = false := decide_eq_false fun hc => hhead (by rw [hc])
          rwa [Placed, hc] at hplaced
        | directories => exact absurd rfl htoken
        | anyChar | charClass | star => exact hplaced
      rwa [h.above_eq_nil hslash (List.not_mem_cons_of_ne_of_not_mem (Ne.symm htoken) hstars)
        habove] at h

end Behind

end Accepted

end SourceSurvey.Glob
