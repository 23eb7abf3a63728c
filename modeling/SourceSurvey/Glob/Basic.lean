/-!
# Glob patterns

A pattern is a sequence of tokens. A question mark or a class stands for one character and a star
for any number of characters, none of which is a slash; two stars stand for whole leading
directories. `Glob.parse` reads a pattern or says at which character, and why, it is not one.

The meaning of a pattern is the relation `Glob.Accepts`, which says for each token what text it
takes; how it is decided is in the module on matching.
-/

set_option autoImplicit false

namespace SourceSurvey

/-- One element of a pattern. -/
inductive Glob.Token where
  /-- This very character. -/
  | literal (c : Char)
  /-- Any character but a slash. -/
  | anyChar
  /-- A character but a slash that lies in one of the ranges, or in none of them if `negated`. -/
  | charClass (negated : Bool) (ranges : List (Char × Char))
  /-- Any run of characters without a slash. -/
  | star
  /-- Any number of leading directories; at the end of a pattern anything. -/
  | directories
  deriving DecidableEq, Repr

/-- A pattern. -/
structure Glob where
  /-- Its tokens in order. -/
  tokens : List Glob.Token
  deriving DecidableEq, Repr

namespace Glob

/-- Why a text is not a pattern. -/
inductive Fault where
  /-- Three or more stars in a row. -/
  | tooManyStars
  /-- Two stars that are not a whole component. -/
  | partialComponent
  /-- A class that is not closed or empty. -/
  | invalidClass
  deriving DecidableEq, Repr

/-- The wording of a fault. -/
def Fault.message : Fault → String
  | .tooManyStars => "wildcards are either regular `*` or recursive `**`"
  | .partialComponent => "recursive wildcards must form a single path component"
  | .invalidClass => "invalid range pattern"

/-- A fault and the character at which it is found. -/
structure ParseError where
  /-- The number of characters before the place of the fault. -/
  position : Nat
  /-- The fault. -/
  fault : Fault
  deriving DecidableEq, Repr

/-- The wording of an error. -/
def ParseError.message (e : ParseError) : String :=
  "Pattern syntax error near position " ++ toString e.position ++ ": " ++ e.fault.message

/-! ## Reading a pattern -/

/-- The ranges written between the brackets of a class. A minus sign between two characters makes a
range; every other character stands for itself. -/
def parseRanges : List Char → List (Char × Char)
  | first :: '-' :: last :: rest => (first, last) :: parseRanges rest
  | c :: rest => (c, c) :: parseRanges rest
  | [] => []

/-- Splits at the first closing bracket, which belongs to neither part. -/
def splitAtBracket : List Char → Option (List Char × List Char)
  | [] => none
  | ']' :: rest => some ([], rest)
  | c :: rest => (splitAtBracket rest).map fun (body, after) => (c :: body, after)

theorem length_lt_of_splitAtBracket {cs body after : List Char}
    (h : splitAtBracket cs = some (body, after)) : after.length < cs.length := by
  induction cs generalizing body after with
  | nil => simp [splitAtBracket] at h
  | cons c rest ih =>
    rw [splitAtBracket.eq_def] at h
    split at h
    · simp at h
    · simp_all
    · rename_i heq
      obtain ⟨⟨b, a⟩, hba, heq'⟩ := Option.map_eq_some_iff.1 h
      simp only [List.cons.injEq] at heq
      simp only [Prod.mk.injEq] at heq'
      obtain ⟨_, rfl⟩ := heq
      obtain ⟨_, rfl⟩ := heq'
      have := ih hba
      simp only [List.length_cons]; omega

/-- The class that begins after an opening bracket, and the text after it. The first character of a
class is never its end, so a closing bracket can stand there. -/
def parseClass : List Char → Option (Token × List Char)
  | '!' :: c :: rest =>
    (splitAtBracket rest).map fun (body, after) =>
      (.charClass true (parseRanges (c :: body)), after)
  | '!' :: [] => none
  | c :: rest =>
    (splitAtBracket rest).map fun (body, after) =>
      (.charClass false (parseRanges (c :: body)), after)
  | [] => none

theorem length_lt_of_parseClass {cs after : List Char} {token : Token}
    (h : parseClass cs = some (token, after)) : after.length < cs.length := by
  unfold parseClass at h
  split at h
  · obtain ⟨⟨b, a⟩, hba, heq⟩ := Option.map_eq_some_iff.1 h
    simp only [Prod.mk.injEq] at heq
    obtain ⟨_, rfl⟩ := heq
    have := length_lt_of_splitAtBracket hba
    simp only [List.length_cons]; omega
  · simp at h
  · obtain ⟨⟨b, a⟩, hba, heq⟩ := Option.map_eq_some_iff.1 h
    simp only [Prod.mk.injEq] at heq
    obtain ⟨_, rfl⟩ := heq
    have := length_lt_of_splitAtBracket hba
    simp only [List.length_cons]; omega
  · simp at h

/-- Reads the tokens of a text that begins at the character with number `position`; `atStart` says
whether a component begins there. -/
def parseTokens (position : Nat) (atStart : Bool) (cs : List Char) :
    Except ParseError (List Token) :=
  match cs with
  | [] => .ok []
  | '?' :: rest => (parseTokens (position + 1) false rest).map (.anyChar :: ·)
  | '*' :: '*' :: '*' :: _ => .error ⟨position + 2, .tooManyStars⟩
  | '*' :: '*' :: rest =>
    -- What stands before the stars is looked at before what stands after them.
    if !atStart then .error ⟨position - 1, .partialComponent⟩
    else match rest with
      | [] => .ok [.directories]
      | '/' :: rest => (parseTokens (position + 3) true rest).map (.directories :: ·)
      | _ => .error ⟨position + 2, .partialComponent⟩
  | '*' :: rest => (parseTokens (position + 1) false rest).map (.star :: ·)
  | '[' :: rest =>
    match h : parseClass rest with
    | none => .error ⟨position, .invalidClass⟩
    | some (token, after) =>
      have := length_lt_of_parseClass h
      (parseTokens (position + 1 + (rest.length - after.length)) false after).map (token :: ·)
  | c :: rest => (parseTokens (position + 1) (c = '/') rest).map (.literal c :: ·)
termination_by cs.length

/-- Reads a pattern. -/
def parse (text : List Char) : Except ParseError Glob :=
  (parseTokens 0 true text).map Glob.mk

/-! ## What a pattern accepts -/

/-- Whether a token that stands for one character stands for this one. -/
def Token.takes (token : Token) (c : Char) : Bool :=
  match token with
  | .literal d => c = d
  | .anyChar => c ≠ '/'
  | .charClass negated ranges =>
    c ≠ '/' && (ranges.any fun (first, last) => first ≤ c && c ≤ last) != negated
  | .star => false
  | .directories => false

/-- The texts that a sequence of tokens accepts. -/
inductive Accepts : List Token → List Char → Prop where
  /-- No token accepts the empty text. -/
  | nil : Accepts [] []
  /-- A token takes one character. -/
  | single {token : Token} {tokens : List Token} {c : Char} {text : List Char} :
      token.takes c = true → Accepts tokens text → Accepts (token :: tokens) (c :: text)
  /-- A star takes a run without a slash. -/
  | star {tokens : List Token} {run text : List Char} :
      '/' ∉ run → Accepts tokens text → Accepts (.star :: tokens) (run ++ text)
  /-- Two stars take nothing. -/
  | noDirectories {tokens : List Token} {text : List Char} :
      Accepts tokens text → Accepts (.directories :: tokens) text
  /-- Two stars take everything up to some slash. -/
  | directories {tokens : List Token} {above text : List Char} :
      Accepts tokens text → Accepts (.directories :: tokens) (above ++ '/' :: text)
  /-- Two stars at the end take everything. -/
  | anything {text : List Char} : Accepts [.directories] text

end Glob

end SourceSurvey
