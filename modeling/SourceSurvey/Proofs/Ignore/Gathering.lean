import SourceSurvey.Proofs.Ignore.Anchoring

/-!
# How an ignore list is gathered

Lines are offered to a list one after the other. A line that holds no pattern changes nothing, nor
does one whose pattern is wrong; every other line adds its pattern. So what a list has after any
number of lines is a set (`mem_globs_offerAll`), and it ignores what one of its lines ignores alone.

A list that is made of lines all at once is the same list, unless some line is refused; then the
first of these is reported (`ofLines_eq`). `offerAll_gathers` puts this together.
-/

set_option autoImplicit false

namespace SourceSurvey.IgnoreList

/-- A line that is neither blank nor a comment. -/
def HoldsPattern (line : List Char) : Prop :=
  Blank.trim line ≠ [] ∧ (Blank.trim line).head? ≠ some '#'

instance (line : List Char) : Decidable (HoldsPattern line) := inferInstanceAs (Decidable (_ ∧ _))

/-- A line that holds a pattern and makes, on its own, the list `alone`. -/
def Makes (line : List Char) (alone : IgnoreList) : Prop :=
  HoldsPattern line ∧ empty.add line = .ok alone

/-- The list after a line has been offered to it; a line that is refused leaves it as it is. -/
def offer (list : IgnoreList) (line : List Char) : IgnoreList :=
  match list.add line with
  | .ok longer => longer
  | .error _ => list

/-- The list after lines have been offered to it in order. -/
def offerAll (list : IgnoreList) (lines : List (List Char)) : IgnoreList :=
  lines.foldl offer list

/-- Why a line is refused, if it is. -/
def refusal? (line : List Char) : Option IgnoreError :=
  match parseLine line with
  | .ok _ => none
  | .error e => some e

/-! ## One line -/

section Line

variable {list : IgnoreList} {line : List Char} {glob : Glob} {e : IgnoreError}

/-- Nothing is read in a line that holds no pattern. -/
theorem parseLine_of_not_holds (h : ¬ HoldsPattern line) : parseLine line = .ok none := by
  have hpattern : patternOf? line = none := by
    rw [patternOf?]
    split
    · rfl
    · rfl
    · rename_i pattern htext
      exact absurd (by simp [HoldsPattern, htext]) h
    · rename_i hblank hcomment _
      refine absurd ⟨hblank, fun hhead => ?_⟩ h
      obtain ⟨rest, htext⟩ := List.head?_eq_some_iff.1 hhead
      exact hcomment rest htext
  rw [parseLine, hpattern]

/-- In any other line its pattern is read. -/
theorem parseLine_of_holds (h : HoldsPattern line) :
    parseLine line =
      match Glob.parse (withoutHere (Blank.trim line)) with
      | .ok glob => .ok (some glob)
      | .error cause => .error ⟨withoutHere (Blank.trim line), cause⟩ := by
  cases hglob : Glob.parse (withoutHere (Blank.trim line)) <;>
    simp only [parseLine, patternOf?_eq h.1 h.2, hglob]

/-- A list refuses a line for what the line is, whatever the list has. -/
theorem add_eq_error_iff : list.add line = .error e ↔ refusal? line = some e := by
  rw [add, refusal?]
  cases parseLine line with
  | error e' => simp
  | ok pattern? => cases pattern? <;> simp

/-- A line is refused exactly if it holds a pattern that is not written as patterns are. -/
theorem exists_refusal_iff :
    (∃ e, refusal? line = some e) ↔
      HoldsPattern line ∧ ¬ ∃ tokens, Glob.Written true (withoutHere (Blank.trim line)) tokens := by
  by_cases hholds : HoldsPattern line
  · have hwritten : (∃ tokens, Glob.Written true (withoutHere (Blank.trim line)) tokens) ↔
        ∃ glob, Glob.parse (withoutHere (Blank.trim line)) = .ok glob := by
      simp only [Glob.parse_eq_ok_iff]
      exact ⟨fun ⟨tokens, h⟩ => ⟨⟨tokens⟩, h⟩, fun ⟨glob, h⟩ => ⟨glob.tokens, h⟩⟩
    rw [hwritten, refusal?, parseLine_of_holds hholds]
    cases Glob.parse (withoutHere (Blank.trim line)) <;> simp [hholds]
  · rw [refusal?, parseLine_of_not_holds hholds]
    simp [hholds]

/-- The list that a line makes has the pattern of the line and no other. -/
theorem makes_iff {alone : IgnoreList} :
    Makes line alone ↔ ∃ glob, parseLine line = .ok (some glob) ∧ alone = ⟨[glob]⟩ := by
  unfold Makes
  by_cases hholds : HoldsPattern line
  · rw [add, parseLine_of_holds hholds]
    cases Glob.parse (withoutHere (Blank.trim line)) with
    | error cause => simp
    | ok glob => simp [hholds, empty, eq_comm]
  · rw [parseLine_of_not_holds hholds]
    simp [hholds]

theorem mem_globs_offer :
    glob ∈ (list.offer line).globs ↔ glob ∈ list.globs ∨ parseLine line = .ok (some glob) := by
  rw [offer, add]
  cases parseLine line with
  | error e => simp
  | ok pattern? =>
    cases pattern? with
    | none => simp
    | some read => simp [eq_comm]

end Line

/-! ## Any number of lines -/

section Lines

variable {list : IgnoreList} {lines : List (List Char)}

/-- A list has the patterns of the lines that have been offered to it. -/
theorem mem_globs_offerAll {glob : Glob} :
    glob ∈ (list.offerAll lines).globs ↔
      glob ∈ list.globs ∨ ∃ line ∈ lines, parseLine line = .ok (some glob) := by
  induction lines generalizing list with
  | nil => simp [offerAll]
  | cons line rest ih =>
    have hcons : list.offerAll (line :: rest) = (list.offer line).offerAll rest := rfl
    rw [hcons, ih, mem_globs_offer, List.exists_mem_cons_iff, or_assoc]

theorem ignores_iff {path : Path} :
    list.ignores path = true ↔ ∃ glob ∈ list.globs, acceptsPath glob (withoutDot path) = true :=
  List.any_eq_true

/-- A list ignores what one of its lines ignores alone. -/
theorem ignores_offerAll_iff {path : Path} :
    (empty.offerAll lines).ignores path = true ↔
      ∃ line ∈ lines, ∃ alone, Makes line alone ∧ alone.ignores path = true := by
  simp only [ignores_iff, mem_globs_offerAll, makes_iff]
  -- Each pattern of the list comes from a line, which makes the list with that pattern alone.
  constructor
  · rintro ⟨glob, hmem | ⟨line, hline, hparse⟩, haccepts⟩
    · cases hmem
    · exact ⟨line, hline, ⟨[glob]⟩, ⟨glob, hparse, rfl⟩, glob, List.mem_singleton_self _, haccepts⟩
  · rintro ⟨line, hline, alone, ⟨glob, hparse, rfl⟩, glob', hmem, haccepts⟩
    rw [List.mem_singleton.1 hmem] at haccepts
    exact ⟨glob, .inr ⟨line, hline, hparse⟩, haccepts⟩

theorem isEmpty_offerAll_iff :
    (empty.offerAll lines).isEmpty = true ↔ ¬ ∃ line ∈ lines, ∃ alone, Makes line alone := by
  simp only [isEmpty, List.isEmpty_iff, List.eq_nil_iff_forall_not_mem, mem_globs_offerAll, makes_iff]
  constructor
  · rintro h ⟨line, hline, alone, glob, hparse, rfl⟩
    exact h glob (.inr ⟨line, hline, hparse⟩)
  · rintro h glob (hmem | ⟨line, hline, hparse⟩)
    · cases hmem
    · exact h ⟨line, hline, _, glob, hparse, rfl⟩

/-- Lines that are not refused are added one after the other; the first one that is refused ends
this. -/
theorem foldlM_add_eq :
    lines.foldlM add list =
      match lines.findSome? refusal? with
      | some e => .error e
      | none => .ok (list.offerAll lines) := by
  induction lines generalizing list with
  | nil => rfl
  | cons line rest ih =>
    rw [List.foldlM_cons, List.findSome?_cons]
    -- Whether a line is refused does not depend on the list that it is added to.
    cases hadd : list.add line with
    | error e =>
      rw [add_eq_error_iff.1 hadd]
      rfl
    | ok longer =>
      have hnone : refusal? line = none := by
        rw [Option.eq_none_iff_forall_ne_some]
        intro e he
        rw [add_eq_error_iff.2 he] at hadd
        cases hadd
      have hoffer : list.offerAll (line :: rest) = longer.offerAll rest := by
        rw [offerAll, List.foldl_cons, offer, hadd]
        rfl
      rw [hnone, hoffer]
      exact ih

/-- A list that is made of lines all at once is the one to which they are offered, unless some of
them are refused. -/
theorem ofLines_eq :
    ofLines lines =
      match lines.findSome? refusal? with
      | some e => .error e
      | none => .ok (empty.offerAll lines) := foldlM_add_eq

theorem ofLines_eq_error_iff {e : IgnoreError} :
    ofLines lines = .error e ↔ ∃ before line after, lines = before ++ line :: after ∧
      refusal? line = some e ∧ ∀ x ∈ before, refusal? x = none := by
  rw [ofLines_eq, ← List.findSome?_eq_some_iff]
  cases lines.findSome? refusal? <;> simp

theorem ofLines_eq_ok_iff :
    ofLines lines = .ok list ↔
      (∀ line ∈ lines, refusal? line = none) ∧ list = empty.offerAll lines := by
  rw [ofLines_eq, ← List.findSome?_eq_none_iff]
  cases lines.findSome? refusal? <;> simp [eq_comm]

end Lines

/-- What a list ignores is gathered from its lines, one by one. A line is refused, by whatever
list, exactly if it holds a pattern that is not written as patterns are; after any lines, of which
some may have been refused, a list ignores what one of them ignores alone, and it is empty if none
of them makes a list of its own. So two sequences with the same lines of that kind make lists that
ignore the same. Lines that are read all at once give the list to which they are offered, or the
error of the first one that is refused; so two runs of lines are read together if each of them is,
and what they ignore together is what either ignores. -/
theorem offerAll_gathers (lines : List (List Char)) :
    (∀ list line, (∃ e, add list line = .error e) ↔
      HoldsPattern line ∧
        ¬ ∃ tokens, Glob.Written true (withoutHere (Blank.trim line)) tokens) ∧
    (∀ path, (empty.offerAll lines).ignores path = true ↔
      ∃ line ∈ lines, ∃ alone, Makes line alone ∧ alone.ignores path = true) ∧
    ((empty.offerAll lines).isEmpty = true ↔ ¬ ∃ line ∈ lines, ∃ alone, Makes line alone) ∧
    (∀ lines', (∀ line alone, Makes line alone → (line ∈ lines ↔ line ∈ lines')) →
      ∀ path, (empty.offerAll lines).ignores path = (empty.offerAll lines').ignores path) ∧
    (∀ e, ofLines lines = .error e ↔ ∃ before line after, lines = before ++ line :: after ∧
      empty.add line = .error e ∧ ∀ x ∈ before, ∀ e', empty.add x ≠ .error e') ∧
    (∀ list, ofLines lines = .ok list ↔
      (∀ line ∈ lines, ∀ e, empty.add line ≠ .error e) ∧ list = empty.offerAll lines) ∧
    ∀ first second, lines = first ++ second →
      ((∃ list, ofLines lines = .ok list) ↔
        (∃ list, ofLines first = .ok list) ∧ ∃ list, ofLines second = .ok list) ∧
      ∀ list list₁ list₂, ofLines lines = .ok list → ofLines first = .ok list₁ →
        ofLines second = .ok list₂ →
        ∀ path, list.ignores path = (list₁.ignores path || list₂.ignores path) := by
  refine ⟨?refused, fun path => ignores_offerAll_iff, isEmpty_offerAll_iff, ?sameLines, ?first,
    ?accepted, ?twoRuns⟩
  case refused =>
    intro list line
    simp only [add_eq_error_iff]
    exact exists_refusal_iff
  -- A line that makes a list of its own is among both, and only such lines count.
  case sameLines =>
    intro lines' hsame path
    rw [Bool.eq_iff_iff, ignores_offerAll_iff, ignores_offerAll_iff]
    constructor
    · rintro ⟨line, hline, alone, hmakes, hignores⟩
      exact ⟨line, (hsame line alone hmakes).1 hline, alone, hmakes, hignores⟩
    · rintro ⟨line, hline, alone, hmakes, hignores⟩
      exact ⟨line, (hsame line alone hmakes).2 hline, alone, hmakes, hignores⟩
  case first =>
    intro e
    simp only [ne_eq, add_eq_error_iff, ofLines_eq_error_iff, Option.eq_none_iff_forall_ne_some]
  case accepted =>
    intro list
    simp only [ne_eq, add_eq_error_iff, ofLines_eq_ok_iff, Option.eq_none_iff_forall_ne_some]
  -- The lists are those to which the lines are offered, and being among the lines is being in one
  -- of the runs.
  case twoRuns =>
    rintro first second rfl
    simp only [ofLines_eq_ok_iff, List.forall_mem_append]
    refine ⟨by simp, ?_⟩
    rintro _ _ _ ⟨-, rfl⟩ ⟨-, rfl⟩ ⟨-, rfl⟩ path
    rw [Bool.eq_iff_iff, Bool.or_eq_true, ignores_offerAll_iff, ignores_offerAll_iff,
      ignores_offerAll_iff]
    simp only [List.mem_append, or_and_right, exists_or]

/-- Six lines: a pattern in two ways of writing it, a comment, one that is no pattern, a blank line,
and a pattern that begins with a number sign. -/
def mixedLines : List (List Char) :=
  ["\t*.o ".toList, " # *.c".toList, "[".toList, " ".toList, "./#x".toList, "./*.o".toList]

/-- One of the lines is refused, and it is the one that is reported; the patterns of the others are
in force, whatever stands between them, and the comment is not. -/
theorem offerAll_gathers_mixedLines :
    ofLines mixedLines = .error ⟨['['], ⟨0, .invalidClass⟩⟩ ∧
      (empty.offerAll mixedLines).isEmpty = false ∧
      (empty.offerAll mixedLines).ignores (.ofString "lib/b.o") = true ∧
      (empty.offerAll mixedLines).ignores (.ofString "b.c") = false ∧
      ∀ path, (empty.offerAll mixedLines).ignores path =
        (empty.offerAll ["./*.o".toList, "./#x".toList, "\t*.o ".toList]).ignores path := by
  obtain ⟨-, hignores, hempty, hsame, herror, -, -⟩ := offerAll_gathers mixedLines
  have hobject : Makes "\t*.o ".toList ⟨[⟨[.star, .literal '.', .literal 'o']⟩]⟩ :=
    ⟨by decide, by decide +kernel⟩
  have hopen : empty.add "[".toList = .error ⟨['['], ⟨0, .invalidClass⟩⟩ := by decide +kernel
  have hbefore : ∀ x ∈ ["\t*.o ".toList, " # *.c".toList], ∀ e', empty.add x ≠ .error e' := by
    have hcomment : empty.add " # *.c".toList = .ok empty := by decide
    rw [List.forall_mem_cons, List.forall_mem_singleton, hobject.2, hcomment]
    simp
  refine ⟨(herror _).2 ⟨_, _, _, rfl, hopen, hbefore⟩, ?_,
    (hignores _).2 ⟨_, List.mem_cons_self, _, hobject, by decide +kernel⟩, by decide +kernel,
    hsame _ ?_⟩
  · rw [← Bool.not_eq_true, hempty, not_not]
    exact ⟨_, List.mem_cons_self, _, hobject⟩
  · intro line alone hmakes
    have hcomment : line ≠ " # *.c".toList := by
      rintro rfl
      exact absurd hmakes.1 (by decide)
    have hblank : line ≠ " ".toList := by
      rintro rfl
      exact absurd hmakes.1 (by decide)
    have hclass : line ≠ "[".toList := by
      rintro rfl
      rw [Makes, hopen] at hmakes
      cases hmakes.2
    simp only [mixedLines, List.mem_cons, List.not_mem_nil, or_false, hcomment, hblank, hclass,
      false_or]
    tauto

end SourceSurvey.IgnoreList
