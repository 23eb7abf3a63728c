import SourceSurvey.Ignore
import SourceSurvey.Proofs.Glob.Slash
import SourceSurvey.Proofs.Path
import SourceSurvey.Proofs.Text.Utf8

/-!
# Patterns for names and patterns for ways

Every pattern is tried on a whole path and on the last name in it. For the paths of a walk one of
the two trials is idle: a pattern with a literal slash accepts no name, and a pattern without one
accepts a path only if it accepts the last name. So a pattern of the first kind asks for the way
from the root (`AsksForWay`) and one of the second kind for the name, in whatever directory it
stands (`AsksForName`); `asks_of_add` says so of every line that an ignore list accepts. A name
pattern can be written with `./` or with `**/` in front of it and asks for the same.
-/

set_option autoImplicit false

namespace SourceSurvey.IgnoreList

/-! ## Lines -/

/-- A text without one `./` at its beginning. -/
def withoutHere : List Char → List Char
  | '.' :: '/' :: rest => rest
  | text => text

theorem withoutHere_isSuffix (text : List Char) : withoutHere text <:+ text := by
  unfold withoutHere
  split
  · exact (List.suffix_cons _ _).trans (List.suffix_cons _ _)
  · exact List.suffix_refl _

/-- A pattern without a slash does not begin with a dot and a slash. -/
theorem withoutHere_eq_self {text : List Char} (h : '/' ∉ text) : withoutHere text = text := by
  unfold withoutHere
  split
  · simp at h
  · rfl

section Lines

variable {line pattern : List Char} {list : IgnoreList} {glob : Glob}

/-- A line that is no blank and no comment is a pattern without the blanks around it. -/
theorem patternOf?_eq (hblank : Blank.trim line ≠ [])
    (hcomment : (Blank.trim line).head? ≠ some '#') :
    patternOf? line = some (withoutHere (Blank.trim line)) := by
  rw [patternOf?]
  generalize Blank.trim line = text at hblank hcomment
  rw [withoutHere.eq_def]
  split
  · exact absurd rfl hblank
  · exact absurd rfl hcomment
  · rfl
  · rename_i hhere
    split
    · exact absurd rfl (hhere _)
    · rfl

/-- A line with a valid pattern gives a list of one pattern. -/
theorem add_empty_of_parse (hpattern : patternOf? line = some pattern)
    (hglob : Glob.parse pattern = .ok glob) : empty.add line = .ok ⟨[glob]⟩ := by
  simp [add, parseLine, hpattern, hglob, empty]

/-- A line that is taken has a valid pattern. -/
theorem exists_parse_of_add (hpattern : patternOf? line = some pattern)
    (hadd : empty.add line = .ok list) : ∃ glob, Glob.parse pattern = .ok glob ∧ list = ⟨[glob]⟩ := by
  cases hglob : Glob.parse pattern with
  | error cause => simp [add, parseLine, hpattern, hglob] at hadd
  | ok glob =>
    rw [add_empty_of_parse hpattern hglob] at hadd
    cases hadd
    exact ⟨glob, rfl, rfl⟩

/-- What is written in front of a pattern is not trimmed away, nor is the end of the pattern. -/
theorem patternOf?_append (front : List Char) (hne : pattern ≠ [])
    (hlast : ∀ c ∈ pattern.getLast?, Blank.isBlank c = false)
    (hfirst : ∀ c ∈ (front ++ pattern).head?, c ≠ '#' ∧ Blank.isBlank c = false) :
    patternOf? (front ++ pattern) = some (withoutHere (front ++ pattern)) := by
  have htrim : Blank.trim (front ++ pattern) = front ++ pattern := by
    refine Blank.trim_eq_self (fun c hc => (hfirst c hc).2) ?_
    intro c hc
    rw [List.getLast?_append_of_ne_nil _ hne] at hc
    exact hlast c hc
  have hline := @patternOf?_eq (front ++ pattern)
  rw [htrim] at hline
  refine hline (List.append_ne_nil_of_right_ne_nil _ hne) ?_
  intro hhead
  exact (hfirst '#' hhead).1 rfl

end Lines

/-! ## The paths of a walk -/

/-- The names along a path of a walk that can be read as texts. -/
structure Walked (names : List (List Char)) : Prop where
  ne_nil : names ≠ []
  proper : ∀ name ∈ names, ProperName (Utf8.encode name)

/-- The path with the given names. -/
def pathOf (names : List (List Char)) : Path := .ofPlace (names.map Utf8.encode)

/-- The path as a text: its names with slashes between them. -/
def textOf (names : List (List Char)) : List Char := List.intercalate ['/'] names

section Paths

variable {above : List (List Char)} {name : List Char}

/-- The text of a path is its last name with the directories in front of it, a slash behind each. -/
theorem textOf_concat : textOf (above ++ [name]) = above.flatMap (· ++ ['/']) ++ name := by
  induction above with
  | nil => simp [textOf]
  | cons first above ih =>
    obtain ⟨second, more, hmore⟩ := List.exists_cons_of_ne_nil (List.concat_ne_nil name above)
    rw [textOf, List.cons_append, hmore, List.intercalate_cons_cons, ← hmore, List.flatMap_cons,
      List.append_assoc _ _ name, ← ih]
    rfl

/-- In front of the last name nothing stands or a slash. -/
theorem eq_slash_of_mem_getLast? : ∀ c ∈ (above.flatMap (· ++ ['/'])).getLast?, c = '/' := by
  intro c hc
  rcases List.eq_nil_or_concat above with rfl | ⟨more, last, rfl⟩
  · simp at hc
  · simp at hc
    exact hc.symm

/-- A path is the bytes of its text. -/
theorem bytes_pathOf (names : List (List Char)) :
    (pathOf names).bytes = Utf8.encode (textOf names) := by
  have hslash : Utf8.encode ['/'] = [Path.slash] := by decide
  cases names with
  | nil => rfl
  | cons first names =>
    show Path.join (Utf8.encode first) (names.map Utf8.encode) = _
    -- The first name is joined to the rest and stands first in it in the next step, so the
    -- induction is over all first names.
    induction names generalizing first with
    | nil => simp [Path.join, textOf]
    | cons second names ih =>
      rw [textOf, List.intercalate_cons_cons, Utf8.encode_append, Utf8.encode_append, hslash]
      rw [show List.intercalate ['/'] (second :: names) = textOf (second :: names) from rfl,
        ← ih second]
      simp [Path.join]

/-- No name holds a slash. -/
theorem slash_notMem_name (h : ProperName (Utf8.encode name)) : '/' ∉ name := by
  intro hmem
  exact h.slash_notMem ((Utf8.mem_encode_iff (by decide) (by decide)).2 hmem)

theorem withoutDot_ofPlace {place : List Name} (h : ∀ name ∈ place, ProperName name) :
    withoutDot (.ofPlace place) = .ofPlace place := by
  have hhere : (⟨[Path.dot]⟩ : Path).components = [.here] := by decide
  have hnone : (Path.ofPlace place).relativeTo? ⟨[Path.dot]⟩ = none := by
    rw [Path.relativeTo?, hhere, Path.components_ofPlace h, if_neg]
    cases place <;> simp
  rw [withoutDot, hnone]
  rfl

/-- A list of one pattern ignores a path that the pattern accepts as a whole or by its last name. -/
theorem ignores_pathOf_iff (glob : Glob) (h : Walked (above ++ [name])) :
    (⟨[glob]⟩ : IgnoreList).ignores (pathOf (above ++ [name])) = true ↔
      Glob.Accepts glob.tokens (textOf (above ++ [name])) ∨ Glob.Accepts glob.tokens name := by
  have hproper : ∀ x ∈ above.map Utf8.encode ++ [Utf8.encode name], ProperName x := by
    intro x hx
    rw [← List.map_singleton, ← List.map_append] at hx
    obtain ⟨text, htext, rfl⟩ := List.mem_map.1 hx
    exact h.proper text htext
  have hplace : pathOf (above ++ [name])
      = .ofPlace (above.map Utf8.encode ++ [Utf8.encode name]) := by
    rw [pathOf, List.map_append, List.map_singleton]
  -- The pattern is asked about the whole path and about its last name, both of which are texts.
  have hbytes : acceptsBytes glob (pathOf (above ++ [name])).bytes
      = glob.accepts (textOf (above ++ [name])) := by
    rw [acceptsBytes, bytes_pathOf, Utf8.decode?_encode]
  have hname : acceptsBytes glob (Utf8.encode name) = glob.accepts name := by
    rw [acceptsBytes, Utf8.decode?_encode]
  rw [ignores, List.any_cons, List.any_nil, Bool.or_false, hplace, withoutDot_ofPlace hproper,
    acceptsPath, Path.fileName?_ofPlace hproper, ← hplace, hbytes]
  simp only [hname, Bool.or_eq_true, Glob.accepts_iff]

end Paths

/-! ## What a pattern asks for -/

/-- The list ignores exactly the paths whose last name the pattern accepts. -/
def AsksForName (list : IgnoreList) (glob : Glob) : Prop :=
  ∀ above name, Walked (above ++ [name]) →
    (list.ignores (pathOf (above ++ [name])) = true ↔ Glob.Accepts glob.tokens name)

/-- The list ignores exactly the paths that the pattern accepts as a whole; it never accepts the
last name. -/
def AsksForWay (list : IgnoreList) (glob : Glob) : Prop :=
  ∀ above name, Walked (above ++ [name]) →
    (list.ignores (pathOf (above ++ [name])) = true ↔
      Glob.Accepts glob.tokens (textOf (above ++ [name]))) ∧
    ¬ Glob.Accepts glob.tokens name

/-- The lists ignore the same paths of walks. -/
def SameIgnored (list other : IgnoreList) : Prop :=
  ∀ names, Walked names → list.ignores (pathOf names) = other.ignores (pathOf names)

section Asking

variable {pattern : List Char} {list other : IgnoreList} {glob : Glob}

/-- A pattern without a slash asks for a name: if it accepts a whole path, it accepts the last name
too. -/
theorem asksForName (hparse : Glob.parse pattern = .ok glob)
    (hslash : .literal '/' ∉ glob.tokens) : AsksForName ⟨[glob]⟩ glob := by
  intro above name h
  rw [ignores_pathOf_iff glob h]
  constructor
  · intro haccepts
    rcases haccepts with hpath | hname
    -- In front of the name there are whole directories, which only two stars can pass over.
    · rw [textOf_concat] at hpath
      have hplaced := (Glob.parse_eq_ok_iff.1 hparse).placed
      have hnoSlash := slash_notMem_name (h.proper name (by simp))
      exact hpath.of_append hplaced hslash hnoSlash eq_slash_of_mem_getLast?
    · exact hname
  · exact .inr

/-- A pattern with a slash asks for a way from the root. No name by itself has a slash to match it.
-/
theorem asksForWay (hslash : .literal '/' ∈ glob.tokens) : AsksForWay ⟨[glob]⟩ glob := by
  intro above name h
  have hname : ¬ Glob.Accepts glob.tokens name :=
    fun haccepts => slash_notMem_name (h.proper name (by simp)) (haccepts.slash_mem hslash)
  refine ⟨?_, hname⟩
  rw [ignores_pathOf_iff glob h, or_iff_left hname]

/-- Lists that ask for the same names ignore the same paths. -/
theorem SameIgnored.of_asksForName {first second : Glob} (hlist : AsksForName list first)
    (hother : AsksForName other second)
    (h : ∀ name, '/' ∉ name →
      (Glob.Accepts first.tokens name ↔ Glob.Accepts second.tokens name)) :
    SameIgnored list other := by
  intro names hnames
  rcases List.eq_nil_or_concat names with rfl | ⟨above, name, rfl⟩
  · exact absurd rfl hnames.ne_nil
  · rw [List.concat_eq_append] at hnames ⊢
    have hnoSlash := slash_notMem_name (hnames.proper name (by simp))
    rw [Bool.eq_iff_iff, hlist above name hnames, hother above name hnames, h name hnoSlash]

/-- A name pattern can be written with `./` or with `**/` in front of it. -/
theorem add_respelled (hparse : Glob.parse pattern = .ok glob) (hslash : '/' ∉ pattern)
    (hlast : ∀ c ∈ pattern.getLast?, Blank.isBlank c = false) (hne : pattern ≠ [])
    (hfirst : ∀ c ∈ pattern.head?, c ≠ '#' ∧ Blank.isBlank c = false)
    (hlist : AsksForName list glob) :
    ∀ front ∈ [[], ['.', '/'], ['*', '*', '/']],
      ∃ other, empty.add (front ++ pattern) = .ok other ∧ SameIgnored other list := by
  have hwritten := Glob.parse_eq_ok_iff.1 hparse
  have hliteral := hwritten.literal_notMem hslash
  intro front hfront
  simp only [List.mem_cons, List.not_mem_nil, or_false] at hfront
  rcases hfront with rfl | rfl | rfl
  · have hline := patternOf?_append [] hne hlast hfirst
    rw [List.nil_append, withoutHere_eq_self hslash] at hline
    refine ⟨⟨[glob]⟩, add_empty_of_parse hline hparse, ?_⟩
    exact .of_asksForName (asksForName hparse hliteral) hlist fun _ _ => Iff.rfl
  -- A dot and a slash in front are taken off again.
  · have hline := patternOf?_append ['.', '/'] hne hlast (by simp; decide)
    refine ⟨⟨[glob]⟩, add_empty_of_parse hline hparse, ?_⟩
    exact .of_asksForName (asksForName hparse hliteral) hlist fun _ _ => Iff.rfl
  -- The stars are a token of their own, which does nothing in front of a name.
  · have hline := patternOf?_append ['*', '*', '/'] hne hlast (by simp; decide)
    have hstars : Glob.parse ('*' :: '*' :: '/' :: pattern)
        = .ok ⟨.directories :: glob.tokens⟩ :=
      Glob.parse_eq_ok_iff.2 (.directories hwritten)
    have hnoLiteral : .literal '/' ∉ Glob.Token.directories :: glob.tokens :=
      List.not_mem_cons_of_ne_of_not_mem (by simp) hliteral
    refine ⟨⟨[⟨.directories :: glob.tokens⟩]⟩, add_empty_of_parse hline hstars, ?_⟩
    refine .of_asksForName (asksForName hstars hnoLiteral) hlist ?_
    intro name hname
    exact Glob.accepts_directories_iff (hwritten.ne_nil hne) hname

end Asking

/-- A line of an ignore list asks for a name or for a way from the root. Without a slash in the
pattern it asks for a name, and then it can be written in three ways; with a literal slash it asks
for a way. The slashes that stand in a class or behind two stars are no literal ones: with no others
the line asks for a name. -/
theorem asks_of_add {line pattern : List Char} {list : IgnoreList}
    (hblank : Blank.trim line ≠ []) (hcomment : (Blank.trim line).head? ≠ some '#')
    (hpattern : withoutHere (Blank.trim line) = pattern) (hadd : empty.add line = .ok list) :
    ∃ glob, Glob.parse pattern = .ok glob ∧ list.globs = [glob] ∧
      ('/' ∉ pattern →
        AsksForName list glob ∧
        (pattern ≠ [] → (∀ c ∈ pattern.head?, c ≠ '#' ∧ Blank.isBlank c = false) →
          ∀ front ∈ [[], ['.', '/'], ['*', '*', '/']],
            ∃ other, empty.add (front ++ pattern) = .ok other ∧ SameIgnored other list)) ∧
      (.literal '/' ∈ glob.tokens → AsksForWay list glob) ∧
      (.literal '/' ∉ glob.tokens → AsksForName list glob) := by
  have hline := patternOf?_eq hblank hcomment
  rw [hpattern] at hline
  obtain ⟨glob, hparse, rfl⟩ := exists_parse_of_add hline hadd
  refine ⟨glob, hparse, rfl, ?_, asksForWay, asksForName hparse⟩
  intro hslash
  have hname := asksForName hparse ((Glob.parse_eq_ok_iff.1 hparse).literal_notMem hslash)
  refine ⟨hname, ?_⟩
  intro hne hfirst
  refine add_respelled hparse hslash ?_ hne hfirst hname
  intro c hc
  -- The pattern ends as the trimmed line does.
  obtain ⟨front, hfront⟩ := withoutHere_isSuffix (Blank.trim line)
  rw [hpattern] at hfront
  have hlast : c ∈ (Blank.trim line).getLast? := by
    rw [← hfront, List.getLast?_append_of_ne_nil _ hne]
    exact hc
  exact Blank.isBlank_of_mem_getLast?_trim hlast

/-- A line with slashes of all three kinds: literal, behind two stars and in a class. -/
def generatedLine : List Char := " ./gen/**/[!/]*.c ".toList

/-- Only the first slash of the line is a literal one; for its sake the way from the root is asked
for. -/
theorem asks_of_add_generatedLine :
    Blank.trim generatedLine ≠ [] ∧ (Blank.trim generatedLine).head? ≠ some '#' ∧
      ∃ list glob, empty.add generatedLine = .ok list ∧ AsksForWay list glob := by
  have hblank : Blank.trim generatedLine ≠ [] := by decide
  have hcomment : (Blank.trim generatedLine).head? ≠ some '#' := by decide
  have hparse : Glob.parse (withoutHere (Blank.trim generatedLine))
      = .ok ⟨[.literal 'g', .literal 'e', .literal 'n', .literal '/', .directories,
          .charClass true [('/', '/')], .star, .literal '.', .literal 'c']⟩ := by
    have htext : withoutHere (Blank.trim generatedLine) = "gen/**/[!/]*.c".toList := by decide
    rw [htext, Glob.parse_eq_ok_iff]
    iterate 4 refine .literal (by decide) (by decide) (by decide) ?_
    refine .directories (.charClass rfl (.star (by decide) ?_))
    iterate 2 refine .literal (by decide) (by decide) (by decide) ?_
    exact .nil
  have hadd := add_empty_of_parse (patternOf?_eq hblank hcomment) hparse
  obtain ⟨glob, hglob, -, -, hway, -⟩ := asks_of_add hblank hcomment rfl hadd
  rw [hparse] at hglob
  cases hglob
  exact ⟨hblank, hcomment, _, _, hadd, hway (by simp)⟩

end SourceSurvey.IgnoreList
