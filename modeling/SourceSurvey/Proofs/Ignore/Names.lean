import SourceSurvey.Proofs.Ignore.Gathering
import SourceSurvey.Proofs.PathText

/-!
# Lists of patterns for names

A list to which only lines without a slash have been offered is about names: whether it ignores an
entry depends on the last name on the way there, be the names texts or not
(`ignores_ofPlace_concat_iff`). So it does not matter from which of the directories above it an
entry is looked at (`ignores_ofPlace_cons`).
-/

set_option autoImplicit false

namespace SourceSurvey.IgnoreList

/-- A pattern that has been read and has no literal slash. -/
def IsForNames (glob : Glob) : Prop :=
  (∃ pattern, Glob.parse pattern = .ok glob) ∧ .literal '/' ∉ glob.tokens

section Lines

variable {line : List Char} {lines : List (List Char)} {glob : Glob}

theorem slash_notMem_trim (h : '/' ∉ line) : '/' ∉ Blank.trim line := by
  intro hmem
  -- Trimming takes away characters at both ends and adds none.
  have hend := (List.dropWhile_suffix _).mem (List.mem_reverse.1 hmem)
  exact h ((List.dropWhile_suffix _).mem (List.mem_reverse.1 hend))

theorem isForNames_of_parseLine (hslash : '/' ∉ line) (h : parseLine line = .ok (some glob)) :
    IsForNames glob := by
  have hpattern : '/' ∉ withoutHere (Blank.trim line) :=
    fun hmem => slash_notMem_trim hslash ((withoutHere_isSuffix _).mem hmem)
  have hparse : Glob.parse (withoutHere (Blank.trim line)) = .ok glob := by
    by_cases hholds : HoldsPattern line
    · rw [parseLine_of_holds hholds] at h
      cases hglob : Glob.parse (withoutHere (Blank.trim line)) with
      | ok read =>
        rw [hglob] at h
        cases h
        rfl
      | error cause =>
        rw [hglob] at h
        cases h
    · rw [parseLine_of_not_holds hholds] at h
      cases h
  exact ⟨⟨_, hparse⟩, (Glob.parse_eq_ok_iff.1 hparse).literal_notMem hpattern⟩

/-- Lines without a slash make a list of patterns for names. -/
theorem isForNames_of_mem_offerAll (hlines : ∀ line ∈ lines, '/' ∉ line)
    (h : glob ∈ (empty.offerAll lines).globs) : IsForNames glob := by
  rcases mem_globs_offerAll.1 h with hnone | ⟨line, hline, hparse⟩
  · cases hnone
  · exact isForNames_of_parseLine (hlines line hline) hparse

end Lines

section Places

variable {list : IgnoreList} {glob : Glob} {above rest : List Name} {name : Name}

/-- A pattern for names accepts an entry exactly if it accepts the last name. -/
theorem acceptsPath_ofPlace_concat_iff (hglob : IsForNames glob)
    (h : ∀ x ∈ above ++ [name], ProperName x) :
    acceptsPath glob (.ofPlace (above ++ [name])) = true ↔ acceptsBytes glob name = true := by
  obtain ⟨⟨pattern, hparse⟩, hslash⟩ := hglob
  by_cases htexts : ∀ x ∈ above ++ [name], Utf8.isText x = true
  -- A way that is a text is accepted as a whole only if its last name is accepted.
  · have hencode : (above.map Utf8.decodeLossy ++ [Utf8.decodeLossy name]).map Utf8.encode =
        above ++ [name] := by
      rw [← List.map_singleton, ← List.map_append, List.map_map, List.map_congr_left (g := id),
        List.map_id]
      exact fun x hx => Utf8.encode_decodeLossy (htexts x hx)
    have hwalked : Walked (above.map Utf8.decodeLossy ++ [Utf8.decodeLossy name]) := by
      refine ⟨by simp, fun text htext => h _ ?_⟩
      rw [← hencode]
      exact List.mem_map_of_mem htext
    -- What is known of patterns for names is about paths of texts, so the bytes are read as texts
    -- first.
    have hasks := asksForName hparse hslash _ _ hwalked
    rw [pathOf, hencode, ignores_iff, withoutDot_ofPlace h] at hasks
    have hname : acceptsBytes glob name = true ↔
        Glob.Accepts glob.tokens (Utf8.decodeLossy name) := by
      rw [← Glob.accepts_iff, acceptsBytes]
      obtain ⟨text, htext⟩ := Utf8.isText_iff.1 (htexts name (by simp))
      rw [htext, Utf8.decode?_encode, Utf8.decodeLossy_of_decode? (Utf8.decode?_encode text)]
    rw [hname, ← hasks]
    simp
  -- Any other way is not accepted as a whole.
  · have hwhole : acceptsBytes glob (Path.ofPlace (above ++ [name])).bytes = false := by
      rw [← Path.isText_ofPlace, Utf8.isText, Option.not_isSome_iff_eq_none] at htexts
      rw [acceptsBytes, htexts]
    rw [acceptsPath, Path.fileName?_ofPlace h, hwhole, Bool.false_or]

/-- A list of patterns for names ignores an entry for its last name. -/
theorem ignores_ofPlace_concat_iff (hlist : ∀ glob ∈ list.globs, IsForNames glob)
    (h : ∀ x ∈ above ++ [name], ProperName x) :
    list.ignores (.ofPlace (above ++ [name])) = true ↔
      ∃ glob ∈ list.globs, acceptsBytes glob name = true := by
  rw [ignores_iff, withoutDot_ofPlace h]
  refine exists_congr fun glob => and_congr_right fun hmem => ?_
  exact acceptsPath_ofPlace_concat_iff (hlist glob hmem) h

/-- The directories above an entry do not matter. -/
theorem ignores_ofPlace_cons (hlist : ∀ glob ∈ list.globs, IsForNames glob)
    (h : ∀ x ∈ name :: rest, ProperName x) (hne : rest ≠ []) :
    list.ignores (.ofPlace (name :: rest)) = list.ignores (.ofPlace rest) := by
  obtain ⟨above, last, rfl⟩ : ∃ above last, rest = above ++ [last] :=
    ⟨_, _, (List.dropLast_concat_getLast hne).symm⟩
  have hrest : ∀ x ∈ above ++ [last], ProperName x := fun x hx => h x (List.mem_cons_of_mem _ hx)
  rw [Bool.eq_iff_iff, ← List.cons_append, ignores_ofPlace_concat_iff hlist h,
    ignores_ofPlace_concat_iff hlist hrest]

end Places

end SourceSurvey.IgnoreList
