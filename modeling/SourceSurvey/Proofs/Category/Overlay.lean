import SourceSurvey.Proofs.Category.Extension
import SourceSurvey.Proofs.Text.Order

/-!
# More extensions

Entries are added to the built-in table one after the other, and a dot in front of a key is dropped.
So an extension without dots is looked up under two keys (`IsKeyOf`), and what the table says in the
end is what the last entry for it says (`get?_extend`), or else the built-in table.

The main statement is `classify_withExtensions`. An entry of which the key can be no extension makes
no difference, and of two entries in a map for one extension the greater key counts, since a map
passes on its entries in the order of the bytes of their keys.
-/

set_option autoImplicit false

namespace SourceSurvey

namespace Classifier

/-! ## The keys of an extension -/

/-- A key under which an extension is entered: the extension, or the extension behind a dot. -/
def IsKeyOf (ext : List Char) (key : String) : Prop := key.toList = ext ∨ key.toList = '.' :: ext

instance (ext : List Char) (key : String) : Decidable (IsKeyOf ext key) :=
  inferInstanceAs (Decidable (_ ∨ _))

theorem IsKeyOf.eq_or {ext : List Char} {key : String} (h : IsKeyOf ext key) :
    key = String.ofList ext ∨ key = String.ofList ('.' :: ext) := by
  rcases h with rfl | h
  · exact .inl String.ofList_toList.symm
  · exact .inr (by rw [← h, String.ofList_toList])

/-- Two keys stand for an extension: with a dot in front and without. -/
theorem normalize_eq_iff {ext : List Char} (hext : '.' ∉ ext) {key : String} :
    normalize key = String.ofList ext ↔ IsKeyOf ext key := by
  rw [normalize, IsKeyOf]
  split
  · rename_i rest hkey
    rw [String.ofList_inj, hkey, List.cons.injEq]
    have hne : '.' :: rest ≠ ext := by
      rintro rfl
      exact hext List.mem_cons_self
    simp [hne]
  · rename_i hplain
    rw [← String.toList_inj, String.toList_ofList]
    have hne : key.toList ≠ '.' :: ext := hplain ext
    simp [hne]

/-- The category of the last entry for an extension. -/
def lastFor? (extra : List (String × String)) (ext : List Char) : Option String :=
  (extra.reverse.find? fun e => IsKeyOf ext e.1).map (·.2)

section Last

variable {ext : List Char}

/-- Of two lists of entries the second is asked first. -/
theorem lastFor?_append (first second : List (String × String)) (ext : List Char) :
    lastFor? (first ++ second) ext = (lastFor? second ext).or (lastFor? first ext) := by
  rw [lastFor?, List.reverse_append, List.find?_append, Option.map_or]
  rfl

theorem lastFor?_singleton (e : String × String) (ext : List Char) :
    lastFor? [e] ext = if IsKeyOf ext e.1 then some e.2 else none := by
  by_cases h : IsKeyOf ext e.1 <;> simp [lastFor?, h]

theorem lastFor?_eq_none {extra : List (String × String)} (h : ∀ e ∈ extra, ¬IsKeyOf ext e.1) :
    lastFor? extra ext = none := by
  rw [lastFor?, Option.map_eq_none_iff, List.find?_eq_none]
  intro e he
  simpa using h e (List.mem_reverse.1 he)

/-- In the order of the keys the last entry is the one with the greatest key. -/
theorem lastFor?_of_greatest {entries : List (String × String)} {key category : String}
    (hsorted : entries.Pairwise fun a b => Utf8.ofString a.1 < Utf8.ofString b.1)
    (hmem : (key, category) ∈ entries) (hkey : IsKeyOf ext key)
    (hgreatest : ∀ key', IsKeyOf ext key' → ¬Utf8.ofString key < Utf8.ofString key') :
    lastFor? entries ext = some category := by
  obtain ⟨before, after, rfl⟩ := List.append_of_mem hmem
  -- Behind the greatest key there is no other key of the extension.
  have hafter : lastFor? after ext = none := by
    apply lastFor?_eq_none
    intro e he hkey'
    have hlater := (List.pairwise_append.1 hsorted).2.1
    exact hgreatest e.1 hkey' ((List.pairwise_cons.1 hlater).1 e he)
  rw [← List.singleton_append, lastFor?_append, lastFor?_append, hafter, lastFor?_singleton,
    if_pos hkey]
  rfl

/-! ## Tables -/

/-- An entry that is added comes before what the table says. -/
theorem get?_add (classifier : Classifier) (e : String × String) (hext : '.' ∉ ext) :
    (classifier.add e.1 e.2).extensions.get? (String.ofList ext) =
      (lastFor? [e] ext).or (classifier.extensions.get? (String.ofList ext)) := by
  rw [add, SortedMap.get?_insert, lastFor?_singleton]
  by_cases h : IsKeyOf ext e.1
  · rw [if_pos ((normalize_eq_iff hext).2 h).symm, if_pos h]
    rfl
  · rw [if_neg fun heq => h ((normalize_eq_iff hext).1 heq.symm), if_neg h]
    rfl

/-- The last entry for an extension counts. -/
theorem get?_extend (extra : List (String × String)) (classifier : Classifier) (hext : '.' ∉ ext) :
    (classifier.extend extra).extensions.get? (String.ofList ext) =
      (lastFor? extra ext).or (classifier.extensions.get? (String.ofList ext)) := by
  induction extra generalizing classifier with
  | nil => rfl
  | cons e rest ih =>
    -- The induction follows the entries: the first one is added to the table before the others are.
    have hcons : classifier.extend (e :: rest) = (classifier.add e.1 e.2).extend rest := rfl
    rw [hcons, ih, get?_add classifier e hext, ← Option.or_assoc, ← lastFor?_append]
    rfl

theorem get?_builtin (key : String) : builtin.extensions.get? key = builtinExtensions.lookup key :=
  SortedMap.get?_ofList (by decide) key

end Last

/-! ## Paths -/

section Paths

variable {path : Path} {dots stem ext : List Char}

theorem classify_of_dotted (classifier : Classifier) (h : Dotted '.' path.shownName dots stem ext) :
    classifier.classify path = (classifier.extensions.get? (String.ofList ext)).getD unknown :=
  classifyName_eq_iff.2 (.extension h)

/-- Tables that agree on what can be an extension give the same categories. -/
theorem classify_congr {classifier classifier' : Classifier}
    (h : ∀ ext, '.' ∉ ext → '/' ∉ ext → classifier.extensions.get? (String.ofList ext) =
      classifier'.extensions.get? (String.ofList ext)) (path : Path) :
    classifier.classify path = classifier'.classify path := by
  cases hext : extension? path.shownName with
  | none =>
    apply classifyName_eq_iff.2
    exact (classifyName_eq_iff.1 rfl).of_not_dotted (extension?_eq_none_iff.1 hext) classifier
  | some ext =>
    obtain ⟨dots, stem, hdotted⟩ := extension?_eq_some_iff.1 hext
    have hslash : '/' ∉ ext := by
      intro hmem
      apply path.slash_notMem_shownName
      rw [hdotted.eq]
      simp [hmem]
    rw [classify_of_dotted classifier hdotted, classify_of_dotted classifier' hdotted,
      h ext hdotted.notMem_ext hslash]

end Paths

/-- The last entry for an extension gives its category. Without an entry the built-in table
does. Further entries are laid over the table; an entry with a dot or a slash in its key, one dot in
front left out, makes no difference; and if a map has an extension with and without the dot, the
greater one of the two keys counts. -/
theorem classify_withExtensions :
    (∀ extra path dots stem ext, Dotted '.' path.shownName dots stem ext →
      (withExtensions extra).classify path =
        ((lastFor? extra ext).or (builtinExtensions.lookup (String.ofList ext))).getD unknown) ∧
    (∀ first second path,
      (∀ dots stem ext, Dotted '.' path.shownName dots stem ext →
        (withExtensions (first ++ second)).classify path =
          (lastFor? second ext).getD ((withExtensions first).classify path)) ∧
      ((∀ dots stem ext, ¬Dotted '.' path.shownName dots stem ext) →
        (withExtensions (first ++ second)).classify path =
          (withExtensions first).classify path)) ∧
    (∀ before after key category, '.' ∈ (normalize key).toList ∨ '/' ∈ (normalize key).toList →
      ∀ path, (withExtensions (before ++ (key, category) :: after)).classify path =
        (withExtensions (before ++ after)).classify path) ∧
    ∀ (map : SortedMap String) path dots stem ext plain dotted,
      Dotted '.' path.shownName dots stem ext →
      map.get? (String.ofList ext) = some plain →
      map.get? (String.ofList ('.' :: ext)) = some dotted →
      (withExtensions map.entries).classify path =
        if Utf8.ofString (String.ofList ext) < Utf8.ofString (String.ofList ('.' :: ext))
        then dotted else plain := by
  -- The first part is stated ahead of the others, which compare two tables by it.
  have hlast : ∀ (extra : List (String × String)) (path : Path) {dots stem ext : List Char},
      Dotted '.' path.shownName dots stem ext → (withExtensions extra).classify path =
        ((lastFor? extra ext).or (builtinExtensions.lookup (String.ofList ext))).getD unknown := by
    intro extra path dots stem ext h
    rw [classify_of_dotted _ h, withExtensions, get?_extend extra builtin h.notMem_ext,
      get?_builtin]
  refine ⟨fun extra path _ _ _ h => hlast extra path h, ?overlay, ?barred, ?greater⟩
  case overlay =>
    intro first second path
    constructor
    · intro dots stem ext h
      rw [hlast _ path h, hlast _ path h, lastFor?_append, Option.or_assoc]
      cases lastFor? second ext <;> rfl
    · intro hnone
      apply classifyName_eq_iff.2
      exact (classifyName_eq_iff.1 rfl).of_not_dotted hnone _
  case barred =>
    intro before after key category hkey path
    apply classify_congr
    intro ext hdot hslash
    -- Such a key is none of an extension without dots and slashes.
    have hother : ¬IsKeyOf ext key := by
      intro hkeyOf
      have hext : (normalize key).toList = ext := by
        rw [(normalize_eq_iff hdot).2 hkeyOf, String.toList_ofList]
      rw [hext] at hkey
      exact hkey.elim hdot hslash
    rw [withExtensions, withExtensions, get?_extend _ _ hdot, get?_extend _ _ hdot,
      ← List.singleton_append, lastFor?_append, lastFor?_append, lastFor?_append,
      lastFor?_singleton, if_neg hother, Option.or_none]
  case greater =>
    intro map path dots stem ext plain dotted h hplain hdotted
    -- The entries of a map come with increasing keys, so the entry of the greater spelling is the
    -- last one.
    have hsorted := map.pairwise_ofString
    rw [SortedMap.get?_eq_some_iff] at hplain hdotted
    rw [hlast _ path h]
    split
    · rename_i hlt
      rw [lastFor?_of_greatest hsorted hdotted (.inr String.toList_ofList)]
      · rfl
      · intro key' hkey'
        rcases hkey'.eq_or with rfl | rfl
        · exact List.lt_asymm hlt
        · exact List.lt_irrefl _
    · rename_i hnot
      rw [lastFor?_of_greatest hsorted hplain (.inl String.toList_ofList)]
      · rfl
      · intro key' hkey'
        rcases hkey'.eq_or with rfl | rfl
        · exact List.lt_irrefl _
        · exact hnot

/-- Two extensions with and without the dot in front; a minus comes before a dot, a letter after. -/
def twiceMap : SortedMap String :=
  .ofList [("h", "plain"), (".h", "dotted"), ("-h", "plain"), (".-h", "dotted")]

/-- The later entry counts, then the greater key; a key with two dots in front is none. -/
theorem classify_withExtensions_twice :
    Dotted '.' (Path.ofString "src/a.h").shownName [] ['a'] ['h'] ∧
      (withExtensions [("h", "A"), (".h", "B"), ("c", "C")]).classify (Path.ofString "src/a.h") =
        "B" ∧
      (withExtensions ([("h", "A")] ++ [("c", "C")])).classify (Path.ofString "src/a.h") =
        (withExtensions [("h", "A")]).classify (Path.ofString "src/a.h") ∧
      (withExtensions ([] ++ [("", "A")])).classify (Path.ofString "README") =
        (withExtensions []).classify (Path.ofString "README") ∧
      '.' ∈ (normalize "..h").toList ∧
      (withExtensions ([] ++ ("..h", "A") :: [])).classify (Path.ofString "src/a.h") =
        (withExtensions ([] ++ [])).classify (Path.ofString "src/a.h") ∧
      (withExtensions twiceMap.entries).classify (Path.ofString "src/a.h") = "plain" ∧
      (withExtensions twiceMap.entries).classify (Path.ofString "a.-h") = "dotted" := by
  have hletter : Dotted '.' (Path.ofString "src/a.h").shownName [] ['a'] ['h'] :=
    ⟨by decide +kernel, by simp, by simp, by simp, by simp⟩
  have hminus : Dotted '.' (Path.ofString "a.-h").shownName [] ['a'] ['-', 'h'] :=
    ⟨by decide +kernel, by simp, by simp, by simp, by simp⟩
  have hnone : ∀ dots stem ext, ¬Dotted '.' (Path.ofString "README").shownName dots stem ext := by
    have hname : (Path.ofString "README").shownName = [] ++ "README".toList := by decide +kernel
    exact fun _ _ _ => not_dotted hname (by simp) (by simp)
  obtain ⟨hlast, hoverlay, hbarred, hgreater⟩ := classify_withExtensions
  have hkey : '.' ∈ (normalize "..h").toList := by decide
  refine ⟨hletter, (hlast _ _ _ _ _ hletter).trans (by decide), ?_,
    (hoverlay _ _ _).2 hnone, hkey, hbarred _ _ _ _ (.inl hkey) _, ?_, ?_⟩
  · exact ((hoverlay _ _ _).1 _ _ _ hletter).trans (by decide +kernel)
  · exact (hgreater twiceMap _ _ _ _ "plain" "dotted" hletter (by decide) (by decide)).trans
      (if_neg (by decide))
  · exact (hgreater twiceMap _ _ _ _ "plain" "dotted" hminus (by decide) (by decide)).trans
      (if_pos (by decide))

end Classifier

end SourceSurvey
