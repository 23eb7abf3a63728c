import Mathlib.Data.List.TakeWhile
import SourceSurvey.Category
import SourceSurvey.Proofs.Ancestors

/-!
# The extension of a name

A name has an extension when it can be written as dots, a stem that begins with no dot, one more
dot, and an extension without dots (`Dotted`). There is at most one such writing (`Dotted.unique`),
and `extension?` finds it (`extension?_eq_some_iff`). Bytes are cut in the same way as the text that
they are shown as (`dotted_decodeLossy_iff`), since a dot is a byte by itself.

The main statement is `Classifier.classify_lastName`: the category of a file follows from the last
name of its path, by the table if the name has an extension, by two special names if it has none.
-/

set_option autoImplicit false

namespace SourceSurvey

/-! ## Names with an extension -/

/-- A name written as dots, a stem that is not empty and begins with no dot, a dot, and an extension
without dots. -/
structure Dotted {α : Type} (dot : α) (name dots stem ext : List α) : Prop where
  eq : name = dots ++ (stem ++ dot :: ext)
  dots : ∀ c ∈ dots, c = dot
  stem_ne_nil : stem ≠ []
  head?_stem : stem.head? ≠ some dot
  notMem_ext : dot ∉ ext

section Names

variable {α : Type} [DecidableEq α] {dot : α} {name dots stem ext : List α}

theorem dropWhile_eq_self_of_head?_ne (h : stem.head? ≠ some dot) :
    stem.dropWhile (· = dot) = stem := by
  cases stem with
  | nil => rfl
  | cons c rest => exact List.dropWhile_cons_of_neg (by simpa using h)

theorem dropWhile_dots_append (hdots : ∀ c ∈ dots, c = dot) (h : stem.head? ≠ some dot) :
    (dots ++ stem).dropWhile (· = dot) = stem := by
  rw [List.dropWhile_append_of_pos fun c hc => decide_eq_true (hdots c hc),
    dropWhile_eq_self_of_head?_ne h]

/-- Without the dots in front a name is its stem, a dot and its extension. -/
theorem Dotted.dropWhile_eq (h : Dotted dot name dots stem ext) :
    name.dropWhile (· = dot) = stem ++ dot :: ext := by
  rw [h.eq, dropWhile_dots_append h.dots]
  rw [List.head?_append_of_ne_nil _ h.stem_ne_nil]
  exact h.head?_stem

/-- A name is written in this way, or a dot stands only in front. -/
theorem exists_dotted_or (dot : α) (name : List α) :
    (∃ dots stem ext, Dotted dot name dots stem ext) ∨
      ∃ dots stem, name = dots ++ stem ∧ (∀ c ∈ dots, c = dot) ∧ dot ∉ stem := by
  have hcut : name = name.takeWhile (· = dot) ++ name.dropWhile (· = dot) :=
    List.takeWhile_append_dropWhile.symm
  have hdots : ∀ c ∈ name.takeWhile (· = dot), c = dot := fun c hc => by
    simpa using List.mem_takeWhile_imp hc
  by_cases hmem : dot ∈ name.dropWhile (· = dot)
  · left
    -- The last dot is the first one from behind.
    obtain ⟨after, before, hlast, hafter⟩ := List.eq_append_cons_of_mem (List.mem_reverse.2 hmem)
    have hstem : name.dropWhile (· = dot) = before.reverse ++ dot :: after.reverse := by
      rw [← List.reverse_reverse (name.dropWhile (· = dot)), hlast]
      simp
    have hhead := List.head?_dropWhile_not (· = dot) name
    refine ⟨_, before.reverse, after.reverse, ⟨hstem ▸ hcut, hdots, ?_, ?_, by simpa using hafter⟩⟩
    · intro hnil
      rw [hstem, hnil] at hhead
      simp at hhead
    · intro hdot
      rw [hstem, List.head?_append, hdot] at hhead
      simp at hhead
  · exact .inr ⟨_, _, hcut, hdots, hmem⟩

/-- A name with dots in front only has no extension. -/
theorem not_dotted (hname : name = dots ++ stem) (hdots : ∀ c ∈ dots, c = dot) (hstem : dot ∉ stem)
    {dots' stem' ext' : List α} : ¬Dotted dot name dots' stem' ext' := by
  intro h
  have hhead : stem.head? ≠ some dot := fun hhead => hstem (List.mem_of_mem_head? hhead)
  have hdrop := h.dropWhile_eq
  rw [hname, dropWhile_dots_append hdots hhead] at hdrop
  exact hstem (by simp [hdrop])

end Names

section Extension

variable {name dots stem ext dots' stem' ext' : List Char}

/-- What stands behind the last dot is the extension. -/
theorem Dotted.extension?_eq (h : Dotted '.' name dots stem ext) : extension? name = some ext := by
  have htake : ((stem ++ '.' :: ext).reverse.takeWhile (· ≠ '.')) = ext.reverse := by
    rw [List.reverse_append, List.reverse_cons, List.append_assoc,
      List.takeWhile_append_of_pos fun c hc => ?_]
    · simp
    · refine decide_eq_true ?_
      rintro rfl
      exact h.notMem_ext (List.mem_reverse.1 hc)
  rw [extension?, h.dropWhile_eq, htake, List.reverse_reverse]
  exact if_pos (by simp)

/-- A name is written in one way only. -/
theorem Dotted.unique (h : Dotted '.' name dots stem ext) (h' : Dotted '.' name dots' stem' ext') :
    dots = dots' ∧ stem = stem' ∧ ext = ext' := by
  have hext : ext = ext' := Option.some.inj (h.extension?_eq.symm.trans h'.extension?_eq)
  subst hext
  have hstem : stem = stem' := by
    have hdrop := h.dropWhile_eq.symm.trans h'.dropWhile_eq
    exact List.append_cancel_right hdrop
  subst hstem
  exact ⟨List.append_cancel_right (h.eq.symm.trans h'.eq), rfl, rfl⟩

/-- A name has no extension if it cannot be written with one. -/
theorem extension?_eq_none_iff :
    extension? name = none ↔ ∀ dots stem ext, ¬Dotted '.' name dots stem ext := by
  constructor
  · intro h dots stem ext hdotted
    rw [hdotted.extension?_eq] at h
    cases h
  · intro h
    rcases exists_dotted_or '.' name with
      ⟨dots, stem, ext, hdotted⟩ | ⟨dots, stem, hname, hdots, hstem⟩
    · exact absurd hdotted (h dots stem ext)
    · have hhead : stem.head? ≠ some '.' := fun hhead => hstem (List.mem_of_mem_head? hhead)
      rw [extension?, hname, dropWhile_dots_append hdots hhead]
      exact if_neg hstem

/-- The extension is that of the one writing of a name. -/
theorem extension?_eq_some_iff :
    extension? name = some ext ↔ ∃ dots stem, Dotted '.' name dots stem ext := by
  constructor
  · intro h
    rcases exists_dotted_or '.' name with
      ⟨dots, stem, ext', hdotted⟩ | ⟨dots, stem, hname, hdots, hstem⟩
    · rw [hdotted.extension?_eq, Option.some.injEq] at h
      subst h
      exact ⟨dots, stem, hdotted⟩
    · rw [extension?_eq_none_iff.2 fun _ _ _ => not_dotted hname hdots hstem] at h
      cases h
  · rintro ⟨dots, stem, h⟩
    exact h.extension?_eq

end Extension

/-! ## Bytes and shown names -/

section Bytes

variable {bytes dots stem : List UInt8}

/-- Dots in front are shown as dots, and what follows is shown by itself. -/
theorem decodeLossy_dots_append (hdots : ∀ b ∈ dots, b = Path.dot) (stem : List UInt8) :
    Utf8.decodeLossy (dots ++ stem) = List.replicate dots.length '.' ++ Utf8.decodeLossy stem := by
  induction dots with
  | nil => rfl
  | cons b rest ih =>
    obtain ⟨hb, hrest⟩ := List.forall_mem_cons.1 hdots
    have hdot : Char.ofNat Path.dot.toNat = '.' := by decide
    have hcut := Utf8.decodeLossy_append (b := Path.dot) (by decide) [] (rest ++ stem)
    rw [List.nil_append, Utf8.decodeLossy_nil, hdot, ih hrest] at hcut
    rw [hb, List.cons_append, hcut]
    rfl

theorem decodeLossy_dots (hdots : ∀ b ∈ dots, b = Path.dot) :
    Utf8.decodeLossy dots = List.replicate dots.length '.' := by
  have happend := decodeLossy_dots_append hdots []
  rwa [List.append_nil, Utf8.decodeLossy_nil, List.append_nil] at happend

/-- A text begins with a dot only if its bytes do. -/
theorem head?_of_head?_decodeLossy (h : (Utf8.decodeLossy bytes).head? = some '.') :
    bytes.head? = some Path.dot := by
  cases bytes with
  | nil => simp at h
  | cons b rest =>
    rw [Utf8.decodeLossy, Utf8.segments_cons, List.map_cons, List.head?_cons,
      Option.some.injEq] at h
    cases hsegment : (Utf8.segment b rest).1 with
    | none =>
      rw [hsegment] at h
      exact absurd h (by decide)
    | some c =>
      rw [hsegment, Option.getD_some] at h
      have hbytes := Utf8.encodeChar_of_segment (Prod.ext hsegment rfl)
      have hdot : String.utf8EncodeChar '.' = [Path.dot] := by decide
      rw [h, hdot] at hbytes
      simpa using (List.cons.inj hbytes).1

/-- A name without dots is shown without dots. -/
theorem dot_notMem_decodeLossy (h : Path.dot ∉ bytes) : '.' ∉ Utf8.decodeLossy bytes :=
  fun hmem => h (Utf8.mem_of_mem_decodeLossy (by decide) (by decide) hmem)

/-- The writing of bytes is shown as the writing of the shown name. -/
theorem Dotted.decodeLossy {raw : List UInt8} (h : Dotted Path.dot bytes dots stem raw) :
    Dotted '.' (Utf8.decodeLossy bytes) (Utf8.decodeLossy dots) (Utf8.decodeLossy stem)
      (Utf8.decodeLossy raw) where
  eq := by
    have hdot : Char.ofNat Path.dot.toNat = '.' := by decide
    rw [h.eq, decodeLossy_dots_append h.dots, ← decodeLossy_dots h.dots,
      Utf8.decodeLossy_append (by decide), hdot]
  dots c hc := by
    rw [decodeLossy_dots h.dots] at hc
    exact List.eq_of_mem_replicate hc
  stem_ne_nil := Utf8.decodeLossy_ne_nil h.stem_ne_nil
  head?_stem hhead := h.head?_stem (head?_of_head?_decodeLossy hhead)
  notMem_ext := dot_notMem_decodeLossy h.notMem_ext

/-- The extension of a shown name is the shown extension of its bytes. -/
theorem dotted_decodeLossy_iff {ext : List Char} :
    (∃ dots stem, Dotted '.' (Utf8.decodeLossy bytes) dots stem ext) ↔
      ∃ dots stem raw, Dotted Path.dot bytes dots stem raw ∧ Utf8.decodeLossy raw = ext := by
  constructor
  · rintro ⟨dots, stem, h⟩
    rcases exists_dotted_or Path.dot bytes with
      ⟨dots', stem', raw, hraw⟩ | ⟨dots', stem', hbytes, hdots, hstem⟩
    · exact ⟨dots', stem', raw, hraw, (h.unique hraw.decodeLossy).2.2.symm⟩
    · refine absurd h (not_dotted (hbytes ▸ decodeLossy_dots_append hdots stem') ?_
        (dot_notMem_decodeLossy hstem))
      exact fun c hc => List.eq_of_mem_replicate hc
  · rintro ⟨dots, stem, raw, h, rfl⟩
    exact ⟨_, _, h.decodeLossy⟩

end Bytes

/-! ## The last name of a path -/

namespace Path

/-- The last component of a path as it is shown, if it is a name; empty for a path that ends in
something else, such as two dots, and for a path without components. -/
def shownName (p : Path) : List Char := Utf8.decodeLossy (p.fileName?.getD [])

/-- A name among the components is a piece between slashes. -/
theorem exists_piece_of_mem_components {p : Path} {name : Name}
    (h : Component.name name ∈ p.components) :
    ∃ piece, slash ∉ piece ∧ Component.ofPiece piece = .name name := by
  rcases List.mem_append.1 h with hfirst | hother
  · refine ⟨p.firstPiece, p.slash_notMem_firstPiece, ?_⟩
    rw [firstComponents] at hfirst
    -- The root and the current directory are no names.
    split at hfirst
    · simp at hfirst
    split at hfirst
    · simp at hfirst
    split at hfirst
    · simp at hfirst
    · exact (List.mem_singleton.1 hfirst).symm
  · obtain ⟨piece, hmem, hname⟩ := List.mem_map.1 hother
    exact ⟨piece, slash_notMem_of_mem_otherPieces (List.mem_of_mem_filter hmem), hname⟩

/-- A file name holds no slash. -/
theorem slash_notMem_of_fileName? {p : Path} {name : Name} (h : p.fileName? = some name) :
    slash ∉ name := by
  rw [fileName?] at h
  split at h
  · rename_i hlast
    cases h
    obtain ⟨piece, hslash, hname⟩ := exists_piece_of_mem_components (List.mem_of_getLast? hlast)
    rw [Component.ofPiece] at hname
    split at hname
    · cases hname
    · cases hname
      exact hslash
  · cases h

/-- A shown name holds no slash. -/
theorem slash_notMem_shownName (p : Path) : '/' ∉ p.shownName := by
  intro hmem
  rw [shownName] at hmem
  cases hname : p.fileName? with
  | none => simp [hname] at hmem
  | some name =>
    rw [hname, Option.getD_some] at hmem
    exact slash_notMem_of_fileName? hname
      (Utf8.mem_of_mem_decodeLossy (by decide) (by decide) hmem)

/-- A directory in front of a name: nothing, or something that ends in a slash. -/
def IsDirectoryText (bytes : List UInt8) : Prop := bytes = [] ∨ bytes.getLast? = some slash

instance (bytes : List UInt8) : Decidable (IsDirectoryText bytes) :=
  inferInstanceAs (Decidable (_ ∨ _))

theorem slash_notMem_of_isNoise {piece : List UInt8} (h : isNoise piece) : slash ∉ piece := by
  simp only [isNoise, Bool.or_eq_true, decide_eq_true_eq] at h
  rcases h with rfl | rfl
  · exact List.not_mem_nil
  · decide

/-- Neither a directory before a name nor slashes and dots behind it change the last name. -/
theorem fileName?_surrounded {directory : List UInt8} {name : Name} {noise : List (List UInt8)}
    (hdirectory : IsDirectoryText directory) (hname : ProperName name)
    (hnoise : ∀ piece ∈ noise, isNoise piece) :
    (⟨directory ++ join name noise⟩ : Path).fileName? = some name := by
  -- No part of it has a slash inside, so splitting gives the name and the noise behind it.
  have hsplit : split (join name noise) = (name, noise) := by
    apply split_join
    intro piece hpiece
    rcases List.mem_cons.1 hpiece with rfl | hpiece
    · exact hname.slash_notMem
    · exact slash_notMem_of_isNoise (hnoise piece hpiece)
  have hfilter : noise.filter (!isNoise ·) = [] := by
    rw [List.filter_eq_nil_iff]
    intro piece hpiece
    simp [hnoise piece hpiece]
  have hcomponent : Component.ofPiece name = .name name := if_neg hname.ne_dots
  rcases hdirectory with rfl | hslash
  -- The name is the first piece.
  · have hrooted : (⟨[] ++ join name noise⟩ : Path).isRooted = false := by
      rw [isRooted, List.nil_append, join, List.head?_append_of_ne_nil _ hname.ne_nil]
      exact isRooted_name hname
    have hfirst : (⟨[] ++ join name noise⟩ : Path).firstComponents = [.name name] := by
      rw [firstComponents, hrooted, firstPiece, List.nil_append, hsplit]
      simp [hname.ne_nil, hname.ne_dot, hcomponent]
    rw [fileName?, components, hfirst, otherPieces, List.nil_append, hsplit, hfilter]
    rfl
  -- The name is a piece behind the slash at the end of the directory.
  · obtain ⟨before, rfl⟩ := List.getLast?_eq_some_iff.1 hslash
    have hpieces : (⟨before ++ [slash] ++ join name noise⟩ : Path).otherPieces =
        (split before).2 ++ name :: noise := by
      rw [otherPieces, List.append_assoc, List.singleton_append, split_append_slash, hsplit]
    rw [fileName?, components, hpieces, List.filter_append, List.filter_cons_of_pos, hfilter]
    · rw [List.map_append, List.map_singleton, ← List.append_assoc, List.getLast?_concat,
        hcomponent]
    · rw [isNoise_eq_false hname]
      rfl

end Path

/-! ## Categories -/

namespace Classifier

/-- The category that a table gives to a name. -/
inductive Gives (classifier : Classifier) : List Char → String → Prop where
  /-- The table decides on a name with an extension. -/
  | extension {name dots stem ext : List Char} : Dotted '.' name dots stem ext →
      Gives classifier name ((classifier.extensions.get? (String.ofList ext)).getD unknown)
  /-- The first special name. -/
  | makefile : Gives classifier "Makefile".toList "Makefile"
  /-- The second special name. -/
  | configure : Gives classifier "configure".toList "Autoconf"
  /-- No other name without an extension says anything. -/
  | other {name : List Char} : (∀ dots stem ext, ¬Dotted '.' name dots stem ext) →
      name ≠ "Makefile".toList → name ≠ "configure".toList → Gives classifier name unknown

/-- There are two names with a category of their own. -/
theorem lookup_specialNames (name : List Char) :
    specialNames.lookup (String.ofList name) =
      if name = "Makefile".toList then some "Makefile"
      else if name = "configure".toList then some "Autoconf" else none := by
  have hofList : ∀ text : String, String.ofList name = text ↔ name = text.toList := by
    intro text
    rw [← String.toList_inj, String.toList_ofList]
  rw [specialNames, SortedMap.lookup_cons_ite, SortedMap.lookup_cons_ite]
  simp only [hofList, List.lookup_nil]

/-- The category of a name is the one that the rules give. -/
theorem classifyName_eq_iff {classifier : Classifier} {name : List Char} {category : String} :
    classifier.classifyName name = category ↔ classifier.Gives name category := by
  constructor
  · rintro rfl
    rw [classifyName]
    -- The rules are tried in the order in which they stand: the extension, then the two special
    -- names.
    cases hext : extension? name with
    | some ext =>
      obtain ⟨dots, stem, hdotted⟩ := extension?_eq_some_iff.1 hext
      exact .extension hdotted
    | none =>
      dsimp only
      rw [lookup_specialNames]
      by_cases hmakefile : name = "Makefile".toList
      · rw [if_pos hmakefile, hmakefile]
        exact .makefile
      by_cases hconfigure : name = "configure".toList
      · rw [if_neg hmakefile, if_pos hconfigure, hconfigure]
        exact .configure
      · rw [if_neg hmakefile, if_neg hconfigure]
        exact .other (extension?_eq_none_iff.1 hext) hmakefile hconfigure
  · intro h
    cases h with
    | extension hdotted => rw [classifyName, hdotted.extension?_eq]
    | makefile => rfl
    | configure => rfl
    -- With no extension and neither special name, nothing is looked up with success.
    | other hnone hmakefile hconfigure =>
      rw [classifyName, extension?_eq_none_iff.2 hnone]
      dsimp only
      rw [lookup_specialNames, if_neg hmakefile, if_neg hconfigure]
      rfl

/-- Without an extension no rule looks at the table. -/
theorem Gives.of_not_dotted {classifier : Classifier} {name : List Char} {category : String}
    (hnone : ∀ dots stem ext, ¬Dotted '.' name dots stem ext) (h : classifier.Gives name category)
    (classifier' : Classifier) : classifier'.Gives name category := by
  cases h with
  | extension hdotted => exact absurd hdotted (hnone _ _ _)
  | makefile => exact .makefile
  | configure => exact .configure
  | other _ hmakefile hconfigure => exact .other hnone hmakefile hconfigure

/-- The special names begin with a letter. -/
theorem gives_unknown {classifier : Classifier} {name : List Char}
    (hnone : ∀ dots stem ext, ¬Dotted '.' name dots stem ext)
    (hhead : name.head? = some '.' ∨ name = []) : classifier.Gives name unknown := by
  apply Gives.other hnone
  · rintro rfl
    exact absurd hhead (by decide)
  · rintro rfl
    exact absurd hhead (by decide)

/-- The category of a file is read off its name. It is what the rules give for the last name of
the path, however the directory in front of it and the end behind it are written. The extension
alone decides on a name that has one; without an extension the table makes no difference, and
neither a special name with a dot in front nor a path that ends in no name has a category. Where the
last name is not UTF-8, cutting its bytes comes to the same as cutting the shown name. -/
theorem classify_lastName (classifier : Classifier) (path : Path) :
    (∀ category, classifier.classify path = category ↔
      classifier.Gives path.shownName category) ∧
    (∀ dots stem ext dots' stem' ext', Dotted '.' path.shownName dots stem ext →
      Dotted '.' path.shownName dots' stem' ext' → dots = dots' ∧ stem = stem' ∧ ext = ext') ∧
    (∀ directory name noise, Path.IsDirectoryText directory → ProperName name →
      (∀ piece ∈ noise, Path.isNoise piece) →
      classifier.classify ⟨directory ++ Path.join name noise⟩ = classifier.classify ⟨name⟩) ∧
    (∀ path' dots stem dots' stem' ext, Dotted '.' path.shownName dots stem ext →
      Dotted '.' path'.shownName dots' stem' ext →
      classifier.classify path = classifier.classify path') ∧
    ((∀ dots stem ext, ¬Dotted '.' path.shownName dots stem ext) →
      (∀ classifier' : Classifier, classifier'.classify path = classifier.classify path) ∧
      (path.shownName.head? = some '.' ∨ path.fileName? = none →
        classifier.classify path = unknown)) ∧
    ∀ bytes, path.fileName? = some bytes → ∀ ext,
      (∃ dots stem, Dotted '.' path.shownName dots stem ext) ↔
        ∃ dots stem raw, Dotted Path.dot bytes dots stem raw ∧ Utf8.decodeLossy raw = ext := by
  -- The category is what the rules give, for every path; the other parts follow from that.
  have hrules : ∀ (classifier : Classifier) (path : Path) (category : String),
      classifier.classify path = category ↔ classifier.Gives path.shownName category :=
    fun _ _ _ => classifyName_eq_iff
  refine ⟨hrules classifier path, fun _ _ _ _ _ _ h h' => h.unique h', ?around, ?stems, ?special,
    ?raw⟩
  case around =>
    intro directory name noise hdirectory hname hnoise
    have halone : (⟨name⟩ : Path).fileName? = some name := by
      rw [Path.fileName?, Path.components_ofName hname]
      rfl
    rw [classify, classify, Path.fileName?_surrounded hdirectory hname hnoise, halone]
  -- The table is asked for the extension only, which the two names have in common.
  case stems =>
    intro path' dots stem dots' stem' ext h h'
    exact ((hrules _ _ _).2 (.extension h)).trans ((hrules _ _ _).2 (.extension h')).symm
  case special =>
    intro hnone
    constructor
    · intro classifier'
      exact (hrules _ _ _).2 (((hrules classifier path _).1 rfl).of_not_dotted hnone classifier')
    · intro h
      apply (hrules _ _ _).2
      apply gives_unknown hnone
      rcases h with hdot | hname
      · exact .inl hdot
      · right
        rw [Path.shownName, hname]
        exact Utf8.decodeLossy_nil
  case raw =>
    intro bytes hbytes ext
    rw [Path.shownName, hbytes]
    exact dotted_decodeLossy_iff

/-- A name with a dot in front, and with a byte before the last dot that begins no character. -/
def mangledName : Name := [0x2E, 0x61, 0xC3, 0x2E, 0x63]

/-- The path of a file of that name. -/
def mangledPath : Path :=
  ⟨Utf8.ofString "x/../" ++ Path.join mangledName [[Path.dot], []]⟩

theorem dotted_mangledPath : Dotted '.' mangledPath.shownName ['.'] ['a', '\uFFFD'] ['c'] where
  eq := by decide +kernel
  dots := by simp
  stem_ne_nil := by decide
  head?_stem := by decide
  notMem_ext := by decide

/-- The extension is found behind the ill-formed byte. The special names have none. -/
theorem classify_lastName_mangled :
    Dotted '.' mangledPath.shownName ['.'] ['a', '\uFFFD'] ['c'] ∧
      builtin.classify mangledPath = "C" ∧
      (Path.IsDirectoryText (Utf8.ofString "x/../") ∧ ProperName mangledName ∧
        (∀ piece ∈ [[Path.dot], []], Path.isNoise piece)) ∧
      builtin.classify mangledPath = builtin.classify ⟨mangledName⟩ ∧
      (∃ dots stem raw, Dotted Path.dot mangledName dots stem raw ∧ Utf8.decodeLossy raw = ['c']) ∧
      (∀ classifier : Classifier, classifier.classify (Path.ofString "src/Makefile") = "Makefile") ∧
      builtin.classify (Path.ofString ".Makefile") = unknown ∧
      builtin.classify (Path.ofString "main.c/..") = unknown := by
  obtain ⟨hrules, -, haround, -, -, hraw⟩ := classify_lastName builtin mangledPath
  obtain ⟨-, -, -, -, hmakefile, -⟩ := classify_lastName builtin (Path.ofString "src/Makefile")
  obtain ⟨-, -, -, -, hhidden, -⟩ := classify_lastName builtin (Path.ofString ".Makefile")
  obtain ⟨-, -, -, -, hup, -⟩ := classify_lastName builtin (Path.ofString "main.c/..")
  have hdirectory : Path.IsDirectoryText (Utf8.ofString "x/../") := by decide
  have hname : ProperName mangledName := by decide
  have hnoise : ∀ piece ∈ [[Path.dot], []], Path.isNoise piece := by decide
  have hbytes : mangledPath.fileName? = some mangledName := by decide
  have htable : (builtin.extensions.get? (String.ofList ['c'])).getD unknown = "C" := by decide
  refine ⟨dotted_mangledPath, (hrules "C").2 (htable ▸ .extension dotted_mangledPath),
    ⟨hdirectory, hname, hnoise⟩, haround _ _ _ hdirectory hname hnoise,
    (hraw _ hbytes ['c']).1 ⟨_, _, dotted_mangledPath⟩, ?makefile, ?hidden, ?up⟩
  case makefile =>
    have hname : (Path.ofString "src/Makefile").shownName = [] ++ "Makefile".toList := by decide +kernel
    intro classifier
    rw [(hmakefile fun _ _ _ => not_dotted hname (by simp) (by simp)).1 classifier]
    decide +kernel
  case hidden =>
    have hname : (Path.ofString ".Makefile").shownName = ['.'] ++ "Makefile".toList := by decide +kernel
    exact (hhidden fun _ _ _ => not_dotted hname (by simp) (by simp)).2 (.inl (by decide +kernel))
  case up =>
    have hname : (Path.ofString "main.c/..").shownName = [] ++ [] := by decide +kernel
    exact (hup fun _ _ _ => not_dotted hname (by simp) (by simp)).2 (.inr (by decide))

end Classifier

end SourceSurvey
