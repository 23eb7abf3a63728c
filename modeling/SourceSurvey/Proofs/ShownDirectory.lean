import SourceSurvey.Proofs.Path
import SourceSurvey.Proofs.Text.Utf8

/-!
# The directory that an entry is shown in

The parent of an entry is the path of its directory, or, for an entry of the root itself, the root
without the slashes and dots at its end (`parent?_descend_concat`). It is shown as a text in which
ill-formed bytes are replaced, so two directories can be shown alike; but this depends on their
names only and not on how the root is written (`parentDisplay_descend_eq_iff`): the shown text of
the root stands in front of all of them.
-/

set_option autoImplicit false

namespace SourceSurvey.Path

/-! ## Parents -/

section Parents

variable {p : Path} {pieces above : List Name} {name : Name}

theorem trimNoise_concat (hname : ProperName name) :
    trimNoise (pieces ++ [name]) = pieces ++ [name] := by
  rw [trimNoise, List.reverse_append, List.reverse_singleton, List.singleton_append,
    List.dropWhile_cons_of_neg (by simp [isNoise_eq_false hname]), List.reverse_cons,
    List.reverse_reverse]

/-- The empty piece behind a slash at the end is noise. -/
theorem trimNoise_otherPieces (p : Path) : trimNoise p.otherPieces = trimNoise p.innerPieces := by
  rw [otherPieces_eq]
  split
  · rw [trimNoise, List.reverse_append, List.reverse_singleton, List.singleton_append,
      List.dropWhile_cons_of_pos (by decide)]
    rfl
  · rw [List.append_nil]

/-- The path with other pieces behind its first one, without the slashes and dots at its end. -/
def withPieces (p : Path) (pieces : List (List UInt8)) : Path :=
  match trimNoise pieces with
  | [] => if p.isRooted then ⟨[slash]⟩ else ⟨p.firstPiece⟩
  | kept => ⟨join p.firstPiece kept⟩

theorem withPieces_eq_join (h : trimNoise pieces ≠ []) :
    p.withPieces pieces = ⟨join p.firstPiece (trimNoise pieces)⟩ := by
  rw [withPieces]
  split
  · rename_i hnil
    exact absurd hnil h
  · rfl

theorem trimRight_eq_withPieces (p : Path) : p.trimRight = p.withPieces p.innerPieces := by
  rw [trimRight, trimNoise_otherPieces]
  rfl

/-- The parent has the pieces in front of the last name. -/
theorem parent?_of_trimNoise (h : trimNoise p.otherPieces = pieces ++ [name]) :
    p.parent? = some (p.withPieces pieces) := by
  obtain ⟨piece, rest, hcons⟩ :=
    List.exists_cons_of_ne_nil (List.append_ne_nil_of_right_ne_nil pieces (List.cons_ne_nil name []))
  rw [parent?, parentBytes?, h, hcons]
  dsimp only
  rw [← hcons, List.dropLast_concat, withPieces]
  cases trimNoise pieces with
  | nil =>
    dsimp only
    split <;> rfl
  | cons kept more => rfl

/-- The parent of an entry is its directory. -/
theorem parent?_descend_concat (hp : p.bytes ≠ [])
    (h : ∀ x ∈ above ++ [name], ProperName x) :
    (p.descend (above ++ [name])).parent? =
      some (if above = [] then p.trimRight else p.descend above) := by
  have hpieces : trimNoise (p.descend (above ++ [name])).otherPieces
      = (p.innerPieces ++ above) ++ [name] := by
    rw [otherPieces_descend hp h (by simp), ← List.append_assoc, trimNoise_concat (h name (by simp))]
  have hsame : (p.descend (above ++ [name])).withPieces (p.innerPieces ++ above)
      = p.withPieces (p.innerPieces ++ above) := by
    rw [withPieces, withPieces, isRooted_descend hp h, firstPiece_descend hp h]
  rw [parent?_of_trimNoise hpieces, hsame]
  -- In the root itself what is left are its own pieces; below it the last directory name ends them.
  rcases List.eq_nil_or_concat above with rfl | ⟨more, last, rfl⟩
  · rw [if_pos rfl, List.append_nil, trimRight_eq_withPieces]
  · rw [List.concat_eq_append] at h ⊢
    have habove : ∀ x ∈ more ++ [last], ProperName x := fun x hx => h x (List.mem_append_left _ hx)
    have hkept : trimNoise (p.innerPieces ++ (more ++ [last])) = p.innerPieces ++ (more ++ [last]) := by
      rw [← List.append_assoc, trimNoise_concat (habove last (by simp))]
    rw [if_neg (by simp), withPieces_eq_join (by rw [hkept]; simp), hkept,
      ← bytes_descend hp habove (by simp)]

end Parents

/-! ## Shown texts -/

section Shown

theorem join_cons (first piece : List UInt8) (others : List (List UInt8)) :
    join first (piece :: others) = first ++ slash :: join piece others := by
  simp [join]

/-- A path is shown piece by piece. -/
theorem decodeLossy_join (first : List UInt8) (others : List (List UInt8)) :
    Utf8.decodeLossy (join first others) =
      Utf8.decodeLossy first ++ others.flatMap fun piece => '/' :: Utf8.decodeLossy piece := by
  induction others generalizing first with
  | nil => simp [join]
  | cons piece others ih =>
    have hslash : Char.ofNat slash.toNat = '/' := by decide
    rw [join_cons, Utf8.decodeLossy_append (by decide), ih, hslash, List.flatMap_cons]
    rfl

theorem slash_notMem_decodeLossy {name : Name} (h : ProperName name) :
    '/' ∉ Utf8.decodeLossy name :=
  fun hmem => h.slash_notMem (Utf8.mem_of_mem_decodeLossy (by decide) (by decide) hmem)

/-- Texts without a slash can be told apart behind slashes. -/
theorem eq_of_flatMap_slash_eq {texts texts' : List (List Char)} (h : ∀ text ∈ texts, '/' ∉ text)
    (h' : ∀ text ∈ texts', '/' ∉ text)
    (heq : texts.flatMap ('/' :: ·) = texts'.flatMap ('/' :: ·)) : texts = texts' := by
  -- A text ends at the first slash behind it.
  have htake : ∀ (text : List Char) (more : List (List Char)), '/' ∉ text →
      (text ++ more.flatMap ('/' :: ·)).takeWhile (· ≠ '/') = text := by
    intro text more htext
    have hmore : (more.flatMap ('/' :: ·)).takeWhile (· ≠ '/') = [] := by
      cases more <;> simp
    rw [List.takeWhile_append_of_pos, hmore, List.append_nil]
    intro c hc
    refine decide_eq_true ?_
    rintro rfl
    exact htext hc
  induction texts generalizing texts' with
  | nil =>
    cases texts' with
    | nil => rfl
    | cons text' texts' => simp at heq
  | cons text texts ih =>
    cases texts' with
    | nil => simp at heq
    | cons text' texts' =>
      obtain ⟨htext, htexts⟩ := List.forall_mem_cons.1 h
      obtain ⟨htext', htexts'⟩ := List.forall_mem_cons.1 h'
      rw [List.flatMap_cons, List.flatMap_cons, List.cons_append, List.cons_append,
        List.cons_inj_right] at heq
      have hfirst := congrArg (List.takeWhile (· ≠ '/')) heq
      rw [htake text texts htext, htake text' texts' htext'] at hfirst
      rw [hfirst, List.append_cancel_left_eq] at heq
      rw [hfirst, ih htexts htexts' heq]

end Shown

section Directories

variable {p : Path} {above above' : List Name} {name name' : Name}

/-- The path as it is shown in front of its entries. -/
def shownRoot (p : Path) : List Char := Utf8.decodeLossy (join p.firstPiece p.innerPieces)

/-- What is shown of a place below a directory is the directory and then the shown names. -/
theorem decodeLossy_descend (hp : p.bytes ≠ []) (h : ∀ x ∈ above, ProperName x) (hne : above ≠ []) :
    Utf8.decodeLossy (p.descend above).bytes =
      p.shownRoot ++ (above.map Utf8.decodeLossy).flatMap ('/' :: ·) := by
  rw [bytes_descend hp h hne, shownRoot, decodeLossy_join, decodeLossy_join, List.flatMap_append,
    List.append_assoc, List.flatMap_map]

/-- The root itself is shown as a text that is not longer, but for a slash at the beginning. -/
theorem length_decodeLossy_trimRight_le (p : Path) :
    (Utf8.decodeLossy p.trimRight.bytes).length ≤ p.shownRoot.length + 1 := by
  have hslash : (Utf8.decodeLossy [slash]).length = 1 := by
    have hempty : Utf8.decodeLossy [] = [] := by simp [Utf8.decodeLossy]
    have hcut : Utf8.decodeLossy [slash] = _ := decodeLossy_join [] [[]]
    rw [hcut]
    simp [hempty]
  rw [trimRight_eq_withPieces, shownRoot, decodeLossy_join]
  -- Trimming drops pieces, so the text is not longer; with no piece left it is a slash or the first
  -- piece.
  by_cases hnil : trimNoise p.innerPieces = []
  · rw [withPieces, hnil]
    dsimp only
    split
    · rw [hslash]
      omega
    · rw [List.length_append]
      show (Utf8.decodeLossy p.firstPiece).length ≤ _
      omega
  · rw [withPieces_eq_join hnil, decodeLossy_join]
    obtain ⟨noise, hnoise⟩ := isPrefix_trimNoise p.innerPieces
    have hlength := congrArg (fun pieces =>
      (pieces.flatMap fun piece => '/' :: Utf8.decodeLossy piece).length) hnoise
    simp only [List.flatMap_append, List.length_append] at hlength
    rw [List.length_append, List.length_append]
    omega

theorem trimRight_bytes_ne_nil (hp : p.bytes ≠ []) : p.trimRight.bytes ≠ [] := by
  rw [trimRight_eq_withPieces]
  by_cases hnil : trimNoise p.innerPieces = []
  · rw [withPieces, hnil]
    dsimp only
    split
    · exact List.cons_ne_nil _ _
    · rename_i hrooted
      exact firstPiece_ne_nil hp (by simpa using hrooted)
  · rw [withPieces_eq_join hnil]
    obtain ⟨piece, pieces, hcons⟩ := List.exists_cons_of_ne_nil hnil
    rw [hcons]
    simp [join]

/-- The text that the directory of an entry is shown as. -/
theorem parentDisplay_descend_concat (hp : p.bytes ≠ [])
    (h : ∀ x ∈ above ++ [name], ProperName x) :
    (p.descend (above ++ [name])).parentDisplay =
      String.ofList (if above = [] then Utf8.decodeLossy p.trimRight.bytes
        else p.shownRoot ++ (above.map Utf8.decodeLossy).flatMap ('/' :: ·)) := by
  have habove : ∀ x ∈ above, ProperName x := fun x hx => h x (List.mem_append_left _ hx)
  rw [parentDisplay, parent?_descend_concat hp h]
  dsimp only
  by_cases hempty : above = []
  · rw [if_pos hempty, if_pos hempty, if_neg (trimRight_bytes_ne_nil hp)]
    rfl
  · rw [if_neg hempty, if_neg hempty, if_neg (descend_bytes_ne_nil hp habove),
      ← decodeLossy_descend hp habove hempty]
    rfl

/-- Of two texts that an entry can be shown in, that of the root is the shorter one. -/
theorem shown_ne_of_ne_nil (p : Path) (h : ∀ x ∈ above, ProperName x) (hne : above ≠ []) :
    Utf8.decodeLossy p.trimRight.bytes ≠
      p.shownRoot ++ (above.map Utf8.decodeLossy).flatMap ('/' :: ·) := by
  intro heq
  have hlength := congrArg List.length heq
  have hle := length_decodeLossy_trimRight_le p
  obtain ⟨first, more, rfl⟩ := List.exists_cons_of_ne_nil hne
  have hfirst := List.length_pos_iff.2
    (Utf8.decodeLossy_ne_nil (h first List.mem_cons_self).ne_nil)
  rw [List.length_append, List.map_cons, List.flatMap_cons, List.length_append,
    List.length_cons] at hlength
  omega

/-- Entries are shown in one directory when the names of their directories are shown alike. How
the root is written makes no difference. -/
theorem parentDisplay_descend_eq_iff (hp : p.bytes ≠ [])
    (h : ∀ x ∈ above ++ [name], ProperName x) (h' : ∀ x ∈ above' ++ [name'], ProperName x) :
    (p.descend (above ++ [name])).parentDisplay = (p.descend (above' ++ [name'])).parentDisplay ↔
      above.map Utf8.decodeLossy = above'.map Utf8.decodeLossy := by
  have hproper : ∀ x ∈ above, ProperName x := fun x hx => h x (List.mem_append_left _ hx)
  have hproper' : ∀ x ∈ above', ProperName x := fun x hx => h' x (List.mem_append_left _ hx)
  have hnoSlash : ∀ {names : List Name}, (∀ x ∈ names, ProperName x) →
      ∀ text ∈ names.map Utf8.decodeLossy, '/' ∉ text := by
    intro names hnames text htext
    obtain ⟨x, hx, rfl⟩ := List.mem_map.1 htext
    exact slash_notMem_decodeLossy (hnames x hx)
  rw [parentDisplay_descend_concat hp h, parentDisplay_descend_concat hp h', String.ofList_inj]
  -- Either both lie in the root, or neither does; an entry of the root is never shown as one below
  -- it.
  by_cases hempty : above = []
  · by_cases hempty' : above' = []
    · simp [hempty, hempty']
    · rw [if_pos hempty, if_neg hempty', hempty]
      exact iff_of_false (shown_ne_of_ne_nil p hproper' hempty') (by simp [eq_comm, hempty'])
  · by_cases hempty' : above' = []
    · rw [if_neg hempty, if_pos hempty', hempty']
      exact iff_of_false (shown_ne_of_ne_nil p hproper hempty).symm (by simp [hempty])
    · rw [if_neg hempty, if_neg hempty', List.append_cancel_left_eq]
      constructor
      · exact eq_of_flatMap_slash_eq (hnoSlash hproper) (hnoSlash hproper')
      · intro heq
        rw [heq]

end Directories

end SourceSurvey.Path
