import SourceSurvey.Proofs.Ancestors

/-!
# Paths that are texts

A path is any byte string. One that is a text is cut at its slashes into pieces that are texts, and
put together of such pieces it is a text again (`Path.isText_join`). Nothing is lost then when it is
shown: the directory that an entry is shown in is read back as the path of its directory
(`Path.ofString_parentDisplay_descend_concat`), and has the components of the root and then the
names leading there (`Path.components_parentDisplay_descend_concat`). Slashes and dots at the end of
the root are left out where nothing follows them, and they are no components.
-/

set_option autoImplicit false

namespace SourceSurvey

/-! ## Byte strings that are texts -/

namespace Utf8

/-- Whether bytes are those of a text. -/
def isText (bytes : List UInt8) : Bool := (decode? bytes).isSome

theorem isText_iff {bytes : List UInt8} : isText bytes = true ↔ ∃ text, bytes = encode text := by
  rw [isText, Option.isSome_iff_exists]
  exact exists_congr fun text => decode?_eq_some_iff

@[simp]
theorem isText_ofString (text : String) : isText (ofString text) = true := isText_iff.2 ⟨_, rfl⟩

theorem isText_iff_segments {bytes : List UInt8} :
    isText bytes = true ↔ ∀ part ∈ segments bytes, part.isSome = true := by
  rw [isText, Option.isSome_iff_exists]
  simp only [decode?_eq_some_iff_segments]
  constructor
  · rintro ⟨text, htext⟩ part hpart
    rw [htext] at hpart
    obtain ⟨c, -, rfl⟩ := List.mem_map.1 hpart
    rfl
  -- If every stretch is a character, the lenient reading has replaced nothing.
  · intro hall
    refine ⟨decodeLossy bytes, ?_⟩
    rw [decodeLossy, List.map_map, List.map_congr_left (g := id), List.map_id]
    intro part hpart
    obtain ⟨c, rfl⟩ := Option.isSome_iff_exists.1 (hall part hpart)
    rfl

/-- A byte below 128 cuts a text into two. -/
theorem isText_append_cons {b : UInt8} (hb : b.toNat < 128) (bytes more : List UInt8) :
    isText (bytes ++ b :: more) = true ↔ isText bytes = true ∧ isText more = true := by
  simp only [isText_iff_segments, segments_append hb, segments_cons, segment_of_lt hb,
    List.forall_mem_append, List.forall_mem_cons, Option.isSome_some, true_and]

/-- A text is written again as the bytes that it was read from. -/
theorem encode_decodeLossy {bytes : List UInt8} (h : isText bytes = true) :
    encode (decodeLossy bytes) = bytes := by
  obtain ⟨text, rfl⟩ := isText_iff.1 h
  rw [decodeLossy_of_decode? (decode?_encode text)]

theorem ofString_toStringLossy {bytes : List UInt8} (h : isText bytes = true) :
    ofString (toStringLossy bytes) = bytes := by
  rw [ofString, toStringLossy, String.toList_ofList, encode_decodeLossy h]

end Utf8

/-! ## Paths that are texts -/

namespace Path

section Texts

variable {p : Path} {pieces above : List Name} {name : Name}

/-- A path is a text when its pieces are. -/
theorem isText_join {first : List UInt8} {others : List (List UInt8)} :
    Utf8.isText (join first others) = true ↔ ∀ piece ∈ first :: others, Utf8.isText piece = true := by
  induction others generalizing first with
  | nil => simp [join]
  | cons piece others ih =>
    simp only [join_cons, Utf8.isText_append_cons (b := slash) (by decide), ih,
      List.forall_mem_cons]

/-- A place is text exactly if its names are. -/
theorem isText_ofPlace {place : List Name} :
    Utf8.isText (ofPlace place).bytes = true ↔ ∀ name ∈ place, Utf8.isText name = true := by
  cases place with
  | nil => simp [ofPlace, Utf8.isText_iff_segments]
  | cons name place => exact isText_join

theorem isText_pieces (hp : Utf8.isText p.bytes = true) :
    ∀ piece ∈ p.firstPiece :: p.innerPieces, Utf8.isText piece = true := by
  rw [← join_split p.bytes, isText_join, List.forall_mem_cons] at hp
  refine List.forall_mem_cons.2 ⟨hp.1, fun piece hpiece => hp.2 piece ?_⟩
  have hothers := otherPieces_eq p
  rw [otherPieces] at hothers
  rw [hothers]
  exact List.mem_append_left _ hpiece

/-- The path of a directory is a text when the root and the names on the way are. -/
theorem isText_withPieces (hp : Utf8.isText p.bytes = true)
    (h : ∀ piece ∈ pieces, Utf8.isText piece = true) :
    Utf8.isText (p.withPieces pieces).bytes = true := by
  have hfirst := isText_pieces hp p.firstPiece List.mem_cons_self
  by_cases hnil : trimNoise pieces = []
  · rw [withPieces, hnil]
    dsimp only
    split
    · exact Utf8.isText_iff.2 ⟨['/'], rfl⟩
    · exact hfirst
  · rw [withPieces_eq_join hnil, isText_join]
    refine List.forall_mem_cons.2 ⟨hfirst, fun piece hpiece => h piece ?_⟩
    exact (isPrefix_trimNoise pieces).mem hpiece

theorem isText_descend (hp : Utf8.isText p.bytes = true) (hne : p.bytes ≠ [])
    (h : ∀ x ∈ above, ProperName x) (htexts : ∀ x ∈ above, Utf8.isText x = true) :
    Utf8.isText (p.descend above).bytes = true := by
  by_cases habove : above = []
  · rw [habove]
    exact hp
  · rw [bytes_descend hne h habove, isText_join, List.forall_mem_cons, List.forall_mem_append]
    obtain ⟨hfirst, hinner⟩ := List.forall_mem_cons.1 (isText_pieces hp)
    exact ⟨hfirst, hinner, htexts⟩

/-- A path that is text can be read back from what is shown of it. -/
theorem ofString_display (h : Utf8.isText p.bytes = true) : ofString p.display = p :=
  congrArg Path.mk (Utf8.ofString_toStringLossy h)

/-- The directory that a file is shown in is read back as the path of its directory. -/
theorem ofString_parentDisplay_descend_concat (hp : Utf8.isText p.bytes = true)
    (hne : p.bytes ≠ []) (h : ∀ x ∈ above ++ [name], ProperName x)
    (htexts : ∀ x ∈ above, Utf8.isText x = true) :
    ofString (p.descend (above ++ [name])).parentDisplay =
      if above = [] then p.trimRight else p.descend above := by
  have habove : ∀ x ∈ above, ProperName x := fun x hx => h x (List.mem_append_left _ hx)
  rw [parentDisplay, parent?_descend_concat hne h]
  dsimp only
  split
  · rw [if_neg (trimRight_bytes_ne_nil hne), ofString_display]
    rw [trimRight_eq_withPieces]
    exact isText_withPieces hp fun piece hpiece =>
      isText_pieces hp piece (List.mem_cons_of_mem _ hpiece)
  · rw [if_neg (descend_bytes_ne_nil hne habove), ofString_display]
    exact isText_descend hp hne habove htexts

/-- The slashes and dots at the end of a path are no components. -/
theorem components_trimRight (hne : p.bytes ≠ []) : p.trimRight.components = p.components := by
  have hslash : ∀ piece ∈ p.innerPieces, slash ∉ piece := by
    intro piece hpiece
    refine slash_notMem_of_mem_otherPieces (p := p) ?_
    rw [otherPieces_eq]
    exact List.mem_append_left _ hpiece
  obtain ⟨htrim, others, hsplit, hothers⟩ := split_withPieces hne hslash
  rw [trimRight_eq_withPieces, components_of_split hne htrim hsplit, hothers, ← components_eq]

/-- Read as a path, the directory that a file is shown in has the components of the root and then
the names leading to the directory. -/
theorem components_parentDisplay_descend_concat (hp : Utf8.isText p.bytes = true)
    (hne : p.bytes ≠ []) (h : ∀ x ∈ above ++ [name], ProperName x)
    (htexts : ∀ x ∈ above, Utf8.isText x = true) :
    (ofString (p.descend (above ++ [name])).parentDisplay).components =
      p.components ++ above.map .name := by
  have habove : ∀ x ∈ above, ProperName x := fun x hx => h x (List.mem_append_left _ hx)
  rw [ofString_parentDisplay_descend_concat hp hne h htexts, ← map_ofPiece habove]
  -- In the root itself the shown directory is the root without the noise at its end.
  split
  · rename_i hempty
    rw [components_trimRight hne, hempty, List.map_nil, List.append_nil]
  · exact components_descend hne habove

end Texts

end Path

end SourceSurvey
