import Mathlib.Data.List.Basic
import Mathlib.Data.Nat.Basic
import SourceSurvey.Text.Utf8

/-!
# The strict reading undoes writing

A byte string is UTF-8 exactly if it is the bytes of a text, and then of one text only
(`decode?_eq_some_iff`). The lead bytes fall into four classes by the number of bytes that follow
(`Lead.IsLead`); a byte that follows adds six bits (`continuation_cons`), and one that does not fit
ends the reading (`exists_of_continuation`).

A byte below 128 stands by itself whatever is around it, so the lenient reading, too, can be cut
there (`decodeLossy_append`).
-/

set_option autoImplicit false

namespace SourceSurvey.Utf8

/-! ## Lead bytes -/

/-- `IsLead lead b`: the byte `b` announces `lead`, said by the number of bytes that follow and by
the bits of the lead byte. -/
inductive Lead.IsLead : Lead → UInt8 → Prop where
  | one {n : Nat} : n < 128 → IsLead ⟨0, 0x80, 0xBF, n⟩ (.ofNat n)
  | two {n : Nat} : 2 ≤ n → n < 32 → IsLead ⟨1, 0x80, 0xBF, n⟩ (.ofNat (n + 192))
  | three {n : Nat} : n < 16 → IsLead
      ⟨2, if n = 0 then 0xA0 else 0x80, if n = 13 then 0x9F else 0xBF, n⟩ (.ofNat (n + 224))
  | four {n : Nat} : n < 5 → IsLead
      ⟨3, if n = 0 then 0x90 else 0x80, if n = 4 then 0x8F else 0xBF, n⟩ (.ofNat (n + 240))

/-- Each lead byte of the table is recognised. The cases are the rows of the table. -/
theorem Lead.IsLead.ofByte?_eq {lead : Lead} {b : UInt8} (h : lead.IsLead b) :
    Lead.ofByte? b = some lead := by
  cases h with
  | @one n hn => revert n; decide
  | @two n hlow hhigh => revert n; decide
  | @three n hn => revert n; decide
  | @four n hn => revert n; decide

/-- Whatever the lead byte, the first byte after it lies in the range of all of them. -/
theorem Lead.IsLead.bounds {lead : Lead} {b : UInt8} (h : lead.IsLead b) :
    0x80 ≤ lead.low.toNat ∧ lead.high.toNat ≤ 0xBF := by
  cases h with
  | one hn => simp
  | two hlow hhigh => simp
  | @three n hn => revert n; decide
  | @four n hn => revert n; decide

/-- A byte as a number with an offset taken away. -/
theorem ofNat_sub_add {b : UInt8} {k : Nat} (h : k ≤ b.toNat) : UInt8.ofNat (b.toNat - k + k) = b := by
  rw [Nat.sub_add_cancel h, UInt8.ofNat_toNat]

/-- Only the lead bytes of the table are recognised. -/
theorem Lead.isLead_of_ofByte? {lead : Lead} {b : UInt8} (h : Lead.ofByte? b = some lead) :
    lead.IsLead b := by
  have hb := b.toNat_lt
  -- The ranges of the lead bytes are gone through in the order of the definition; the ones for
  -- three and four bytes are split where the first byte after them has bounds of its own.
  unfold Lead.ofByte? at h
  simp only [UInt8.lt_iff_toNat_lt, ← UInt8.toNat_inj, UInt8.reduceToNat] at h
  split at h
  · cases h
    have hlead := IsLead.one (n := b.toNat) (by omega)
    rwa [UInt8.ofNat_toNat] at hlead
  split at h
  · cases h
  split at h
  · cases h
    have hlead := IsLead.two (n := b.toNat - 192) (by omega) (by omega)
    rwa [ofNat_sub_add (by omega)] at hlead
  split at h
  · cases h
    have hlead := IsLead.three (n := b.toNat - 224) (by omega)
    rw [ofNat_sub_add (by omega)] at hlead
    simpa [*] using hlead
  split at h
  · cases h
    have hlead := IsLead.three (n := b.toNat - 224) (by omega)
    rw [ofNat_sub_add (by omega)] at hlead
    simpa [*] using hlead
  split at h
  · cases h
    have hlead := IsLead.three (n := b.toNat - 224) (by omega)
    rwa [ofNat_sub_add (by omega), if_neg (by omega), if_neg (by omega)] at hlead
  split at h
  · cases h
    have hlead := IsLead.four (n := b.toNat - 240) (by omega)
    rw [ofNat_sub_add (by omega)] at hlead
    simpa [*] using hlead
  split at h
  · cases h
    have hlead := IsLead.four (n := b.toNat - 240) (by omega)
    rwa [ofNat_sub_add (by omega), if_neg (by omega), if_neg (by omega)] at hlead
  split at h
  · cases h
    have hlead := IsLead.four (n := b.toNat - 240) (by omega)
    rw [ofNat_sub_add (by omega)] at hlead
    simpa [*] using hlead
  · cases h

/-! ## Bytes that follow -/

section Continuation

variable {following bits : Nat} {low high : UInt8}

/-- A byte that follows adds six bits. -/
theorem continuation_cons {m : Nat} {rest : List UInt8} (hm : m < 64)
    (hlow : low.toNat ≤ m + 128) (hhigh : m + 128 ≤ high.toNat) :
    continuation (following + 1) low high bits (.ofNat (m + 128) :: rest) =
      continuation following 0x80 0xBF (bits * 64 + m) rest := by
  have hb : (UInt8.ofNat (m + 128)).toNat = m + 128 := by
    rw [UInt8.toNat_ofNat']
    omega
  have hfits : (decide (low ≤ .ofNat (m + 128)) && decide (.ofNat (m + 128) ≤ high)) = true := by
    simp only [UInt8.le_iff_toNat_le, hb, Bool.and_eq_true, decide_eq_true_eq]
    exact ⟨hlow, hhigh⟩
  rw [continuation, if_pos hfits, hb, Nat.add_sub_cancel]

/-- Where a byte has to follow, one did. -/
theorem exists_of_continuation {v : Nat} {bytes after : List UInt8}
    (hlow : 0x80 ≤ low.toNat) (hhigh : high.toNat ≤ 0xBF)
    (h : continuation (following + 1) low high bits bytes = (some v, after)) :
    ∃ m rest, bytes = .ofNat (m + 128) :: rest ∧ m < 64 ∧ low.toNat ≤ m + 128 ∧
      m + 128 ≤ high.toNat ∧
      continuation following 0x80 0xBF (bits * 64 + m) rest = (some v, after) := by
  cases bytes with
  | nil => cases h
  | cons b rest =>
    rw [continuation] at h
    split at h
    · rename_i hfits
      simp only [UInt8.le_iff_toNat_le, Bool.and_eq_true, decide_eq_true_eq] at hfits
      refine ⟨b.toNat - 128, rest, ?_, by omega, by omega, by omega, h⟩
      rw [ofNat_sub_add (by omega)]
    · cases h

end Continuation

/-! ## Characters -/

/-- The number of a character is a code point that is no surrogate. -/
theorem isValidChar_toNat (c : Char) : c.val.toNat.isValidChar := c.valid

/-- The number of a character is not beyond the last code point. -/
theorem val_toNat_lt (c : Char) : c.val.toNat < 0x110000 := by
  rcases isValidChar_toNat c with h | h <;> omega

theorem ofNat_val_toNat (c : Char) : Char.ofNat c.val.toNat = c := Char.ofNat_toNat c

/-- The bytes of a character are read as that character. -/
theorem segment_encodeChar (c : Char) (rest : List UInt8) :
    ∃ b tail, String.utf8EncodeChar c = b :: tail ∧ segment b (tail ++ rest) = (some c, rest) := by
  have hvalid : c.val.toNat < 0xD800 ∨ 0xDFFF < c.val.toNat ∧ c.val.toNat < 0x110000 :=
    isValidChar_toNat c
  have hchar := ofNat_val_toNat c
  rw [String.utf8EncodeChar.eq_def]
  dsimp only
  -- Only the number of the character counts from here on, with what its validity says.
  generalize c.val.toNat = v at hvalid hchar
  -- The number is cut into the bits of the lead byte and six bits for each byte that follows;
  -- reading puts them together again.
  split
  · refine ⟨_, _, rfl, ?_⟩
    have hlead := (Lead.IsLead.one (n := v) (by omega)).ofByte?_eq
    simp only [segment, hlead, List.nil_append, continuation, Option.map_some, hchar]
  split
  · refine ⟨_, _, rfl, ?_⟩
    have hlead := (Lead.IsLead.two (n := v / 64 % 32) (by omega) (by omega)).ofByte?_eq
    have hv : v / 64 % 32 * 64 + v % 64 = v := by omega
    simp only [segment, hlead, List.cons_append, List.nil_append]
    rw [continuation_cons (by omega) (by simp) (by simp; omega), hv]
    simp only [continuation, Option.map_some, hchar]
  split
  · refine ⟨_, _, rfl, ?_⟩
    have hlead := (Lead.IsLead.three (n := v / 4096 % 16) (by omega)).ofByte?_eq
    have hv : (v / 4096 % 16 * 64 + v / 64 % 64) * 64 + v % 64 = v := by omega
    simp only [segment, hlead, List.cons_append, List.nil_append]
    rw [continuation_cons (by omega) (by split <;> simp; omega) (by split <;> simp <;> omega),
      continuation_cons (by omega) (by simp) (by simp; omega), hv]
    simp only [continuation, Option.map_some, hchar]
  -- Four bytes are left for the numbers above 0xFFFF.
  · refine ⟨_, _, rfl, ?_⟩
    have hlead := (Lead.IsLead.four (n := v / 262144 % 8) (by omega)).ofByte?_eq
    have hv : ((v / 262144 % 8 * 64 + v / 4096 % 64) * 64 + v / 64 % 64) * 64 + v % 64 = v := by
      omega
    simp only [segment, hlead, List.cons_append, List.nil_append]
    rw [continuation_cons (by omega) (by split <;> simp; omega) (by split <;> simp <;> omega),
      continuation_cons (by omega) (by simp) (by simp; omega),
      continuation_cons (by omega) (by simp) (by simp; omega), hv]
    simp only [continuation, Option.map_some, hchar]

section Numbers

variable {n m k l : Nat}

/-- The character of a code point has that number. -/
theorem val_toNat_ofNat {v : Nat} (h : v.isValidChar) : (Char.ofNat v).val.toNat = v := by
  rw [Char.ofNat, dif_pos h]
  rfl

/-- One byte is for the numbers of seven bits. -/
theorem encodeChar_one (hn : n < 128) : String.utf8EncodeChar (Char.ofNat n) = [.ofNat n] := by
  have hvalid : n.isValidChar := .inl (by omega)
  rw [String.utf8EncodeChar.eq_def, val_toNat_ofNat hvalid]
  exact if_pos (by omega)

/-- Two bytes are for the numbers that need them. -/
theorem encodeChar_two (hlow : 2 ≤ n) (hhigh : n < 32) (hm : m < 64) :
    String.utf8EncodeChar (Char.ofNat (n * 64 + m)) = [.ofNat (n + 192), .ofNat (m + 128)] := by
  have hvalid : (n * 64 + m).isValidChar := .inl (by omega)
  have hn : (n * 64 + m) / 64 % 32 = n := by omega
  have hm : (n * 64 + m) % 64 = m := by omega
  rw [String.utf8EncodeChar.eq_def, val_toNat_ofNat hvalid]
  dsimp only
  rw [if_neg (by omega), if_pos (by omega), hn, hm]

/-- Three bytes are for the numbers that need them, without the surrogates. -/
theorem encodeChar_three (hn : n < 16) (hm : m < 64) (hk : k < 64) (hshort : n = 0 → 32 ≤ m)
    (hsurrogate : n = 13 → m < 32) :
    String.utf8EncodeChar (Char.ofNat ((n * 64 + m) * 64 + k)) =
      [.ofNat (n + 224), .ofNat (m + 128), .ofNat (k + 128)] := by
  have hvalid : ((n * 64 + m) * 64 + k).isValidChar := by
    unfold Nat.isValidChar
    omega
  have hn : ((n * 64 + m) * 64 + k) / 4096 % 16 = n := by omega
  have hm : ((n * 64 + m) * 64 + k) / 64 % 64 = m := by omega
  have hk : ((n * 64 + m) * 64 + k) % 64 = k := by omega
  rw [String.utf8EncodeChar.eq_def, val_toNat_ofNat hvalid]
  dsimp only
  rw [if_neg (by omega), if_neg (by omega), if_pos (by omega), hn, hm, hk]

/-- Four bytes are for the numbers that need them, up to the last code point. -/
theorem encodeChar_four (hn : n < 5) (hm : m < 64) (hk : k < 64) (hl : l < 64)
    (hshort : n = 0 → 16 ≤ m) (hlast : n = 4 → m < 16) :
    String.utf8EncodeChar (Char.ofNat (((n * 64 + m) * 64 + k) * 64 + l)) =
      [.ofNat (n + 240), .ofNat (m + 128), .ofNat (k + 128), .ofNat (l + 128)] := by
  have hvalid : (((n * 64 + m) * 64 + k) * 64 + l).isValidChar := by
    unfold Nat.isValidChar
    omega
  have hn : (((n * 64 + m) * 64 + k) * 64 + l) / 262144 % 8 = n := by omega
  have hm : (((n * 64 + m) * 64 + k) * 64 + l) / 4096 % 64 = m := by omega
  have hk : (((n * 64 + m) * 64 + k) * 64 + l) / 64 % 64 = k := by omega
  have hl : (((n * 64 + m) * 64 + k) * 64 + l) % 64 = l := by omega
  rw [String.utf8EncodeChar.eq_def, val_toNat_ofNat hvalid]
  dsimp only
  rw [if_neg (by omega), if_neg (by omega), if_neg (by omega), hn, hm, hk, hl]

end Numbers

/-- What is read as a character is the bytes of that character. -/
theorem encodeChar_of_segment {b : UInt8} {c : Char} {rest after : List UInt8}
    (h : segment b rest = (some c, after)) : b :: rest = String.utf8EncodeChar c ++ after := by
  unfold segment at h
  split at h
  · cases h
  rename_i lead hlead
  generalize hcontinuation : continuation lead.following lead.low lead.high lead.bits rest = read
    at h
  obtain ⟨number?, after'⟩ := read
  simp only [Prod.mk.injEq, Option.map_eq_some_iff] at h
  obtain ⟨⟨v, rfl, rfl⟩, rfl⟩ := h
  have hisLead := Lead.isLead_of_ofByte? hlead
  obtain ⟨hlowest, hhighest⟩ := hisLead.bounds
  -- How many bytes follow is known from the lead byte; each of them adds its six bits to the
  -- number.
  cases hisLead with
  | one hn =>
    cases hcontinuation
    rw [encodeChar_one hn]
    rfl
  | two hlow hhigh =>
    obtain ⟨m, rest, rfl, hm, -, -, hcontinuation⟩ :=
      exists_of_continuation hlowest hhighest hcontinuation
    cases hcontinuation
    rw [encodeChar_two hlow hhigh hm]
    rfl
  | three hn =>
    obtain ⟨m, rest, rfl, hm, hlow, hhigh, hcontinuation⟩ :=
      exists_of_continuation hlowest hhighest hcontinuation
    obtain ⟨k, rest, rfl, hk, -, -, hcontinuation⟩ :=
      exists_of_continuation (by simp) (by simp) hcontinuation
    cases hcontinuation
    rw [encodeChar_three hn hm hk]
    · rfl
    -- The first byte after the lead byte rules out the overlong forms.
    · rintro rfl
      have : 160 ≤ m + 128 := hlow
      omega
    · rintro rfl
      have : m + 128 ≤ 159 := hhigh
      omega
  | four hn =>
    obtain ⟨m, rest, rfl, hm, hlow, hhigh, hcontinuation⟩ :=
      exists_of_continuation hlowest hhighest hcontinuation
    obtain ⟨k, rest, rfl, hk, -, -, hcontinuation⟩ :=
      exists_of_continuation (by simp) (by simp) hcontinuation
    obtain ⟨l, rest, rfl, hl, -, -, hcontinuation⟩ :=
      exists_of_continuation (by simp) (by simp) hcontinuation
    cases hcontinuation
    rw [encodeChar_four hn hm hk hl]
    · rfl
    -- So it does here, and it rules out what lies beyond the last code point.
    · rintro rfl
      have : 144 ≤ m + 128 := hlow
      omega
    · rintro rfl
      have : m + 128 ≤ 143 := hhigh
      omega

/-! ## Texts -/

@[simp]
theorem segments_nil : segments [] = [] := by rw [segments]

theorem segments_cons (b : UInt8) (rest : List UInt8) :
    segments (b :: rest) = (segment b rest).1 :: segments (segment b rest).2 := by rw [segments]

@[simp]
theorem decodeLossy_nil : decodeLossy [] = [] := by rw [decodeLossy, segments_nil, List.map_nil]

@[simp]
theorem encode_nil : encode [] = [] := rfl

@[simp]
theorem encode_cons (c : Char) (text : List Char) :
    encode (c :: text) = String.utf8EncodeChar c ++ encode text := rfl

@[simp]
theorem encode_append (first second : List Char) :
    encode (first ++ second) = encode first ++ encode second := List.flatMap_append

/-- The bytes of a text are cut into its characters. -/
theorem segments_encode (text : List Char) : segments (encode text) = text.map some := by
  induction text with
  | nil => simp
  | cons c text ih =>
    obtain ⟨b, tail, hbytes, hsegment⟩ := segment_encodeChar c (encode text)
    rw [encode_cons, hbytes, List.cons_append, segments_cons, hsegment, ih, List.map_cons]

/-- The strict reading gives a text if every segment is a character. -/
theorem decode?_eq_some_iff_segments {bytes : List UInt8} {text : List Char} :
    decode? bytes = some text ↔ segments bytes = text.map some := by
  unfold decode?
  generalize segments bytes = parts
  induction parts generalizing text with
  | nil =>
    rw [List.mapM_nil]
    cases text <;> simp
  | cons part parts ih =>
    rw [List.mapM_cons]
    cases part with
    | none => cases text <;> simp
    | some c =>
      simp only [id, Option.bind_eq_bind, Option.bind_some, Option.pure_def,
        Option.bind_eq_some_iff, ih, Option.some.injEq]
      cases text with
      | nil => simp
      | cons d text => simp [and_comm]

/-- The bytes of a text are read as the text. -/
@[simp]
theorem decode?_encode (text : List Char) : decode? (encode text) = some text :=
  decode?_eq_some_iff_segments.2 (segments_encode text)

/-- Bytes that are cut into characters only are the bytes of these. -/
theorem encode_of_segments {bytes : List UInt8} {text : List Char}
    (h : segments bytes = text.map some) : bytes = encode text := by
  induction text generalizing bytes with
  | nil =>
    cases bytes with
    | nil => rfl
    | cons b rest =>
      rw [segments_cons] at h
      cases h
  | cons c text ih =>
    cases bytes with
    | nil =>
      rw [segments_nil] at h
      cases h
    | cons b rest =>
      rw [segments_cons, List.map_cons, List.cons.injEq] at h
      obtain ⟨hfirst, hrest⟩ := h
      rw [encode_cons, ← ih hrest]
      exact encodeChar_of_segment (Prod.ext hfirst rfl)

/-- A byte string is read as a text exactly if it is the bytes of that text. -/
theorem decode?_eq_some_iff {bytes : List UInt8} {text : List Char} :
    decode? bytes = some text ↔ bytes = encode text := by
  constructor
  · intro h
    exact encode_of_segments (decode?_eq_some_iff_segments.1 h)
  · rintro rfl
    exact decode?_encode text

/-- Two texts with the same bytes are the same. -/
theorem encode_injective : Function.Injective encode := by
  intro text text' h
  have hdecode := decode?_encode text
  rw [h, decode?_encode] at hdecode
  exact (Option.some.inj hdecode).symm

@[simp]
theorem toString?_ofString (text : String) : toString? (ofString text) = some text := by
  rw [toString?, ofString, decode?_encode, Option.map_some, String.ofList_toList]

@[simp]
theorem toStringLossy_ofString (text : String) : toStringLossy (ofString text) = text := by
  rw [toStringLossy, ofString, decodeLossy_of_decode? (decode?_encode _), String.ofList_toList]

/-- A byte below 128 stands for a character by itself and is part of no other. -/
theorem mem_encodeChar_iff {c : Char} {b : UInt8} (hb : b.toNat < 128) :
    b ∈ String.utf8EncodeChar c ↔ c.val.toNat = b.toNat := by
  have hvalid := val_toNat_lt c
  rw [String.utf8EncodeChar.eq_def]
  dsimp only
  generalize c.val.toNat = v at hvalid
  split
  · rw [List.mem_singleton, ← UInt8.toNat_inj, UInt8.toNat_ofNat']
    omega
  split
  · simp only [List.mem_cons, List.not_mem_nil, or_false, ← UInt8.toNat_inj, UInt8.toNat_ofNat']
    omega
  split
  · simp only [List.mem_cons, List.not_mem_nil, or_false, ← UInt8.toNat_inj, UInt8.toNat_ofNat']
    omega
  · simp only [List.mem_cons, List.not_mem_nil, or_false, ← UInt8.toNat_inj, UInt8.toNat_ofNat']
    omega

/-- A byte below 128 is in the bytes of a text exactly if its character is in the text. -/
theorem mem_encode_iff {text : List Char} {c : Char} {b : UInt8} (hb : b.toNat < 128)
    (hc : c.val.toNat = b.toNat) : b ∈ encode text ↔ c ∈ text := by
  have hchar : ∀ d : Char, d.val.toNat = c.val.toNat ↔ d = c := by
    intro d
    rw [UInt32.toNat_inj, Char.ext_iff]
  simp only [encode, List.mem_flatMap, mem_encodeChar_iff hb, ← hc, hchar, exists_eq_right]

/-! ## Bytes that stand by themselves -/

section Cut

variable {b : UInt8}

/-- A byte below 128 is a character by itself. -/
theorem segment_of_lt (hb : b.toNat < 128) (rest : List UInt8) :
    segment b rest = (some (Char.ofNat b.toNat), rest) := by
  have hlead := (Lead.IsLead.one hb).ofByte?_eq
  rw [UInt8.ofNat_toNat] at hlead
  simp only [segment, hlead, continuation, Option.map_some]

/-- A byte below 128 follows no other, so nothing is read beyond it. -/
theorem continuation_append (hb : b.toNat < 128) {low high : UInt8} (hlow : 0x80 ≤ low.toNat)
    (following bits : Nat) (bytes more : List UInt8) :
    continuation following low high bits (bytes ++ b :: more) =
      ((continuation following low high bits bytes).1,
        (continuation following low high bits bytes).2 ++ b :: more) := by
  have hfits : (decide (low ≤ b) && decide (b ≤ high)) = false := by
    simp only [UInt8.le_iff_toNat_le, Bool.and_eq_false_iff, decide_eq_false_iff_not]
    exact .inl (by omega)
  fun_induction continuation following low high bits bytes with
  | case1 => rw [continuation]
  -- A byte was to follow, and `b` is none that can.
  | case2 => rw [List.nil_append, continuation, hfits, if_neg Bool.false_ne_true]
  | case3 n low high bits c rest h ih =>
    have hfits' : (decide ((0x80 : UInt8) ≤ b) && decide (b ≤ 0xBF)) = false := by
      simp only [UInt8.le_iff_toNat_le, Bool.and_eq_false_iff, decide_eq_false_iff_not]
      exact .inl (by simpa using hb)
    rw [List.cons_append, continuation, if_pos h, ih (by simp) hfits']
  | case4 n low high bits c rest h => rw [List.cons_append, continuation, if_neg h]

/-- What begins before a byte below 128 ends before it. -/
theorem segment_append (hb : b.toNat < 128) (first : UInt8) (bytes more : List UInt8) :
    segment first (bytes ++ b :: more) =
      ((segment first bytes).1, (segment first bytes).2 ++ b :: more) := by
  unfold segment
  cases hlead : Lead.ofByte? first with
  | none => rfl
  | some lead =>
    dsimp only
    rw [continuation_append hb (Lead.isLead_of_ofByte? hlead).bounds.1]

/-- A byte below 128 cuts a byte string into two that are read apart. -/
theorem segments_append (hb : b.toNat < 128) (bytes more : List UInt8) :
    segments (bytes ++ b :: more) = segments bytes ++ segments (b :: more) := by
  fun_induction segments bytes with
  | case1 => rfl
  | case2 first rest _ ih =>
    rw [List.cons_append, segments_cons, segment_append hb, ih, List.cons_append]

/-- The lenient reading of both sides of a byte below 128 is the reading of each side. -/
theorem decodeLossy_append (hb : b.toNat < 128) (bytes more : List UInt8) :
    decodeLossy (bytes ++ b :: more) =
      decodeLossy bytes ++ Char.ofNat b.toNat :: decodeLossy more := by
  unfold decodeLossy
  rw [segments_append hb, segments_cons, segment_of_lt hb, List.map_append, List.map_cons,
    Option.getD_some]

/-- What is left after the bytes that follow is an end of the bytes. -/
theorem continuation_isSuffix (following : Nat) (low high : UInt8) (bits : Nat)
    (bytes : List UInt8) : (continuation following low high bits bytes).2 <:+ bytes := by
  fun_induction continuation following low high bits bytes with
  | case1 | case2 | case4 => exact List.suffix_refl _
  | case3 _ _ _ _ _ _ _ ih => exact ih.trans (List.suffix_cons _ _)

/-- What is left after a segment is an end of the bytes. -/
theorem segment_isSuffix (first : UInt8) (bytes : List UInt8) : (segment first bytes).2 <:+ bytes := by
  unfold segment
  split
  · exact List.suffix_refl _
  · exact continuation_isSuffix _ _ _ _ _

/-- A character of one byte is read only where that byte is. -/
theorem mem_of_some_mem_segments {bytes : List UInt8} {c : Char} (hb : b.toNat < 128)
    (hc : c.val.toNat = b.toNat) (h : some c ∈ segments bytes) : b ∈ bytes := by
  fun_induction segments bytes with
  | case1 => cases h
  | case2 first rest _ ih =>
    rcases List.mem_cons.1 h with hfirst | hrest
    · rw [encodeChar_of_segment (Prod.ext hfirst.symm rfl)]
      exact List.mem_append_left _ ((mem_encodeChar_iff hb).2 hc)
    · exact List.mem_cons_of_mem _ ((segment_isSuffix first rest).mem (ih hrest))

/-- No reading makes up a character of one byte. -/
theorem mem_of_mem_decodeLossy {bytes : List UInt8} {c : Char} (hb : b.toNat < 128)
    (hc : c.val.toNat = b.toNat) (h : c ∈ decodeLossy bytes) : b ∈ bytes := by
  obtain ⟨part, hpart, hread⟩ := List.mem_map.1 h
  cases part with
  | some d =>
    rw [Option.getD_some] at hread
    rw [hread] at hpart
    exact mem_of_some_mem_segments hb hc hpart
  | none =>
    have hreplacement : replacement.val.toNat = 0xFFFD := by decide
    rw [Option.getD_none] at hread
    rw [← hread] at hc
    omega

/-- Something is read from every byte string that is not empty. -/
theorem decodeLossy_ne_nil {bytes : List UInt8} (h : bytes ≠ []) : decodeLossy bytes ≠ [] := by
  obtain ⟨first, rest, rfl⟩ := List.exists_cons_of_ne_nil h
  rw [decodeLossy, segments_cons, List.map_cons]
  exact List.cons_ne_nil _ _

end Cut

end SourceSurvey.Utf8
