import Mathlib.Data.String.Basic
import SourceSurvey.Proofs.Text.Utf8
import SourceSurvey.SortedMap

/-!
# The order of texts and of their bytes

Maps are in the order of their keys, and texts are compared character by character. Their bytes,
compared one by one, come in the same order (`encode_lt_encode_iff`): the bytes of a character hold
the digits of its number, the most significant first, and a greater number of bytes goes with a
greater lead byte (`Digits`). So the keys of a map are in increasing order of their bytes
(`SortedMap.pairwise_ofString`).
-/

set_option autoImplicit false

namespace SourceSurvey

namespace Utf8

/-- The bytes of the character that has a number. They hold its digits to the base 64, and no more
of them than are needed. -/
inductive Digits : Nat → List UInt8 → Prop where
  | one {n : Nat} : n < 128 → Digits n [.ofNat n]
  | two {n m : Nat} : 2 ≤ n → n < 32 → m < 64 →
      Digits (n * 64 + m) [.ofNat (n + 192), .ofNat (m + 128)]
  | three {n m k : Nat} : (n = 0 → 32 ≤ m) → n < 16 → m < 64 → k < 64 →
      Digits ((n * 64 + m) * 64 + k) [.ofNat (n + 224), .ofNat (m + 128), .ofNat (k + 128)]
  | four {n m k l : Nat} : (n = 0 → 16 ≤ m) → n < 8 → m < 64 → k < 64 → l < 64 →
      Digits (((n * 64 + m) * 64 + k) * 64 + l)
        [.ofNat (n + 240), .ofNat (m + 128), .ofNat (k + 128), .ofNat (l + 128)]

theorem digits_encodeChar (c : Char) : Digits c.val.toNat (String.utf8EncodeChar c) := by
  have hvalid := val_toNat_lt c
  rw [String.utf8EncodeChar.eq_def]
  dsimp only
  generalize c.val.toNat = v at hvalid
  -- The ranges are those of one, two, three and four bytes; in each the digits put together are the
  -- number.
  split
  · exact .one (by omega)
  split
  · have hdigits : v = v / 64 % 32 * 64 + v % 64 := by omega
    have hbytes := Digits.two (n := v / 64 % 32) (m := v % 64) (by omega) (by omega) (by omega)
    rwa [← hdigits] at hbytes
  split
  · have hdigits : v = (v / 4096 % 16 * 64 + v / 64 % 64) * 64 + v % 64 := by omega
    have hbytes := Digits.three (n := v / 4096 % 16) (m := v / 64 % 64) (k := v % 64) (by omega)
      (by omega) (by omega) (by omega)
    rwa [← hdigits] at hbytes
  · have hdigits :
        v = ((v / 262144 % 8 * 64 + v / 4096 % 64) * 64 + v / 64 % 64) * 64 + v % 64 := by
      omega
    have hbytes := Digits.four (n := v / 262144 % 8) (m := v / 4096 % 64) (k := v / 64 % 64)
      (l := v % 64) (by omega) (by omega) (by omega) (by omega) (by omega)
    rwa [← hdigits] at hbytes

/-- Smaller numbers have smaller bytes, whatever stands behind them. -/
theorem Digits.append_lt_append {v w : Nat} {bytes bytes' : List UInt8} (h : Digits v bytes)
    (h' : Digits w bytes') (hlt : v < w) (more more' : List UInt8) :
    bytes ++ more < bytes' ++ more' := by
  -- Equally many bytes are compared digit by digit, else the lead bytes decide.
  cases h <;> cases h' <;>
    simp only [List.cons_append, List.nil_append, List.cons_lt_cons_iff, UInt8.lt_iff_toNat_lt,
      ← UInt8.toNat_inj, UInt8.toNat_ofNat'] <;>
    omega

theorem encode_lt_encode {text text' : List Char} (h : text < text') :
    encode text < encode text' := by
  -- The first characters that differ decide; their bytes differ before those of the rest begin.
  induction (h : List.Lex (· < ·) text text') with
  | @nil c rest =>
    obtain ⟨b, tail, hbytes, -⟩ := segment_encodeChar c []
    rw [encode_nil, encode_cons, hbytes]
    exact List.Lex.nil
  | @rel c rest c' rest' hlt =>
    have hnumber : c.val.toNat < c'.val.toNat := UInt32.lt_iff_toNat_lt.1 (Char.lt_def.1 hlt)
    exact (digits_encodeChar c).append_lt_append (digits_encodeChar c') hnumber _ _
  | cons _ ih => exact List.append_left_lt ih

/-- Texts and their bytes are in the same order. -/
theorem encode_lt_encode_iff {text text' : List Char} :
    encode text < encode text' ↔ text < text' := by
  refine ⟨fun h => ?_, encode_lt_encode⟩
  rcases lt_trichotomy text text' with hlt | rfl | hlt
  · exact hlt
  · exact absurd h (List.lt_irrefl _)
  · exact absurd h (List.lt_asymm (encode_lt_encode hlt))

theorem ofString_lt_ofString_iff {text text' : String} :
    ofString text < ofString text' ↔ text < text' := by
  rw [ofString, ofString, encode_lt_encode_iff, String.lt_iff_toList_lt]

end Utf8

/-- The keys of a map are in increasing order of their bytes. -/
theorem SortedMap.pairwise_ofString {α : Type} (map : SortedMap α) :
    map.entries.Pairwise fun a b => Utf8.ofString a.1 < Utf8.ofString b.1 :=
  map.sorted.imp Utf8.ofString_lt_ofString_iff.2

end SourceSurvey
