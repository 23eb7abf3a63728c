/-!
# UTF-8

Texts are read from bytes in two ways. The strict reading `decode?` refuses a byte string that is
not UTF-8; the lenient reading `decodeLossy` puts one replacement character for each ill-formed
stretch. Both come from one pass, `segments`, which cuts the bytes into well-formed characters and
ill-formed stretches. A stretch is as long as it can be while it is still the beginning of some
character, and one byte long when it is no such beginning.

Where the strict reading succeeds, the lenient one gives the same text (`decodeLossy_of_decode?`).
-/

set_option autoImplicit false

namespace SourceSurvey.Utf8

/-- The character that stands for an ill-formed stretch of bytes. -/
def replacement : Char := '\uFFFD'

/-- What a lead byte announces: how many bytes follow, the range of the first of them, and the bits
that the lead byte itself contributes. -/
structure Lead where
  /-- The number of bytes that follow. -/
  following : Nat
  /-- The least first following byte. -/
  low : UInt8
  /-- The greatest first following byte. -/
  high : UInt8
  /-- The value of the payload bits of the lead byte. -/
  bits : Nat
  deriving DecidableEq, Repr

/-- The announcement of a lead byte; `none` for a byte that begins no character. The ranges of the
first following byte leave out overlong forms, surrogates and values above U+10FFFF. -/
def Lead.ofByte? (b : UInt8) : Option Lead :=
  if b < 0x80 then some ⟨0, 0x80, 0xBF, b.toNat⟩
  else if b < 0xC2 then none
  else if b < 0xE0 then some ⟨1, 0x80, 0xBF, b.toNat - 0xC0⟩
  else if b = 0xE0 then some ⟨2, 0xA0, 0xBF, 0⟩
  else if b = 0xED then some ⟨2, 0x80, 0x9F, 0xD⟩
  else if b < 0xF0 then some ⟨2, 0x80, 0xBF, b.toNat - 0xE0⟩
  else if b = 0xF0 then some ⟨3, 0x90, 0xBF, 0⟩
  else if b < 0xF4 then some ⟨3, 0x80, 0xBF, b.toNat - 0xF0⟩
  else if b = 0xF4 then some ⟨3, 0x80, 0x8F, 4⟩
  else none

/-- Reads `following` more bytes, the first between `low` and `high` and the others between `0x80`
and `0xBF`, and collects their bits. The rest begins at the first byte that does not fit. -/
def continuation : (following : Nat) → (low high : UInt8) → (bits : Nat) → List UInt8 →
    Option Nat × List UInt8
  | 0, _, _, bits, rest => (some bits, rest)
  | _ + 1, _, _, _, [] => (none, [])
  | n + 1, low, high, bits, b :: rest =>
    if low ≤ b && b ≤ high then
      continuation n 0x80 0xBF (bits * 64 + (b.toNat - 0x80)) rest
    else
      (none, b :: rest)

/-- The character that begins with the byte `b`, or `none` for an ill-formed stretch, and the bytes
after it. -/
def segment (b : UInt8) (rest : List UInt8) : Option Char × List UInt8 :=
  match Lead.ofByte? b with
  | none => (none, rest)
  | some lead =>
    let (bits, rest) := continuation lead.following lead.low lead.high lead.bits rest
    (bits.map Char.ofNat, rest)

theorem length_continuation_le (n : Nat) (low high : UInt8) (bits : Nat) (rest : List UInt8) :
    (continuation n low high bits rest).2.length ≤ rest.length := by
  fun_induction continuation n low high bits rest with
  | case1 => simp
  | case2 => simp
  | case3 n low high bits b rest _ ih => simp; omega
  | case4 => simp

/-- A segment takes at least the byte it begins with. -/
theorem length_segment_le (b : UInt8) (rest : List UInt8) :
    (segment b rest).2.length ≤ rest.length := by
  unfold segment
  split
  · simp
  · exact length_continuation_le _ _ _ _ _

/-- The characters of a byte string in order, `none` for each ill-formed stretch. -/
def segments : List UInt8 → List (Option Char)
  | [] => []
  | b :: rest =>
    have : (segment b rest).2.length < rest.length + 1 :=
      Nat.lt_succ_of_le (length_segment_le b rest)
    (segment b rest).1 :: segments (segment b rest).2
termination_by bytes => bytes.length

/-- The strict reading: the text, if every byte belongs to a character. -/
def decode? (bytes : List UInt8) : Option (List Char) :=
  (segments bytes).mapM id

/-- The lenient reading: a replacement character stands for each ill-formed stretch. -/
def decodeLossy (bytes : List UInt8) : List Char :=
  (segments bytes).map (·.getD replacement)

/-- The bytes of a text. -/
def encode (text : List Char) : List UInt8 :=
  text.flatMap String.utf8EncodeChar

/-- The bytes of a string. -/
def ofString (text : String) : List UInt8 :=
  encode text.toList

/-- The strict reading as a string. -/
def toString? (bytes : List UInt8) : Option String :=
  (decode? bytes).map String.ofList

/-- The lenient reading as a string. -/
def toStringLossy (bytes : List UInt8) : String :=
  String.ofList (decodeLossy bytes)

/-- Where the strict reading succeeds, the lenient one gives the same text. -/
theorem decodeLossy_of_decode? {bytes : List UInt8} {text : List Char}
    (h : decode? bytes = some text) : decodeLossy bytes = text := by
  unfold decode? at h
  unfold decodeLossy
  generalize segments bytes = parts at h ⊢
  induction parts generalizing text with
  | nil => simp_all
  | cons part parts ih =>
    cases part with
    | none => simp at h
    | some c =>
      simp only [List.mapM_cons, id, Option.bind_eq_bind, Option.bind_some,
        Option.pure_def, Option.bind_eq_some_iff, Option.some.injEq] at h
      obtain ⟨rest, hrest, rfl⟩ := h
      simp [ih hrest]

end SourceSurvey.Utf8
