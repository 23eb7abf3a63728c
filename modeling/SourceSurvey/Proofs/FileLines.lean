import Mathlib
import SourceSurvey.Proofs.Lines
import SourceSurvey.Proofs.Text.Utf8

/-!
# The lines of a file

The lines of a file are counted in the text that its bytes are read as, but they can be counted in
the bytes themselves. A byte below 128 is a character by itself and part of no other, so a text and
its bytes hold a line feed or a carriage return equally often (`Utf8.count_encode`), one behind the
other in the same places (`countAlone_encode`), and at the end together
(`Utf8.getLast?_encode_eq_some_iff`).

The main statement is `countFile_of_read`: a file that is read has no lines if its bytes are not
UTF-8, and otherwise as many as its bytes have (`rawLineCount`). No other character ends a line.
-/

set_option autoImplicit false

namespace SourceSurvey

/-! ## Characters of one byte -/

namespace Utf8

section Single

variable {b : UInt8} {c : Char} (hb : b.toNat < 128) (hc : c.val.toNat = b.toNat)

include hb hc

theorem encodeChar_eq_singleton : String.utf8EncodeChar c = [b] := by
  rw [← ofNat_val_toNat c, hc, encodeChar_one hb, UInt8.ofNat_toNat]

theorem notMem_encodeChar {d : Char} (h : d ≠ c) : b ∉ String.utf8EncodeChar d := by
  rwa [mem_encodeChar_iff hb, ← hc, UInt32.toNat_inj, ← Char.ext_iff]

/-- A byte below 128 stands in the bytes of a text as often as its character in the text. -/
theorem count_encode (text : List Char) : (encode text).count b = text.count c := by
  induction text with
  | nil => rfl
  | cons d rest ih =>
    rw [encode_cons, List.count_append, ih, List.count_cons]
    by_cases h : d = c
    · rw [h, encodeChar_eq_singleton hb hc, List.count_singleton_self, if_pos (beq_self_eq_true c)]
      exact Nat.add_comm _ _
    · rw [List.count_eq_zero.2 (notMem_encodeChar hb hc h), if_neg (by simpa using h)]
      exact Nat.zero_add _

theorem head?_encode_eq_some_iff {text : List Char} :
    (encode text).head? = some b ↔ text.head? = some c := by
  cases text with
  | nil => simp
  | cons d rest =>
    rw [encode_cons, List.head?_append_of_ne_nil _ String.utf8EncodeChar_ne_nil, List.head?_cons,
      Option.some.injEq]
    by_cases h : d = c
    · simp [h, encodeChar_eq_singleton hb hc]
    · exact iff_of_false (fun hhead => notMem_encodeChar hb hc h (List.mem_of_mem_head? hhead)) h

theorem getLast?_encode_eq_some_iff {text : List Char} :
    (encode text).getLast? = some b ↔ text.getLast? = some c := by
  rcases List.eq_nil_or_concat text with rfl | ⟨init, d, rfl⟩
  · simp
  rw [List.concat_eq_append, encode_append, encode_cons, encode_nil, List.append_nil,
    List.getLast?_append_of_ne_nil _ String.utf8EncodeChar_ne_nil, List.getLast?_concat,
    Option.some.injEq]
  by_cases h : d = c
  · simp [h, encodeChar_eq_singleton hb hc]
  · exact iff_of_false (fun hlast => notMem_encodeChar hb hc h (List.mem_of_getLast? hlast)) h

end Single

/-- The bytes of a text are what the library takes for UTF-8. -/
theorem isValidUTF8_iff {bytes : List UInt8} :
    bytes.toByteArray.IsValidUTF8 ↔ ∃ text, bytes = encode text := by
  constructor
  · rintro ⟨text, h⟩
    refine ⟨text, ?_⟩
    have hdata := congrArg (fun array => array.data.toList) h
    simpa [List.utf8Encode, encode] using hdata
  · rintro ⟨text, rfl⟩
    exact ⟨text, rfl⟩

end Utf8

/-! ## Line ends among bytes -/

/-- The number of lines of a byte string: its line feeds, its carriage returns that no line feed
follows, and one more if it ends with neither. -/
def rawLineCount (bytes : List UInt8) : Nat :=
  bytes.count 0x0A + countAlone 0x0D 0x0A bytes +
    match bytes.getLast? with
    | none => 0
    | some b => if b = 0x0A ∨ b = 0x0D then 0 else 1

theorem countAlone_append_of_notMem {α : Type} [DecidableEq α] {first : α} {xs : List α}
    (h : first ∉ xs) (second : α) (ys : List α) :
    countAlone first second (xs ++ ys) = countAlone first second ys := by
  have happend := countAlone_append first second xs ys
  rw [if_neg fun hcut => h (List.mem_of_getLast? hcut.1), countAlone_eq_zero h] at happend
  omega

/-- Two bytes that are characters stand behind each other where the characters do. -/
theorem countAlone_encode {first second : UInt8} {c d : Char} (hfirst : first.toNat < 128)
    (hc : c.val.toNat = first.toNat) (hsecond : second.toNat < 128)
    (hd : d.val.toNat = second.toNat) (text : List Char) :
    countAlone first second (Utf8.encode text) = countAlone c d text := by
  induction text with
  | nil => rfl
  | cons x rest ih =>
    rw [Utf8.encode_cons, countAlone]
    by_cases hx : x = c
    · rw [hx, Utf8.encodeChar_eq_singleton hfirst hc, List.singleton_append, countAlone, ih]
      simp [Utf8.head?_encode_eq_some_iff hsecond hd]
    -- The bytes of another character hold no such byte, in front or behind.
    · rw [countAlone_append_of_notMem (Utf8.notMem_encodeChar hfirst hc hx), ih,
        if_neg fun hboth => hx hboth.1, Nat.add_zero]

/-- The lines of a text can be counted in its bytes. -/
theorem rawLineCount_encode (text : List Char) :
    rawLineCount (Utf8.encode text) = lineCount false text := by
  -- Line feed and carriage return are single bytes, and no other character has them in its bytes.
  have hfeed : (Utf8.encode text).getLast? = some 0x0A ↔ text.getLast? = some '\n' :=
    Utf8.getLast?_encode_eq_some_iff (by decide) (by decide)
  have hreturn : (Utf8.encode text).getLast? = some 0x0D ↔ text.getLast? = some '\r' :=
    Utf8.getLast?_encode_eq_some_iff (by decide) (by decide)
  have hnone : (Utf8.encode text).getLast? = none ↔ text.getLast? = none := by
    cases text with
    | nil => simp
    | cons c rest => simp
  rw [rawLineCount, lineCount_eq, lineEnds, endsWithinLine,
    Utf8.count_encode (by decide) (c := '\n') (by decide),
    countAlone_encode (c := '\r') (d := '\n') (by decide) (by decide) (by decide) (by decide)]
  congr 1
  -- What is left is the unfinished last line, which the last byte or character tells.
  cases hbyte : (Utf8.encode text).getLast? with
  | none =>
    rw [hnone.1 hbyte]
    rfl
  | some b =>
    rw [hbyte] at hfeed hreturn hnone
    cases hchar : text.getLast? with
    | none => exact absurd (hnone.2 hchar) (by simp)
    | some c =>
      simp only [hchar, Option.some.injEq] at hfeed hreturn
      simp only [hfeed, hreturn]
      by_cases h : c = '\n' <;> by_cases h' : c = '\r' <;> simp [h, h']

/-! ## Characters that end no line -/

/-- Characters that end a line for other programs: vertical tab, form feed, zero, next line, line
separator and paragraph separator. -/
def lookalikes : List Char := ['\u000B', '\u000C', '\u0000', '\u0085', '\u2028', '\u2029']

/-- The text with a letter in the place of each such character. -/
def withLetters (text : List Char) : List Char :=
  text.map fun c => if c ∈ lookalikes then 'x' else c

section Map

variable {f : Char → Char} (hfeed : ∀ c, f c = '\n' ↔ c = '\n')
  (hreturn : ∀ c, f c = '\r' ↔ c = '\r')

include hfeed hreturn

theorem lineEnds_map (text : List Char) : lineEnds (text.map f) = lineEnds text := by
  induction text with
  | nil => rfl
  | cons c rest ih =>
    have hhead : (rest.map f).head? = some '\n' ↔ rest.head? = some '\n' := by
      rw [List.head?_map, Option.map_eq_some_iff]
      simp [hfeed]
    rw [List.map_cons, lineEnds_cons, lineEnds_cons, ih]
    simp only [hfeed, hreturn, ne_eq, hhead]

/-- The count depends on where the line ends are and on nothing else. -/
theorem lineCount_map (unfinished : Bool) (text : List Char) :
    lineCount unfinished (text.map f) = lineCount unfinished text := by
  rw [lineCount_eq, lineCount_eq, lineEnds_map hfeed hreturn, endsWithinLine, endsWithinLine,
    List.getLast?_map]
  cases text.getLast? with
  | none => rfl
  | some c => simp [hfeed, hreturn]

end Map

theorem countLines_withLetters (text : List Char) :
    countLines (withLetters text) = countLines text := by
  -- Neither a look-alike nor the letter in its place is a line end.
  have hkeep : ∀ d ∉ 'x' :: lookalikes, ∀ c, (if c ∈ lookalikes then 'x' else c) = d ↔ c = d := by
    intro d hd c
    obtain ⟨hletter, hnot⟩ := List.ne_and_not_mem_of_not_mem_cons hd
    by_cases hc : c ∈ lookalikes
    · rw [if_pos hc]
      exact iff_of_false hletter.symm (by rintro rfl; exact hnot hc)
    · rw [if_neg hc]
  rw [countLines, withLetters, lineCount_map (hkeep '\n' (by decide)) (hkeep '\r' (by decide)),
    countLines]

/-! ## Files -/

section File

variable {fs : FileSystem} {path : Path} {opened : FileSystem.Opened} {bytes : List UInt8}

/-- The lines of a file that can be opened and read are those of its bytes. -/
theorem countFile_eq_ofBytes (hopen : fs.openForReading path = .ok opened)
    (hread : opened.read = .ok bytes) : countFile fs path = .ofBytes bytes := by
  simp only [countFile, hopen, hread]

theorem lines?_ofBytes_encode (text : List Char) :
    (LineCount.ofBytes (Utf8.encode text)).lines? = some (countLines text) := by
  rw [LineCount.ofBytes, Utf8.decode?_encode]
  rfl

theorem length_le_length_encode (text : List Char) : text.length ≤ (Utf8.encode text).length := by
  induction text with
  | nil => exact Nat.zero_le _
  | cons c rest ih =>
    have hpos : 0 < (String.utf8EncodeChar c).length :=
      List.length_pos_iff.2 String.utf8EncodeChar_ne_nil
    rw [Utf8.encode_cons, List.length_append, List.length_cons]
    omega

/-- The lines of a file are counted in its bytes. A file that is opened and read has no lines
if its bytes are not UTF-8; otherwise it has as many as its bytes have, and no character but line
feed and carriage return makes a difference to them. -/
theorem countFile_of_read (hopen : fs.openForReading path = .ok opened)
    (hread : opened.read = .ok bytes) (hfew : bytes.length < 2 ^ 64) :
    (¬bytes.toByteArray.IsValidUTF8 → (countFile fs path).lines? = some 0) ∧
    (bytes.toByteArray.IsValidUTF8 →
      ∃ n, (countFile fs path).lines? = some n ∧ n.toNat = rawLineCount bytes) ∧
    (∀ text, bytes = Utf8.encode text →
      (countFile fs path).lines? = some (countLines (withLetters text))) ∧
    (bytes = [0xEF, 0xBB, 0xBF] → (countFile fs path).lines? = some 1) := by
  rw [countFile_eq_ofBytes hopen hread]
  refine ⟨?invalid, ?valid, ?lookalikes, ?mark⟩
  case invalid =>
    intro h
    have hnone : Utf8.decode? bytes = none := by
      rw [Option.eq_none_iff_forall_not_mem]
      intro text htext
      exact h (Utf8.isValidUTF8_iff.2 ⟨text, Utf8.decode?_eq_some_iff.1 htext⟩)
    rw [LineCount.ofBytes, hnone]
    rfl
  case valid =>
    intro h
    obtain ⟨text, rfl⟩ := Utf8.isValidUTF8_iff.1 h
    have hlength := length_le_length_encode text
    refine ⟨countLines text, lines?_ofBytes_encode text, ?_⟩
    rw [rawLineCount_encode, toNat_countLines (by omega)]
  case lookalikes =>
    rintro text rfl
    rw [countLines_withLetters, lines?_ofBytes_encode]
  case mark =>
    rintro rfl
    exact lines?_ofBytes_encode ['\uFEFF']

end File

/-- A text with every line end and a line separator. -/
def mixedText : List Char := ['a', '\r', '\n', '\r', '\u2028', 'b']

/-- A file with this text, one that is not UTF-8, and one with a lone mark of the byte order. -/
def rawFiles : FileSystem :=
  ⟨.directory
    [(Utf8.ofString "mixed", .file (.data (Utf8.encode mixedText)) .all),
      (Utf8.ofString "blob", .file (.data [0xFF, 0x0A]) .all),
      (Utf8.ofString "mark", .file (.data [0xEF, 0xBB, 0xBF]) .all)] .all, []⟩

/-- Three lines, no lines and one line. -/
theorem countFile_of_read_rawFiles :
    rawFiles.openForReading (Path.ofString "mixed") = .ok (.stream (Utf8.encode mixedText)) ∧
      (∃ n, (countFile rawFiles (Path.ofString "mixed")).lines? = some n ∧ n.toNat = 3) ∧
      (countFile rawFiles (Path.ofString "mixed")).lines? =
        some (countLines ['a', '\r', '\n', '\r', 'x', 'b']) ∧
      ¬[0xFF, 0x0A].toByteArray.IsValidUTF8 ∧
      (countFile rawFiles (Path.ofString "blob")).lines? = some 0 ∧
      (countFile rawFiles (Path.ofString "mark")).lines? = some 1 := by
  have hmixed : rawFiles.openForReading (Path.ofString "mixed") =
      .ok (.stream (Utf8.encode mixedText)) := by cbv
  have hblob : rawFiles.openForReading (Path.ofString "blob") = .ok (.stream [0xFF, 0x0A]) := by cbv
  have hmark : rawFiles.openForReading (Path.ofString "mark") =
      .ok (.stream [0xEF, 0xBB, 0xBF]) := by cbv
  have hill : ¬[0xFF, 0x0A].toByteArray.IsValidUTF8 := by
    rw [Utf8.isValidUTF8_iff]
    rintro ⟨text, htext⟩
    have hnone : Utf8.decode? [0xFF, 0x0A] = none := by cbv
    rw [Utf8.decode?_eq_some_iff.2 htext] at hnone
    cases hnone
  obtain ⟨-, hvalid, hletters, -⟩ := countFile_of_read hmixed rfl (by decide)
  obtain ⟨hinvalid, -⟩ := countFile_of_read hblob rfl (by decide)
  obtain ⟨-, -, -, hlone⟩ := countFile_of_read hmark rfl (by decide)
  exact ⟨hmixed, hvalid (Utf8.isValidUTF8_iff.2 ⟨mixedText, rfl⟩), hletters mixedText rfl, hill,
    hinvalid hill, hlone rfl⟩

end SourceSurvey
