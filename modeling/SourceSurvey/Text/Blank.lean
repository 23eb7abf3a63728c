/-!
# Blank characters

The characters that count as white space in any script, and the removal of them from both ends of a
text. What is left does not end in a blank (`isBlank_of_mem_getLast?_trim`), and a text that neither
begins nor ends in one is left as it is (`trim_eq_self`).
-/

set_option autoImplicit false

namespace SourceSurvey.Blank

/-- The ranges of the blank characters, first and last code point of each: the characters with the
Unicode property White_Space. -/
def ranges : List (Nat × Nat) :=
  [(0x09, 0x0D), (0x20, 0x20), (0x85, 0x85), (0xA0, 0xA0), (0x1680, 0x1680), (0x2000, 0x200A),
   (0x2028, 0x2029), (0x202F, 0x202F), (0x205F, 0x205F), (0x3000, 0x3000)]

/-- Whether a character is blank. -/
def isBlank (c : Char) : Bool :=
  ranges.any fun (first, last) => first ≤ c.toNat && c.toNat ≤ last

/-- The text without the blank characters at its end. -/
def trimEnd (text : List Char) : List Char :=
  (text.reverse.dropWhile isBlank).reverse

/-- The text without the blank characters at its ends. -/
def trim (text : List Char) : List Char :=
  trimEnd (text.dropWhile isBlank)

theorem dropWhile_isBlank {text : List Char} (h : ∀ c ∈ text.head?, isBlank c = false) :
    text.dropWhile isBlank = text := by
  cases text with
  | nil => rfl
  | cons c text => rw [List.dropWhile_cons, h c rfl]; rfl

/-- A text that neither begins nor ends in a blank is left as it is. -/
theorem trim_eq_self {text : List Char} (hfirst : ∀ c ∈ text.head?, isBlank c = false)
    (hlast : ∀ c ∈ text.getLast?, isBlank c = false) : trim text = text := by
  rw [trim, dropWhile_isBlank hfirst, trimEnd, dropWhile_isBlank, List.reverse_reverse]
  rwa [List.head?_reverse]

/-- What is left does not end in a blank. -/
theorem isBlank_of_mem_getLast?_trim {text : List Char} {c : Char}
    (h : c ∈ (trim text).getLast?) : isBlank c = false := by
  rw [trim, trimEnd, List.getLast?_reverse] at h
  have := List.head?_dropWhile_not isBlank (text.dropWhile isBlank).reverse
  rw [h] at this
  exact this

end SourceSurvey.Blank
