import Mathlib.Data.List.Basic

/-!
# Reading a table in LaTeX

A reader for texts that are one `tabular` environment, as far as it takes to read a report. A
machine that goes over the characters (`step`) cuts a text into tokens: characters, which may be
written with a backslash or as a command with an empty group behind it, and the marks that make up
the table. A text is `Cut` into certain tokens if the machine puts them out and is back between two
tokens at its end, so texts can be put together piece by piece (`Cut.append`).

`readItems` reads the rules and rows of the table off the tokens; each row is the list of the texts
of its cells, without the blanks that stand around a `&`.
-/

set_option autoImplicit false

namespace SourceSurvey.LatexReader

/-- A piece of a text in LaTeX. -/
inductive Token where
  /-- A character, written as such, after a backslash, or as a command. -/
  | char (c : Char)
  /-- The end of a cell, `&`. -/
  | cellEnd
  /-- The end of a row, two backslashes. -/
  | rowEnd
  /-- A rule between rows. -/
  | rule
  /-- The beginning of an environment. -/
  | beginning
  /-- The end of an environment. -/
  | ending
  /-- The beginning of a group. -/
  | opening
  /-- The end of a group. -/
  | closing
  /-- Something else. -/
  | broken
  deriving DecidableEq, Repr

/-- Whether a token is more than a character. -/
def Token.isMark : Token → Bool
  | .char _ => false
  | _ => true

/-! ## Cutting a text into tokens -/

/-- The characters that a backslash makes characters like any other. -/
def symbols : List Char := ['&', '%', '$', '#', '_', '{', '}']

/-- The commands that stand for a character. -/
def glyphs : List (String × Char) :=
  [("textbackslash", '\\'), ("textasciitilde", '~'), ("textasciicircum", '^')]

/-- What a command that stands for no character is. -/
def commandOf (name : List Char) : Token :=
  ([("hline", Token.rule), ("begin", .beginning), ("end", .ending)].lookup
    (String.ofList name)).getD .broken

/-- What is being read. -/
inductive Mode where
  /-- Text. -/
  | text
  /-- Something that begins with a backslash. -/
  | backslash
  /-- A command of which this much has been read. -/
  | command (name : List Char)
  /-- The empty group behind the command for a character, up to its first brace. -/
  | glyph (c : Char)
  deriving DecidableEq, Repr

/-- What a character of the text itself is, and how to go on. -/
def textStep (c : Char) : List Token × Mode :=
  if c = '\\' then ([], .backslash)
  else if c = '&' then ([.cellEnd], .text)
  else if c = '{' then ([.opening], .text)
  else if c = '}' then ([.closing], .text)
  else if c ∈ symbols ∨ c ∈ ['~', '^'] then ([.broken], .text)
  else ([.char c], .text)

/-- One step of the machine: the tokens that a character completes, and how to go on. A blank that
ends the name of a command belongs to the command. -/
def step : Mode → Char → List Token × Mode
  | .text, c => textStep c
  | .backslash, c =>
    if c = '\\' then ([.rowEnd], .text)
    else if c ∈ symbols then ([.char c], .text)
    else if c.isAlpha then ([], .command [c])
    else ([.broken], .text)
  | .command name, c =>
    if c.isAlpha then ([], .command (name ++ [c]))
    else if c = ' ' ∨ c = '\n' then ([commandOf name], .text)
    else
      match glyphs.lookup (String.ofList name) with
      | some glyph => if c = '{' then ([], .glyph glyph) else ([.broken], .text)
      | none => (commandOf name :: (textStep c).1, (textStep c).2)
  | .glyph glyph, c => if c = '}' then ([.char glyph], .text) else ([.broken], .text)

/-- The steps for all characters of a text. -/
def run : Mode → List Char → List Token × Mode
  | mode, [] => ([], mode)
  | mode, c :: rest =>
    ((step mode c).1 ++ (run (step mode c).2 rest).1, (run (step mode c).2 rest).2)

/-- The tokens of a text, if it does not end within one. -/
def tokens? (text : String) : Option (List Token) :=
  match run .text text.toList with
  | (pieces, .text) => some pieces
  | _ => none

/-- The run over two texts is the run over the first one and, from where it ends, over the second
one. -/
theorem run_append (mode : Mode) (first second : List Char) :
    run mode (first ++ second) =
      ((run mode first).1 ++ (run (run mode first).2 second).1,
        (run (run mode first).2 second).2) := by
  induction first generalizing mode with
  | nil => rfl
  | cons c rest ih =>
    rw [List.cons_append, run, ih, run, List.append_assoc]

/-- The text is cut into these tokens. -/
def Cut (text : String) (pieces : List Token) : Prop := run .text text.toList = (pieces, .text)

namespace Cut

variable {first second text : String} {pieces pieces' : List Token}

theorem tokens?_eq (h : Cut text pieces) : tokens? text = some pieces := by
  rw [tokens?, show run .text text.toList = (pieces, .text) from h]

theorem append (h : Cut first pieces) (h' : Cut second pieces') :
    Cut (first ++ second) (pieces ++ pieces') := by
  rw [Cut, String.toList_append, run_append, show run .text first.toList = _ from h,
    show run .text second.toList = _ from h']

theorem join {α : Type} {write : α → String} {cut : α → List Token} (h : ∀ x, Cut (write x) (cut x))
    (xs : List α) : Cut (String.join (xs.map write)) (xs.flatMap cut) := by
  induction xs with
  | nil => rfl
  | cons x xs ih =>
    rw [List.map_cons, String.join_cons, List.flatMap_cons]
    exact (h x).append ih

/-- A text is cut in one way only. -/
theorem unique (h : Cut text pieces) (h' : Cut text pieces') : pieces = pieces' :=
  (Prod.mk.inj (h.symm.trans h')).1

end Cut

/-! ## Reading the table -/

/-- A rule or a row of a table. -/
inductive Item where
  | rule
  | row (cells : List String)
  deriving DecidableEq, Repr

/-- The tokens of a text without marks. -/
def chars (text : String) : List Token := text.toList.map .char

/-- What stands before the first rule or row. -/
def preamble : List Token :=
  [.beginning, .opening] ++ chars "tabular" ++ [.closing, .opening] ++ chars "|l|l|c|" ++
    [.closing, .char '\n']

/-- What stands behind the last rule or row. -/
def postamble : List Token := [.ending, .opening] ++ chars "tabular" ++ [.closing, .char '\n']

/-- Where in a table the reader is, with what it has read of the row it is in. -/
inductive Place where
  | inCell (cells : List String) (text : List Char)
  /-- Directly behind the end of a cell. -/
  | afterCell (cells : List String)
  /-- Directly behind the end of a row. -/
  | afterRow

/-- At the beginning of a row. -/
def Place.start : Place := .inCell [] []

/-- The text of a cell that ends with `&`: the blank before the mark is no part of it. -/
def cellText (text : List Char) : String :=
  String.ofList (if text.getLast? = some ' ' then text.dropLast else text)

/-- Reads the rules and rows of the rest of a table. -/
def readItems : Place → List Token → Option (List Item)
  | .inCell [] [], .rule :: rest => (readItems .start rest).map (.rule :: ·)
  | .inCell [] [], .ending :: rest => if .ending :: rest = postamble then some [] else none
  | .inCell cells text, .char c :: rest => readItems (.inCell cells (text ++ [c])) rest
  | .inCell cells text, .cellEnd :: rest => readItems (.afterCell (cells ++ [cellText text])) rest
  | .inCell cells text, .rowEnd :: rest =>
    (readItems .afterRow rest).map (.row (cells ++ [String.ofList text]) :: ·)
  | .afterCell cells, .char ' ' :: rest => readItems (.inCell cells []) rest
  | .afterRow, .char '\n' :: rest => readItems .start rest
  | .afterRow, .rule :: rest => (readItems .start rest).map (.rule :: ·)
  | _, _ => none

/-- The rules and rows of the table that a text is. -/
def table? (text : String) : Option (List Item) := do
  readItems .start (← (← tokens? text).dropPrefix? preamble)

/-! ## What a table is written as -/

/-- The tokens of a row up to its end. -/
def rowTokens (cells : List String) : List Token :=
  [Token.char ' ', .cellEnd, .char ' '].intercalate (cells.map chars) ++ [.rowEnd]

theorem readItems_char (cells : List String) (text : List Char) (c : Char) (rest : List Token) :
    readItems (.inCell cells text) (.char c :: rest) =
      readItems (.inCell cells (text ++ [c])) rest := by
  cases cells <;> cases text <;> rfl

theorem readItems_chars (cells : List String) (text : List Char) (name : String)
    (rest : List Token) :
    readItems (.inCell cells text) (chars name ++ rest) =
      readItems (.inCell cells (text ++ name.toList)) rest := by
  unfold chars
  induction name.toList generalizing text with
  | nil => rw [List.map_nil, List.nil_append, List.append_nil]
  | cons c cs ih =>
    rw [List.map_cons, List.cons_append, readItems_char, ih, List.append_assoc]
    rfl

/-- A cell that another one follows is added to the row. -/
theorem readItems_cell (cells : List String) (name : String) (rest : List Token) :
    readItems (.inCell cells []) (chars name ++ .char ' ' :: .cellEnd :: .char ' ' :: rest) =
      readItems (.inCell (cells ++ [name]) []) rest := by
  have hcell : cellText (name.toList ++ [' ']) = name := by
    rw [cellText, List.getLast?_concat, if_pos rfl, List.dropLast_concat, String.ofList_toList]
  have hend : readItems (.inCell cells (name.toList ++ [' '])) (.cellEnd :: .char ' ' :: rest) =
      readItems (.afterCell (cells ++ [cellText (name.toList ++ [' '])])) (.char ' ' :: rest) := by
    cases cells <;> cases name.toList <;> rfl
  rw [readItems_chars, List.nil_append, readItems_char, hend, hcell, readItems]

/-- A row is read as its cells. -/
theorem readItems_row {cells : List String} (hcells : cells ≠ []) (rest : List Token) :
    readItems .start (rowTokens cells ++ rest) =
      (readItems .afterRow rest).map (.row cells :: ·) := by
  -- The statement is about any cells read before, for each cell is put behind them.
  have hrow : ∀ found : List String,
      readItems (.inCell found []) (rowTokens cells ++ rest) =
        (readItems .afterRow rest).map (.row (found ++ cells) :: ·) := by
    unfold rowTokens
    induction cells with
    | nil => exact absurd rfl hcells
    | cons name others ih =>
      intro found
      cases others with
      | nil =>
        have hend : readItems (.inCell found name.toList) (.rowEnd :: rest) =
            (readItems .afterRow rest).map (.row (found ++ [String.ofList name.toList]) :: ·) := by
          cases found <;> cases name.toList <;> rfl
        rw [List.map_singleton, List.intercalate_singleton, List.append_assoc, readItems_chars,
          List.nil_append, List.singleton_append, hend, String.ofList_toList]
      | cons name' others =>
        have hrest := ih (List.cons_ne_nil _ _) (found ++ [name])
        rw [List.append_assoc found] at hrest
        simp only [List.map_cons, List.intercalate_cons_cons, List.append_assoc, List.cons_append,
          List.nil_append] at hrest ⊢
        rw [readItems_cell, hrest]
  exact hrow []

/-- The marks of a row do not depend on what is in its cells. -/
theorem filter_isMark_chars (text : String) : (chars text).filter Token.isMark = [] := by
  simp [chars, List.filter_eq_nil_iff, Token.isMark]

end SourceSurvey.LatexReader
