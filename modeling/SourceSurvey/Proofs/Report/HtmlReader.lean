
/-!
# Reading tables in HTML

A reader for texts with tables in them, as far as it takes to read a report. `tokens` cuts a text
into tags and characters and undoes character references; a text is `Cut` into certain tokens if it
is so whatever comes after it, and then texts can be put together piece by piece. `readTables` reads
the tables off the tokens: each table is a list of rows and each row a list of the texts of its
cells. Whatever it can read is properly nested (`nested_of_readTables`), with rows in tables and
cells in rows only.
-/

set_option autoImplicit false

namespace SourceSurvey.HtmlReader

/-- An element that a tag can be about. -/
inductive Element where
  | table
  | row
  | cell
  /-- A line break; it holds nothing, so no tag closes it. -/
  | lineBreak
  deriving DecidableEq, Repr

/-- A piece of a text in HTML. -/
inductive Token where
  /-- A tag that opens an element. -/
  | opening (element : Element)
  /-- A tag that closes an element. -/
  | closing (element : Element)
  /-- A character, written as such or as a reference. -/
  | char (c : Char)
  /-- Something else. -/
  | broken
  deriving DecidableEq, Repr

/-- Whether a token is a tag. -/
def Token.isTag : Token → Bool
  | .opening _ => true
  | .closing _ => true
  | _ => false

/-! ## Cutting a text into tokens -/

/-- What a tag stands for, given what is between its brackets. -/
def tagOf (name : List Char) : Token :=
  ([("table", Token.opening .table), ("/table", .closing .table),
    ("tr", .opening .row), ("/tr", .closing .row),
    ("td", .opening .cell), ("/td", .closing .cell),
    ("br", .opening .lineBreak)].lookup (String.ofList name)).getD .broken

/-- What a reference stands for, given its name. -/
def referenceOf (name : List Char) : Token :=
  (([("amp", '&'), ("lt", '<'), ("gt", '>'), ("quot", '"')].lookup
    (String.ofList name)).map Token.char).getD .broken

/-- What is being read. -/
inductive Mode where
  /-- Text between tags. -/
  | text
  /-- A tag of which this much has been read. -/
  | tag (read : List Char)
  /-- A reference of which this much has been read. -/
  | reference (read : List Char)

/-- The tokens of the rest of a text. -/
def tokensFrom : Mode → List Char → List Token
  | .text, [] => []
  | _, [] => [.broken]
  | .text, c :: rest =>
    if c = '<' then tokensFrom (.tag []) rest
    else if c = '&' then tokensFrom (.reference []) rest
    else .char c :: tokensFrom .text rest
  | .tag read, c :: rest =>
    if c = '>' then tagOf read :: tokensFrom .text rest
    else tokensFrom (.tag (read ++ [c])) rest
  | .reference read, c :: rest =>
    if c = ';' then referenceOf read :: tokensFrom .text rest
    else tokensFrom (.reference (read ++ [c])) rest

/-- The tokens of a text. -/
def tokens (text : String) : List Token := tokensFrom .text text.toList

/-- The text is cut into these tokens, whatever comes after it. -/
def Cut (text : String) (pieces : List Token) : Prop :=
  ∀ rest, tokensFrom .text (text.toList ++ rest) = pieces ++ tokensFrom .text rest

namespace Cut

variable {first second text : String} {pieces pieces' : List Token}

theorem tokens_eq (h : Cut text pieces) : tokens text = pieces := by
  have := h []
  rwa [List.append_nil, tokensFrom, List.append_nil] at this

theorem append (h : Cut first pieces) (h' : Cut second pieces') :
    Cut (first ++ second) (pieces ++ pieces') := by
  intro rest
  -- To the first text the second one is part of what comes after it.
  rw [String.toList_append, List.append_assoc, h, h', List.append_assoc]

theorem join {α : Type} {write : α → String} {cut : α → List Token} (h : ∀ x, Cut (write x) (cut x))
    (xs : List α) : Cut (String.join (xs.map write)) (xs.flatMap cut) := by
  induction xs with
  | nil => exact fun _ => rfl
  | cons x xs ih =>
    rw [List.map_cons, String.join_cons, List.flatMap_cons]
    exact (h x).append ih

end Cut

/-! ## Reading the tables -/

/-- The texts of the cells of a table, row by row. -/
abbrev Table := List (List String)

/-- Where in a text the reader is, with what it has read of the table it is in. -/
inductive Place where
  | outside
  | inTable (rows : Table)
  | inRow (rows : Table) (cells : List String)
  | inCell (rows : Table) (cells : List String) (text : List Char)

/-- The elements that are open at a place, innermost first. -/
def Place.stack : Place → List Element
  | .outside => []
  | .inTable _ => [.table]
  | .inRow .. => [.row, .table]
  | .inCell .. => [.cell, .row, .table]

/-- Reads the tables of the rest of a text. Characters outside cells are passed over. -/
def readTables : Place → List Token → Option (List Table)
  | .outside, [] => some []
  | .outside, .char _ :: rest => readTables .outside rest
  | .outside, .opening .lineBreak :: rest => readTables .outside rest
  | .outside, .opening .table :: rest => readTables (.inTable []) rest
  | .inTable rows, .char _ :: rest => readTables (.inTable rows) rest
  | .inTable rows, .opening .row :: rest => readTables (.inRow rows []) rest
  | .inTable rows, .closing .table :: rest => (readTables .outside rest).map (rows :: ·)
  | .inRow rows cells, .opening .cell :: rest => readTables (.inCell rows cells []) rest
  | .inRow rows cells, .closing .row :: rest => readTables (.inTable (rows ++ [cells])) rest
  | .inCell rows cells text, .char c :: rest => readTables (.inCell rows cells (text ++ [c])) rest
  | .inCell rows cells text, .closing .cell :: rest =>
    readTables (.inRow rows (cells ++ [String.ofList text])) rest
  | _, _ => none

/-- The tables of a text. -/
def tables? (text : String) : Option (List Table) := readTables .outside (tokens text)

/-- Whether an element may be opened inside of others: a table in nothing, a row in a table, a cell
in a row. -/
def mayOpen : List Element → Element → Bool
  | [], .table => true
  | [.table], .row => true
  | [.row, .table], .cell => true
  | _, _ => false

/-- `Nested stack pieces`: with the elements of `stack` open, the tags of `pieces` open and close
elements in proper nesting, and in the end all are closed. -/
inductive Nested : List Element → List Token → Prop where
  | nil : Nested [] []
  | char {stack : List Element} {c : Char} {rest : List Token} :
      Nested stack rest → Nested stack (.char c :: rest)
  | lineBreak {stack : List Element} {rest : List Token} :
      Nested stack rest → Nested stack (.opening .lineBreak :: rest)
  | opening {stack : List Element} {element : Element} {rest : List Token} :
      mayOpen stack element = true → Nested (element :: stack) rest →
      Nested stack (.opening element :: rest)
  | closing {stack : List Element} {element : Element} {rest : List Token} :
      Nested stack rest → Nested (element :: stack) (.closing element :: rest)

/-- What can be read is nested. -/
theorem nested_of_readTables {place : Place} {pieces : List Token} {found : List Table}
    (h : readTables place pieces = some found) : Nested place.stack pieces := by
  fun_induction readTables place pieces generalizing found with
  | case1 => exact .nil
  | case2 _ _ ih => exact .char (ih h)
  | case3 _ ih => exact .lineBreak (ih h)
  | case4 _ ih => exact .opening rfl (ih h)
  | case5 _ _ _ ih => exact .char (ih h)
  | case6 _ _ ih => exact .opening rfl (ih h)
  | case7 _ _ ih =>
    obtain ⟨found', hrest, -⟩ := Option.map_eq_some_iff.1 h
    exact .closing (ih hrest)
  | case8 _ _ _ ih => exact .opening rfl (ih h)
  | case9 _ _ _ ih => exact .closing (ih h)
  | case10 _ _ _ _ _ ih => exact .char (ih h)
  | case11 _ _ _ _ ih => exact .closing (ih h)
  -- Everything else cannot be read.
  | case12 => cases h

/-! ## What a table is written as -/

/-- The tokens of a cell. -/
def cellTokens (text : String) : List Token :=
  .opening .cell :: (text.toList.map .char ++ [.closing .cell])

/-- The tokens of a row. -/
def rowTokens (cells : List String) : List Token :=
  .opening .row :: (cells.flatMap cellTokens ++ [.closing .row])

theorem readTables_chars (rows : Table) (cells : List String) (text chars : List Char)
    (rest : List Token) :
    readTables (.inCell rows cells text) (chars.map .char ++ rest) =
      readTables (.inCell rows cells (text ++ chars)) rest := by
  induction chars generalizing text with
  | nil => rw [List.map_nil, List.nil_append, List.append_nil]
  | cons c chars ih =>
    rw [List.map_cons, List.cons_append, readTables, ih, List.append_assoc]
    rfl

/-- A cell adds its text to the row. -/
theorem readTables_cell (rows : Table) (cells : List String) (text : String) (rest : List Token) :
    readTables (.inRow rows cells) (cellTokens text ++ rest) =
      readTables (.inRow rows (cells ++ [text])) rest := by
  rw [cellTokens, List.cons_append, List.append_assoc, readTables, readTables_chars,
    List.nil_append, List.cons_append, List.nil_append, readTables, String.ofList_toList]

theorem readTables_cells (rows : Table) (cells texts : List String) (rest : List Token) :
    readTables (.inRow rows cells) (texts.flatMap cellTokens ++ rest) =
      readTables (.inRow rows (cells ++ texts)) rest := by
  induction texts generalizing cells with
  | nil => rw [List.flatMap_nil, List.nil_append, List.append_nil]
  | cons text texts ih =>
    rw [List.flatMap_cons, List.append_assoc, readTables_cell, ih, List.append_assoc]
    rfl

/-- A row is added to the table. -/
theorem readTables_row (rows : Table) (cells : List String) (rest : List Token) :
    readTables (.inTable rows) (rowTokens cells ++ rest) =
      readTables (.inTable (rows ++ [cells])) rest := by
  rw [rowTokens, List.cons_append, List.append_assoc, readTables, readTables_cells,
    List.nil_append, List.cons_append, List.nil_append, readTables]

/-- The tags of a row with this many cells. -/
def rowTags (cells : Nat) : List Token :=
  .opening .row ::
    ((List.replicate cells [Token.opening .cell, .closing .cell]).flatten ++ [.closing .row])

theorem filter_isTag_cellTokens (text : String) :
    (cellTokens text).filter Token.isTag = [.opening .cell, .closing .cell] := by
  have hchars : (text.toList.map Token.char).filter Token.isTag = [] := by
    simp [List.filter_eq_nil_iff, Token.isTag]
  rw [cellTokens, List.filter_cons_of_pos rfl, List.filter_append, hchars]
  rfl

/-- The tags of a row do not depend on what is in its cells. -/
theorem filter_isTag_rowTokens (cells : List String) :
    (rowTokens cells).filter Token.isTag = rowTags cells.length := by
  have hcells : (cells.flatMap cellTokens).filter Token.isTag =
      (List.replicate cells.length [Token.opening .cell, .closing .cell]).flatten := by
    induction cells with
    | nil => rfl
    | cons text cells ih =>
      rw [List.flatMap_cons, List.filter_append, ih, filter_isTag_cellTokens, List.length_cons,
        List.replicate_succ, List.flatten_cons]
  rw [rowTokens, rowTags, List.filter_cons_of_pos rfl, List.filter_append, hcells]
  rfl

end SourceSurvey.HtmlReader
