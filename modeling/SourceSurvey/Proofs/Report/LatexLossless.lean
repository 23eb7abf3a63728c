import SourceSurvey.Proofs.Report.HtmlLossless
import SourceSurvey.Proofs.Report.LatexReader

/-!
# The LaTeX of a report is lossless

A report in LaTeX is one table. The escapes of the characters of a name make up a code in which no
word begins another one, and they hold no mark of the table (`cut_escape`), so an escaped name is
read as the name and the cells of a row are read as they are. The parts of the report are told by
the rules between them, and the rows of a part as in HTML, by the number of their cells and by
their first cell (`decode?`).

`decode?_render_latex` says so for every report, together with what may stand next to what in an
escaped name (`Guarded`).
-/

set_option autoImplicit false

namespace SourceSurvey

open LatexReader
open HtmlReader (rowsOfCells? rowsOfCells?_cells span_append_cons)

namespace Report.Latex

/-! ## How a character is written -/

/-- `Written c text`: in a cell, `text` is written for the character `c`. -/
inductive Written : Char → List Char → Prop where
  /-- A backslash is put before the character. -/
  | symbol {c : Char} : c ∈ symbols → Written c ['\\', c]
  /-- A command is written for the character. -/
  | command (word : String) {c : Char} :
      (word, c) ∈ glyphs → Written c ('\\' :: (word.toList ++ ['{', '}']))
  /-- The character is written as it is. -/
  | plain {c : Char} : c ∉ symbols → (∀ glyph ∈ glyphs, glyph.2 ≠ c) → Written c [c]

/-- What is written for a character is one of the forms that a reader knows. -/
theorem written_escapeChar (c : Char) : Written c (escapeChar c) := by
  unfold escapeChar
  split
  · exact .symbol (by decide)
  · exact .symbol (by decide)
  · exact .symbol (by decide)
  · exact .symbol (by decide)
  · exact .symbol (by decide)
  · exact .symbol (by decide)
  · exact .symbol (by decide)
  · exact .command "textbackslash" (by decide)
  · exact .command "textasciitilde" (by decide)
  · exact .command "textasciicircum" (by decide)
  -- Whatever has not been met so far is neither a symbol nor has it a command.
  · rename_i hbackslash htilde hcircumflex
    refine .plain ?_ ?_
    · simp_all [symbols]
    · simp_all [glyphs, eq_comm]

/-- What is written for a character is read as the character. -/
theorem Written.run_eq {c : Char} {text : List Char} (h : Written c text) :
    run .text text = ([.char c], .text) := by
  cases h with
  | symbol hc =>
    have hbackslash : c ≠ '\\' := ne_of_mem_of_not_mem hc (by decide)
    simp [run, step, textStep, hc, hbackslash]
  | command word hword =>
    -- There are three such commands, so each can be tried.
    have hall : ∀ glyph ∈ glyphs,
        run .text ('\\' :: (glyph.1.toList ++ ['{', '}'])) = ([.char glyph.2], .text) := by
      decide
    have hread := hall (word, c) hword
    exact hread
  | plain hsymbol hglyph =>
    have hbackslash : c ≠ '\\' := (hglyph ("textbackslash", '\\') (by decide)).symm
    have htilde : c ≠ '~' := (hglyph ("textasciitilde", '~') (by decide)).symm
    have hcircumflex : c ≠ '^' := (hglyph ("textasciicircum", '^') (by decide)).symm
    -- A character written as it is has no meaning of its own for the reader.
    have hother : ∀ d ∈ symbols, c ≠ d := fun d hd => (ne_of_mem_of_not_mem hd hsymbol).symm
    have hamp : c ≠ '&' := hother '&' (by decide)
    have hopening : c ≠ '{' := hother '{' (by decide)
    have hclosing : c ≠ '}' := hother '}' (by decide)
    simp [run, step, textStep, hsymbol, hbackslash, htilde, hcircumflex, hamp, hopening, hclosing]

/-- An escaped name is read as the name. -/
theorem cut_escape (name : String) : Cut (escape name) (chars name) := by
  rw [Cut, escape, String.toList_ofList, chars]
  induction name.toList with
  | nil => rfl
  | cons c cs ih =>
    rw [List.flatMap_cons, run_append, (written_escapeChar c).run_eq, ih]
    rfl

/-- Two names that are escaped alike are the same. -/
theorem escape_injective : Function.Injective escape := by
  intro first second h
  have hfirst : Cut (escape second) (chars first) := h ▸ cut_escape first
  have hchars : chars first = chars second := hfirst.unique (cut_escape second)
  have htoList : first.toList = second.toList :=
    List.map_injective_iff.2 (fun _ _ h => Token.char.inj h) hchars
  exact String.toList_inj.1 htoList

/-! ## What stands next to what in an escaped name -/

/-- Whether a character is a brace of the empty group behind the command for a character, given what
is before it and what is after it. -/
def InEmptyGroup (before : List Char) (c : Char) (after : List Char) : Prop :=
  ∃ glyph ∈ glyphs,
    (c = '{' ∧ '\\' :: glyph.1.toList <:+ before ∧ ['}'] <+: after) ∨
    (c = '}' ∧ '\\' :: (glyph.1.toList ++ ['{']) <:+ before)

/-- What holds of a character of an escaped name, given what is before it and what is after it: it
is no `~` and no `^`; one of the other characters with a meaning of their own has a backslash
directly before it or is in an empty group; and directly behind a backslash there is another
character, which is no backslash. -/
def Guarded (before : List Char) (c : Char) (after : List Char) : Prop :=
  (c ≠ '~' ∧ c ≠ '^') ∧
  (c ∈ symbols → ['\\'] <:+ before ∨ InEmptyGroup before c after) ∧
  (c = '\\' → after ≠ [] ∧ after.head? ≠ some '\\')

instance (before : List Char) (c : Char) (after : List Char) :
    Decidable (InEmptyGroup before c after) :=
  inferInstanceAs (Decidable (∃ glyph ∈ glyphs, _))

instance (before : List Char) (c : Char) (after : List Char) :
    Decidable (Guarded before c after) :=
  inferInstanceAs (Decidable (_ ∧ _ ∧ _))

/-- What is guarded stays so in a longer text. -/
theorem Guarded.append {before after : List Char} {c : Char} (h : Guarded before c after)
    (front behind : List Char) : Guarded (front ++ before) c (after ++ behind) := by
  obtain ⟨hother, hsymbol, hbackslash⟩ := h
  refine ⟨hother, ?_, ?_⟩
  · intro hc
    rcases hsymbol hc with
      hbefore | ⟨glyph, hglyph, ⟨hopening, hbefore, hafter⟩ | ⟨hclosing, hbefore⟩⟩
    · exact .inl (hbefore.trans (List.suffix_append _ _))
    · exact .inr ⟨glyph, hglyph, .inl ⟨hopening, hbefore.trans (List.suffix_append _ _),
        hafter.trans (List.prefix_append _ _)⟩⟩
    · exact .inr ⟨glyph, hglyph, .inr ⟨hclosing, hbefore.trans (List.suffix_append _ _)⟩⟩
  · intro hc
    obtain ⟨hne, hhead⟩ := hbackslash hc
    refine ⟨by simp [hne], ?_⟩
    rwa [List.head?_append_of_ne_nil _ hne]

/-- Within what is written for one character every special character is guarded. -/
theorem Written.guarded {c : Char} {text : List Char} (h : Written c text)
    {before after : List Char} {d : Char} (htext : text = before ++ d :: after) :
    Guarded before d after := by
  cases h with
  | symbol hc =>
    have hbackslash : c ≠ '\\' := ne_of_mem_of_not_mem hc (by decide)
    have hother : c ≠ '~' ∧ c ≠ '^' :=
      ⟨ne_of_mem_of_not_mem hc (by decide), ne_of_mem_of_not_mem hc (by decide)⟩
    rcases List.cons_eq_append_iff.1 htext with ⟨rfl, hrest⟩ | ⟨before', rfl, hrest⟩
    -- The backslash, with the character behind it.
    · obtain ⟨rfl, rfl⟩ := List.cons.inj hrest
      exact ⟨by decide, fun hd => absurd hd (by decide), fun _ => by simpa using hbackslash⟩
    -- The character, with the backslash before it.
    · obtain ⟨rfl, hend⟩ | ⟨before'', rfl, hend⟩ := List.cons_eq_append_iff.1 hrest
      · obtain ⟨rfl, rfl⟩ := List.cons.inj hend
        exact ⟨hother, fun _ => .inl (List.suffix_refl _), fun hd => absurd hd hbackslash⟩
      · simp at hend
  | command word hword =>
    -- For the three commands every position is checked.
    have hall : ∀ glyph ∈ glyphs, ∀ i < ('\\' :: (glyph.1.toList ++ ['{', '}'])).length,
        Guarded (('\\' :: (glyph.1.toList ++ ['{', '}'])).take i)
          (('\\' :: (glyph.1.toList ++ ['{', '}'])).getD i ' ')
          (('\\' :: (glyph.1.toList ++ ['{', '}'])).drop (i + 1)) := by
      decide
    have hat := hall _ hword before.length (by simp [htext])
    simpa [htext] using hat
  | plain hsymbol hglyph =>
    rcases List.cons_eq_append_iff.1 htext with ⟨rfl, hrest⟩ | ⟨before', rfl, hrest⟩
    · obtain ⟨rfl, rfl⟩ := List.cons.inj hrest
      refine ⟨⟨?_, ?_⟩, fun hd => absurd hd hsymbol, fun hd => ?_⟩
      · exact (hglyph ("textasciitilde", '~') (by decide)).symm
      · exact (hglyph ("textasciicircum", '^') (by decide)).symm
      · exact absurd hd.symm (hglyph ("textbackslash", '\\') (by decide))
    · simp at hrest

/-- Every character of an escaped name is guarded. -/
theorem guarded_of_escape_eq {name : String} {before after : List Char} {c : Char}
    (h : (escape name).toList = before ++ c :: after) : Guarded before c after := by
  rw [escape, String.toList_ofList] at h
  generalize name.toList = cs at h
  induction cs generalizing before with
  | nil => cases before <;> cases h
  | cons d cs ih =>
    rw [List.flatMap_cons, List.append_eq_append_iff] at h
    rcases h with ⟨before', rfl, hrest⟩ | ⟨after', hfirst, hrest⟩
    -- The character is in what is written for one of the later characters.
    · have hlater := (ih hrest).append (escapeChar d) []
      rwa [List.append_nil] at hlater
    · cases after' with
      | nil =>
        have hfront : Guarded [] c after := ih hrest.symm
        have hlater := hfront.append (escapeChar d) []
        rw [List.append_nil] at hfirst
        rwa [hfirst, List.append_nil, List.append_nil] at hlater
      -- It is in what is written for the first one.
      | cons c' after' =>
        obtain ⟨rfl, rfl⟩ := List.cons.inj hrest
        exact ((written_escapeChar d).guarded hfirst).append [] _

/-- In a number there is nothing to escape. -/
theorem escape_count (n : Count) : escape (toString n) = toString n := by
  have hdigits : ∀ c ∈ (toString n).toList, escapeChar c = [c] := by
    intro c hc
    have hdigit : c.isDigit = true := n.isDigit_of_mem_toString hc
    generalize htext : escapeChar c = text
    have hwritten : Written c text := htext ▸ written_escapeChar c
    -- The characters that are escaped are no digits.
    cases hwritten with
    | symbol hc =>
      have hnone : symbols.all (fun symbol => !symbol.isDigit) = true := by decide
      have hother := List.all_eq_true.1 hnone c hc
      rw [hdigit] at hother
      cases hother
    | command word hword =>
      have hnone : ∀ glyph ∈ glyphs, glyph.2.isDigit = false := by decide
      rw [hnone _ hword] at hdigit
      cases hdigit
    | plain => rfl
  have hsingletons : (toString n).toList.flatMap escapeChar = (toString n).toList := by
    rw [List.flatMap_congr hdigits, List.flatMap_singleton']
  rw [escape, hsingletons, String.ofList_toList]

/-! ## What a row is cut into -/

/-- The tokens of a row. -/
def tokens : Row → List Token
  | .header => preamble ++ .rule :: (rowTokens Row.header.cells ++ [.char '\n', .rule])
  | .summaryHeader =>
    [.rule, .rule, .cellEnd, .char ' '] ++ (rowTokens ["Files", "Lines"] ++ [.char '\n'])
  | .unidentified totals => rowTokens (Row.unidentified totals).cells ++ [.char '\n', .rule]
  | .total totals => rowTokens (Row.total totals).cells ++ [.rule]
  | .footer => postamble
  | row => rowTokens row.cells ++ [.char '\n']

/-- The cells of a row are cut apart at the signs between them. -/
theorem cut_intercalate (texts : List String) :
    Cut (" & ".intercalate (texts.map escape))
      ([Token.char ' ', .cellEnd, .char ' '].intercalate (texts.map chars)) := by
  have hbetween : Cut " & " [.char ' ', .cellEnd, .char ' '] := rfl
  -- The separator stands between two cells only, hence the case of a single one.
  induction texts with
  | nil => rfl
  | cons text others ih =>
    cases others with
    | nil =>
      rw [List.map_singleton, List.map_singleton, String.intercalate_singleton,
        List.intercalate_singleton]
      exact cut_escape text
    | cons text' others =>
      rw [List.map_cons, List.map_cons, List.map_cons, List.map_cons,
        String.intercalate_cons_cons, List.intercalate_cons_cons]
      exact ((cut_escape text).append hbetween).append ih

/-- A row is cut into its cells and what ends it. -/
theorem cut_tableRow {texts contents : List String} (h : texts.map escape = contents)
    {ending : String} {pieces : List Token} (hending : Cut (ending ++ "\n") pieces) :
    Cut (tableRow contents ending) (rowTokens texts ++ pieces) := by
  have hend : Cut "\\\\" [.rowEnd] := rfl
  rw [tableRow, ← h, String.append_assoc]
  exact ((cut_intercalate texts).append hend).append hending

/-- A row of the summary has nothing to escape if its label has not. -/
theorem cut_totalsRow {label : String} (h : escape label = label) (totals : Totals)
    {ending : String} {pieces : List Token} (hending : Cut (ending ++ "\n") pieces) :
    Cut (totalsRow label totals ending)
      (rowTokens [label, toString totals.files, toString totals.lines] ++ pieces) :=
  cut_tableRow (by simp only [List.map_cons, List.map_nil, h, escape_count]) hending

/-- A row is cut into its tokens. -/
theorem cut_row (row : Row) : Cut (Latex.row row) (tokens row) := by
  have hnewline : Cut ("" ++ "\n") [.char '\n'] := rfl
  cases row with
  | header =>
    have hopen : Cut "\\begin\x7btabular\x7d\x7b|l|l|c|\x7d\n\\hline\n" (preamble ++ [.rule]) := rfl
    have hcells : Row.header.cells.map escape = Row.header.cells := by decide
    have hrule : Cut "\\hline\n" [.rule] := rfl
    have hall := (hopen.append (cut_tableRow hcells hnewline)).append hrule
    rwa [List.append_assoc, List.append_assoc, List.append_assoc] at hall
  | category name totals =>
    exact cut_tableRow (Row.map_cells_category escape_count name totals) hnewline
  | location directory files =>
    exact cut_tableRow (Row.map_cells_location escape_count directory files) hnewline
  | summaryHeader => rfl
  | identified totals => exact cut_totalsRow (by decide) totals hnewline
  | unidentified totals =>
    have hrule : Cut ("\n\\hline" ++ "\n") [.char '\n', .rule] := rfl
    exact cut_totalsRow (by decide) totals hrule
  | total totals =>
    have hrule : Cut ("\\hline" ++ "\n") [.rule] := rfl
    exact cut_totalsRow (by decide) totals hrule
  | directories tally =>
    exact cut_tableRow (Row.map_cells_directories escape_count (by decide) tally) hnewline
  | footer => rfl

/-! ## What a row is read as -/

/-- The rules and rows of the table that a row of a report is written as. -/
def items : Row → List Item
  | .header => [.rule, .row Row.header.cells, .rule]
  | .summaryHeader => [.rule, .rule, .row Row.summaryHeader.cells]
  | .unidentified totals => [.row (Row.unidentified totals).cells, .rule]
  | .total totals => [.row (Row.total totals).cells, .rule]
  | .footer => []
  | row => [.row row.cells]

/-- The marks of a row. They depend on its kind only. -/
def marks : Row → List Token
  | .header => preamble.filter Token.isMark ++ [.rule, .cellEnd, .cellEnd, .rowEnd, .rule]
  | .category .. => [.cellEnd, .cellEnd, .rowEnd]
  | .location .. => [.cellEnd, .rowEnd]
  | .summaryHeader => [.rule, .rule, .cellEnd, .cellEnd, .rowEnd]
  | .identified _ => [.cellEnd, .cellEnd, .rowEnd]
  | .unidentified _ => [.cellEnd, .cellEnd, .rowEnd, .rule]
  | .total _ => [.cellEnd, .cellEnd, .rowEnd, .rule]
  | .directories _ => [.cellEnd, .rowEnd]
  | .footer => postamble.filter Token.isMark

/-- Without the characters of its cells a row is its marks. -/
theorem filter_isMark_tokens (row : Row) : (tokens row).filter Token.isMark = marks row := by
  cases row with
  | header => rfl
  | summaryHeader => rfl
  | footer => rfl
  | _ => simp [tokens, marks, rowTokens, Row.cells, List.intercalate_cons_cons,
      List.filter_append, filter_isMark_chars, List.filter_cons, Token.isMark]

/-- A row is read together with what stands behind it up to the next row. -/
theorem readItems_line {cells : List String} (hcells : cells ≠ []) {behind : List Token}
    {found : List Item}
    (hbehind : ∀ rest, readItems .afterRow (behind ++ rest) =
      (readItems .start rest).map (found ++ ·)) (rest : List Token) :
    readItems .start (rowTokens cells ++ behind ++ rest) =
      (readItems .start rest).map (.row cells :: found ++ ·) := by
  rw [List.append_assoc, readItems_row hcells, hbehind, Option.map_map]
  rfl

theorem readItems_newline (rest : List Token) :
    readItems .afterRow ([.char '\n'] ++ rest) = (readItems .start rest).map ([] ++ ·) := by
  simp [readItems]

/-- A rule behind a row is an item of its own. -/
theorem readItems_rule {behind : List Token} (h : behind = [.rule] ∨ behind = [.char '\n', .rule])
    (rest : List Token) :
    readItems .afterRow (behind ++ rest) = (readItems .start rest).map ([.rule] ++ ·) := by
  rcases h with rfl | rfl
  · rfl
  · rfl

/-- The rows of the two parts of a report are read one after the other. -/
theorem readItems_tokens {row : Row} (h : row.isBody = true ∨ row.isSummary = true)
    (rest : List Token) :
    readItems .start (tokens row ++ rest) = (readItems .start rest).map (items row ++ ·) := by
  have hcells : row.cells ≠ [] := by
    cases row <;> simp_all [Row.cells, Row.isBody, Row.isSummary]
  cases row with
  | header => rcases h with h | h <;> cases h
  | summaryHeader => rcases h with h | h <;> cases h
  | footer => rcases h with h | h <;> cases h
  | category name totals => exact readItems_line hcells readItems_newline rest
  | location directory files => exact readItems_line hcells readItems_newline rest
  | identified totals => exact readItems_line hcells readItems_newline rest
  | unidentified totals => exact readItems_line hcells (readItems_rule (.inr rfl)) rest
  | total totals => exact readItems_line hcells (readItems_rule (.inl rfl)) rest
  | directories tally => exact readItems_line hcells readItems_newline rest

/-- The heading of the summary is read as the rules and the row that it is. -/
theorem readItems_summaryHeader (rest : List Token) :
    readItems .start (tokens .summaryHeader ++ rest) =
      (readItems .start rest).map (items .summaryHeader ++ ·) := by
  have hstep : readItems .start (tokens .summaryHeader ++ rest) =
      (((readItems .start rest).map (.row Row.summaryHeader.cells :: ·)).map
        (.rule :: ·)).map (.rule :: ·) := rfl
  rw [hstep, Option.map_map, Option.map_map]
  rfl

/-- The first row is read behind the beginning of the table. -/
theorem readItems_header (rest : List Token) :
    ((tokens .header ++ rest).dropPrefix? preamble).bind (readItems .start) =
      (readItems .start rest).map (items .header ++ ·) := by
  have hcells : Row.header.cells ≠ [] := List.cons_ne_nil _ _
  have hpreamble : (tokens .header ++ rest).dropPrefix? preamble =
      some (.rule :: (rowTokens Row.header.cells ++ [.char '\n', .rule] ++ rest)) := rfl
  have hrule : ∀ pieces, readItems .start (.rule :: pieces) =
      (readItems .start pieces).map (.rule :: ·) := fun _ => rfl
  rw [hpreamble, Option.bind_some, hrule, readItems_line hcells (readItems_rule (.inr rfl)),
    Option.map_map]
  rfl

/-- Rows are read one after the other. -/
theorem readItems_flatMap {rows : List Row}
    (h : ∀ row ∈ rows, row.isBody = true ∨ row.isSummary = true) (rest : List Token) :
    readItems .start (rows.flatMap tokens ++ rest) =
      (readItems .start rest).map (rows.flatMap items ++ ·) := by
  induction rows with
  | nil => simp
  | cons row rows ih =>
    obtain ⟨hrow, hrest⟩ := List.forall_mem_cons.1 h
    rw [List.flatMap_cons, List.append_assoc, readItems_tokens hrow, ih hrest, Option.map_map,
      List.flatMap_cons]
    simp only [Function.comp_def, List.append_assoc]

end Report.Latex

/-! ## Reading a report back -/

namespace LatexReader

/-- The cells of a row of a table. -/
def Item.cells? : Item → Option (List String)
  | .rule => none
  | .row cells => some cells

/-- Whether an item is a row. -/
def Item.isRow (item : Item) : Bool := item.cells?.isSome

/-- The rows of a report in LaTeX. The first part of the report ends at the two rules that stand
one after the other. -/
def decode? (text : String) : Option (List Row) :=
  match table? text with
  | some (.rule :: .row _ :: .rule :: items) =>
    match items.span Item.isRow with
    | (body, .rule :: .rule :: .row _ :: summary) =>
      rowsOfCells? (body.filterMap Item.cells?) (summary.filterMap Item.cells?)
    | _ => none
  | _ => none

/-- The rows end where a rule stands. -/
theorem span_rows (rows : List (List String)) (rest : List Item) :
    (rows.map Item.row ++ .rule :: rest).span Item.isRow = (rows.map Item.row, .rule :: rest) := by
  apply span_append_cons
  · intro item h
    obtain ⟨cells, -, rfl⟩ := List.mem_map.1 h
    rfl
  · rfl

theorem filterMap_rows (rows : List (List String)) :
    (rows.map Item.row).filterMap Item.cells? = rows := by
  rw [List.filterMap_map]
  exact List.filterMap_some

open Report.Latex

theorem items_of_isBody {row : Row} (h : row.isBody = true) : items row = [.row row.cells] := by
  cases row <;> first | rfl | cases h

/-- A row of the summary is one row of cells, with a rule or without. -/
theorem filterMap_items {row : Row} (h : row.isSummary = true) :
    (items row).filterMap Item.cells? = [row.cells] := by
  cases row <;> first | rfl | cases h

section Render

variable (report : Report) (showLocations : Bool)

/-- A report is cut into the tokens of its rows. -/
theorem cut_render : Cut (report.render .latex showLocations)
    ((report.rows showLocations).flatMap tokens) :=
  Cut.join cut_row _

/-- A report is read as one table, with its names and numbers in the cells of its rows. -/
theorem table?_render : table? (report.render .latex showLocations) =
    some ((report.rows showLocations).flatMap items) := by
  have hbody : ∀ row ∈ report.bodyRows showLocations, row.isBody = true ∨ row.isSummary = true :=
    fun row h => .inl (report.isBody_of_mem showLocations h)
  have hsummary : ∀ row ∈ report.summaryBody showLocations,
      row.isBody = true ∨ row.isSummary = true :=
    fun row h => .inr (report.isSummary_of_mem showLocations h)
  have hfooter : readItems .start (tokens .footer) = some (items .footer) := rfl
  have htable : table? (report.render .latex showLocations) =
      (((report.rows showLocations).flatMap tokens).dropPrefix? preamble).bind
        (readItems .start) := by
    rw [table?, (cut_render report showLocations).tokens?_eq]
    rfl
  rw [htable, Report.rows_eq, List.flatMap_cons, readItems_header, List.flatMap_append,
    readItems_flatMap hbody, List.flatMap_cons, readItems_summaryHeader, List.flatMap_append,
    readItems_flatMap hsummary, List.flatMap_singleton, hfooter]
  simp only [Option.map_some, List.flatMap_cons, List.flatMap_append, List.flatMap_nil,
    List.append_nil]

/-- The rows of a report are read back from its LaTeX. -/
theorem decode?_render :
    decode? (report.render .latex showLocations) = some (report.rows showLocations) := by
  have hbody : (report.bodyRows showLocations).flatMap items =
      ((report.bodyRows showLocations).map Row.cells).map Item.row := by
    rw [List.flatMap_congr fun row h => items_of_isBody (report.isBody_of_mem showLocations h),
      List.map_map]
    exact List.map_eq_flatMap.symm
  have hsummary : ((report.summaryBody showLocations).flatMap items).filterMap Item.cells? =
      (report.summaryBody showLocations).map Row.cells := by
    rw [List.filterMap_flatMap, List.flatMap_congr fun row h =>
      filterMap_items (report.isSummary_of_mem showLocations h)]
    exact List.map_eq_flatMap.symm
  have hitems : (report.rows showLocations).flatMap items =
      .rule :: .row Row.header.cells :: .rule ::
        (((report.bodyRows showLocations).map Row.cells).map Item.row ++
          .rule :: .rule :: .row Row.summaryHeader.cells ::
            (report.summaryBody showLocations).flatMap items) := by
    rw [Report.rows_eq, List.flatMap_cons, List.flatMap_append, hbody, List.flatMap_cons,
      List.flatMap_append, List.flatMap_singleton, show items .footer = [] from rfl,
      List.append_nil]
    rfl
  rw [decode?, table?_render, hitems]
  simp only [span_rows, filterMap_rows, hsummary]
  exact rowsOfCells?_cells report showLocations

/-- The LaTeX of a report is lossless, and names cannot break it. The rows of a report can be
read back from its LaTeX, so two reports have the same LaTeX exactly when they have the same rows.
Two names are never escaped alike, and every character of an escaped name is guarded. Which marks of
the table there are is decided by the kinds of the rows alone, and the cells hold the names as they
are: a category has three cells and a directory two, and no name can add or end a cell, a row or the
table. -/
theorem decode?_render_latex :
    decode? (report.render .latex showLocations) = some (report.rows showLocations) ∧
    (∀ (report' : Report) (showLocations' : Bool),
      report'.render .latex showLocations' = report.render .latex showLocations ↔
        report'.rows showLocations' = report.rows showLocations) ∧
    Function.Injective escape ∧
    (∀ (name : String) (before : List Char) (c : Char) (after : List Char),
      (escape name).toList = before ++ c :: after → Guarded before c after) ∧
    (tokens? (report.render .latex showLocations)).map (·.filter Token.isMark) =
      some ((report.rows showLocations).flatMap marks) ∧
    table? (report.render .latex showLocations) =
      some ((report.rows showLocations).flatMap items) := by
  refine ⟨decode?_render report showLocations, ?_, escape_injective, ?_, ?_,
    table?_render report showLocations⟩
  · intro report' showLocations'
    exact Report.render_eq_iff (decode?_render report showLocations)
      (decode?_render report' showLocations')
  · intro name before c after h
    exact guarded_of_escape_eq h
  · rw [(cut_render report showLocations).tokens?_eq, Option.map_some, List.filter_flatMap]
    apply congrArg some
    apply List.flatMap_congr
    intro row _
    exact filter_isMark_tokens row

end Render

/-- A brace behind the command for a backslash needs no backslash of its own, and one of the name
gets one. -/
theorem decode?_render_latex_braces :
    (escape "\\\x7d").toList = "\\textbackslash".toList ++ '{' :: "\x7d\\\x7d".toList ∧
      Guarded "\\textbackslash".toList '{' "\x7d\\\x7d".toList := by
  have htext : (escape "\\\x7d").toList =
      "\\textbackslash".toList ++ '{' :: "\x7d\\\x7d".toList := by decide
  obtain ⟨-, -, -, hguarded, -⟩ := decode?_render_latex .empty false
  exact ⟨htext, hguarded _ _ _ _ htext⟩

end LatexReader

end SourceSurvey
