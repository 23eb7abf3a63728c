import Mathlib.Data.List.Basic
import Mathlib.Data.List.TakeDrop
import SourceSurvey.Proofs.Report.HtmlReader
import SourceSurvey.Report.Render

/-!
# The HTML of a report is lossless

A report in HTML is two tables. Each row of the report is a row of one of them, and its cells hold
the names and numbers of the row as they are (`Row.cells`), for the escaping of a name is undone
when the text is read (`cut_escape`). The kind of a row is told by its table, by the number of its
cells and in the second table by its first cell, so the rows can be read back (`decode?`).

`decode?_render_html` says so for every report, and that the tags are properly nested and do not
depend on names.
-/

set_option autoImplicit false

namespace SourceSurvey

open HtmlReader

/-! ## What a row is cut into -/

namespace Row

/-- The texts of the cells of a row. -/
def cells : Row → List String
  | .header => ["Type", "Number", "Lines"]
  | .category name totals => [name, toString totals.files, toString totals.lines]
  | .location directory files => [directory, toString files]
  | .summaryHeader => ["", "Files", "Lines"]
  | .identified totals => ["Identified Code", toString totals.files, toString totals.lines]
  | .unidentified totals => ["Unknown", toString totals.files, toString totals.lines]
  | .total totals => ["Total", toString totals.files, toString totals.lines]
  | .directories tally => ["Number of directories", toString tally]
  | .footer => []

/-- The tags of a row. They depend on its kind only. -/
def tags : Row → List Token
  | .header => .opening .table :: rowTags 3
  | .category .. => rowTags 3
  | .location .. => rowTags 2
  | .summaryHeader =>
    [.closing .table, .opening .lineBreak, .opening .table] ++ rowTags 3
  | .identified _ => rowTags 3
  | .unidentified _ => rowTags 3
  | .total _ => rowTags 3
  | .directories _ => rowTags 2
  | .footer => [.closing .table]

/-- The tokens of a row. -/
def tokens : Row → List Token
  | .header => .opening .table :: (rowTokens header.cells ++ [.char '\n'])
  | .summaryHeader =>
    [.closing .table, .opening .lineBreak, .char '\n', .opening .table, .char '\n'] ++
      (rowTokens summaryHeader.cells ++ [.char '\n'])
  | .footer => [.closing .table, .char '\n']
  | row => rowTokens row.cells ++ [.char '\n']

section Escaping

variable {escape : String → String} (hcount : ∀ n : Count, escape (toString n) = toString n)

include hcount

/-- If numbers are written as they are, only the name of a category is escaped in its row. -/
theorem map_cells_category (name : String) (totals : Totals) :
    (category name totals).cells.map escape =
      [escape name, toString totals.files, toString totals.lines] := by
  simp only [cells, List.map_cons, List.map_nil, hcount]

theorem map_cells_location (directory : String) (files : Count) :
    (location directory files).cells.map escape = [escape directory, toString files] := by
  simp only [cells, List.map_cons, List.map_nil, hcount]

/-- The row of the tally has nothing to escape if its label has not. -/
theorem map_cells_directories (hlabel : escape "Number of directories" = "Number of directories")
    (tally : Count) : (directories tally).cells.map escape = (directories tally).cells := by
  simp only [cells, List.map_cons, List.map_nil, hlabel, hcount]

end Escaping

end Row

/-- A counter is written in decimal digits. -/
theorem Count.isDigit_of_mem_toString (n : Count) {c : Char} (h : c ∈ (toString n).toList) :
    c.isDigit = true := by
  have htoList : (toString n).toList = Nat.toDigits 10 n.toNat := Nat.toList_repr
  rw [htoList] at h
  exact Nat.isDigit_of_mem_toDigits (by decide) (by decide) h

namespace Report.Html

/-- What is written for a character is read as that character, and opens no tag. -/
theorem tokensFrom_escapeChar (c : Char) (rest : List Char) :
    tokensFrom .text (escapeChar c ++ rest) = .char c :: tokensFrom .text rest := by
  unfold escapeChar
  split
  · rfl
  · rfl
  · rfl
  · rfl
  -- Any other character opens neither a tag nor a reference.
  · rename_i hreference hopen _ _
    rw [List.singleton_append, tokensFrom, if_neg hopen, if_neg hreference]

/-- An escaped name is read as the name. -/
theorem cut_escape (name : String) : Cut (escape name) (name.toList.map .char) := by
  intro rest
  rw [escape, String.toList_ofList]
  induction name.toList with
  | nil => rfl
  | cons c chars ih =>
    rw [List.flatMap_cons, List.append_assoc, tokensFrom_escapeChar, ih]
    rfl

/-- A cell is cut into its tags and the characters of its text. -/
theorem cut_cell (text : String) : Cut (cell (escape text)) (cellTokens text) := by
  have hopen : Cut "<td>" [.opening .cell] := fun _ => rfl
  have hclose : Cut "</td>" [.closing .cell] := fun _ => rfl
  exact (hopen.append (cut_escape text)).append hclose

/-- A row of a table is cut cell by cell. -/
theorem cut_tableRow {texts contents : List String} (h : texts.map escape = contents) :
    Cut (tableRow contents) (rowTokens texts) := by
  have hopen : Cut "<tr>" [.opening .row] := fun _ => rfl
  have hclose : Cut "</tr>" [.closing .row] := fun _ => rfl
  rw [tableRow, ← h, List.map_map]
  exact (hopen.append (Cut.join cut_cell texts)).append hclose

/-- In a number there is nothing to escape. -/
theorem escape_count (n : Count) : escape (toString n) = toString n := by
  have hdigits : ∀ c ∈ (toString n).toList, escapeChar c = [c] := by
    intro c hc
    have hdigit : c.isDigit = true := n.isDigit_of_mem_toString hc
    -- The characters that are escaped are no digits.
    unfold escapeChar
    split
    · exact absurd hdigit (by decide)
    · exact absurd hdigit (by decide)
    · exact absurd hdigit (by decide)
    · exact absurd hdigit (by decide)
    · rfl
  have hsingletons : (toString n).toList.flatMap escapeChar = (toString n).toList := by
    rw [List.flatMap_congr hdigits, List.flatMap_singleton']
  rw [escape, hsingletons, String.ofList_toList]

/-- A row of the summary has nothing to escape if its label has not. -/
theorem cut_totalsRow {label : String} (h : escape label = label) (totals : Totals) :
    Cut (totalsRow label totals)
      (rowTokens [label, toString totals.files, toString totals.lines]) :=
  cut_tableRow (by simp only [List.map_cons, List.map_nil, h, escape_count])

/-- A row is cut into its tokens. -/
theorem cut_row (row : Row) : Cut (Html.row row) row.tokens := by
  have hnewline : Cut "\n" [.char '\n'] := fun _ => rfl
  cases row with
  | header =>
    have hopen : Cut "<table>" [.opening .table] := fun _ => rfl
    have hcells : Row.header.cells.map escape = Row.header.cells := by decide
    exact (hopen.append (cut_tableRow hcells)).append hnewline
  -- Only the rows of categories and directories hold a name; the numbers and labels of the others
  -- have nothing to escape.
  | category name totals =>
    have hcells := Row.map_cells_category escape_count name totals
    exact (cut_tableRow hcells).append hnewline
  | location directory files =>
    have hcells := Row.map_cells_location escape_count directory files
    exact (cut_tableRow hcells).append hnewline
  | summaryHeader =>
    have hbetween : Cut "</table><br>\n<table>\n"
        [.closing .table, .opening .lineBreak, .char '\n', .opening .table, .char '\n'] :=
      fun _ => rfl
    have hcells : Row.summaryHeader.cells.map escape = Row.summaryHeader.cells := by decide
    exact (hbetween.append (cut_tableRow hcells)).append hnewline
  | identified totals => exact (cut_totalsRow (by decide) totals).append hnewline
  | unidentified totals => exact (cut_totalsRow (by decide) totals).append hnewline
  | total totals => exact (cut_totalsRow (by decide) totals).append hnewline
  | directories tally =>
    have hcells := Row.map_cells_directories escape_count (by decide) tally
    exact (cut_tableRow hcells).append hnewline
  | footer => exact fun _ => rfl

end Report.Html

/-! ## The rows of a report by their kind -/

namespace Row

/-- Whether a row stands below the heading of the categories. -/
def isBody : Row → Bool
  | .category .. => true
  | .location .. => true
  | _ => false

/-- Whether a row stands below the heading of the summary. -/
def isSummary : Row → Bool
  | .identified _ => true
  | .unidentified _ => true
  | .total _ => true
  | .directories _ => true
  | _ => false

theorem tokens_of_isBody {row : Row} (h : row.isBody = true) :
    row.tokens = rowTokens row.cells ++ [.char '\n'] := by
  cases row <;> first | rfl | cases h

theorem tokens_of_isSummary {row : Row} (h : row.isSummary = true) :
    row.tokens = rowTokens row.cells ++ [.char '\n'] := by
  cases row <;> first | rfl | cases h

/-- Without the characters of its cells a row is its tags. -/
theorem filter_isTag_tokens (row : Row) : row.tokens.filter Token.isTag = row.tags := by
  have hrow : ∀ cells : List String,
      (rowTokens cells ++ [Token.char '\n']).filter Token.isTag = rowTags cells.length := by
    intro cells
    rw [List.filter_append, filter_isTag_rowTokens]
    exact List.append_nil _
  cases row with
  | header => exact congrArg (Token.opening .table :: ·) (hrow header.cells)
  | summaryHeader =>
    exact congrArg ([Token.closing .table, .opening .lineBreak, .opening .table] ++ ·)
      (hrow summaryHeader.cells)
  | footer => rfl
  | category name totals => exact hrow _
  | location directory files => exact hrow _
  | identified totals => exact hrow _
  | unidentified totals => exact hrow _
  | total totals => exact hrow _
  | directories tally => exact hrow _

end Row

namespace Report

/-- The rows of all categories. -/
def bodyRows (report : Report) (showLocations : Bool) : List Row :=
  report.categories.flatMap (report.categoryRows showLocations)

/-- The rows of the summary without its heading and the end. -/
def summaryBody (report : Report) (showLocations : Bool) : List Row :=
  [.identified report.identified] ++ (report.unidentified?.map Row.unidentified).toList ++
    [.total report.grandTotal] ++ (if showLocations then [.directories report.tally] else [])

variable (report : Report) (showLocations : Bool)

/-- The rows of a report are those of the categories and those of the summary, with headings and an
end. -/
theorem rows_eq : report.rows showLocations =
    .header :: (report.bodyRows showLocations ++
      .summaryHeader :: (report.summaryBody showLocations ++ [.footer])) := by
  simp only [rows, summaryRows, bodyRows, summaryBody, List.cons_append, List.nil_append,
    List.append_assoc]

/-- The rows of the categories are categories and directories. -/
theorem isBody_of_mem {row : Row} (h : row ∈ report.bodyRows showLocations) :
    row.isBody = true := by
  obtain ⟨category, -, h⟩ := List.mem_flatMap.1 h
  rcases List.mem_cons.1 h with rfl | h
  · rfl
  · split at h
    · unfold locationRows at h
      split at h
      · cases h
      · obtain ⟨e, -, rfl⟩ := List.mem_map.1 h
        rfl
    · cases h

/-- The rows of the summary are sums and the tally. -/
theorem isSummary_of_mem {row : Row} (h : row ∈ report.summaryBody showLocations) :
    row.isSummary = true := by
  simp only [summaryBody, List.mem_append, List.mem_singleton, Option.mem_toList,
    Option.map_eq_some_iff] at h
  rcases h with ((rfl | ⟨totals, -, rfl⟩) | rfl) | h
  · rfl
  · rfl
  · rfl
  · split at h
    · rw [List.mem_singleton.1 h]
      rfl
    · cases h

/-- Reports whose rows can be read back from their texts have the same text exactly when they have
the same rows. -/
theorem render_eq_iff {format : Format} {decode : String → Option (List Row)}
    {report report' : Report} {showLocations showLocations' : Bool}
    (h : decode (report.render format showLocations) = some (report.rows showLocations))
    (h' : decode (report'.render format showLocations') = some (report'.rows showLocations')) :
    report'.render format showLocations' = report.render format showLocations ↔
      report'.rows showLocations' = report.rows showLocations := by
  constructor
  · intro htext
    rw [htext, h] at h'
    exact (Option.some.inj h').symm
  · intro hrows
    rw [render, render, hrows]

end Report

/-! ## Reading a report back -/

/-- The counter that a number in decimal digits is of, if it fits. -/
def Count.ofDigits? (digits : String) : Option Count :=
  let n := Nat.ofDigitChars 10 digits.toList 0
  if h : n < UInt64.size then some ⟨n, h⟩ else none

/-- A counter is read back from its digits. -/
theorem Count.ofDigits?_toString (n : Count) : ofDigits? (toString n) = some n := by
  have hdigits : Nat.ofDigitChars 10 (toString n).toList 0 = n.toNat := by
    have htoList : (toString n).toList = Nat.toDigits 10 n.toNat := Nat.toList_repr
    rw [htoList, Nat.ofDigitChars_toDigits (by decide) (by decide)]
  unfold ofDigits?
  simp only [hdigits]
  exact dif_pos n.toNat_lt

namespace HtmlReader

/-- The row of the first table with these cells: with three cells a category, with two a
directory. -/
def bodyRow? : List String → Option Row
  | [name, files, lines] => do
    return .category name ⟨← Count.ofDigits? files, ← Count.ofDigits? lines⟩
  | [directory, files] => do
    return .location directory (← Count.ofDigits? files)
  | _ => none

/-- The row of the summary with these cells, told by its label. -/
def summaryRow? : List String → Option Row
  | [label, files, lines] => do
    let totals : Totals := ⟨← Count.ofDigits? files, ← Count.ofDigits? lines⟩
    match label with
    | "Identified Code" => return .identified totals
    | "Unknown" => return .unidentified totals
    | "Total" => return .total totals
    | _ => none
  | ["Number of directories", tally] => do
    return .directories (← Count.ofDigits? tally)
  | _ => none

/-- The rows of a report from the cells of the rows of its two parts. -/
def rowsOfCells? (body summary : Table) : Option (List Row) := do
  return .header :: ((← body.mapM bodyRow?) ++
    .summaryHeader :: ((← summary.mapM summaryRow?) ++ [.footer]))

/-- The rows of a report in HTML. -/
def decode? (text : String) : Option (List Row) :=
  match tables? text with
  | some [_ :: body, _ :: summary] => rowsOfCells? body summary
  | _ => none

/-- A row of a category or a directory is read back from its cells. -/
theorem bodyRow?_cells {row : Row} (h : row.isBody = true) : bodyRow? row.cells = some row := by
  cases row with
  | category name totals => simp [Row.cells, bodyRow?, Count.ofDigits?_toString]
  | location directory files => simp [Row.cells, bodyRow?, Count.ofDigits?_toString]
  | _ => cases h

/-- A row of the summary is read back from its cells, for its label is one of four. -/
theorem summaryRow?_cells {row : Row} (h : row.isSummary = true) :
    summaryRow? row.cells = some row := by
  cases row with
  | identified totals => simp [Row.cells, summaryRow?, Count.ofDigits?_toString]
  | unidentified totals => simp [Row.cells, summaryRow?, Count.ofDigits?_toString]
  | total totals => simp [Row.cells, summaryRow?, Count.ofDigits?_toString]
  | directories tally => simp [Row.cells, summaryRow?, Count.ofDigits?_toString]
  | _ => cases h

/-- Rows are read back one by one. -/
theorem mapM_cells {read : List String → Option Row} {rows : List Row}
    (h : ∀ row ∈ rows, read row.cells = some row) : (rows.map Row.cells).mapM read = some rows := by
  induction rows with
  | nil => rfl
  | cons row rows ih =>
    obtain ⟨hrow, hrest⟩ := List.forall_mem_cons.1 h
    rw [List.map_cons, List.mapM_cons, hrow, ih hrest]
    rfl

/-- A first part that ends at the first element without a property. -/
theorem span_append_cons {α : Type} {p : α → Bool} {first : List α} (h : ∀ x ∈ first, p x = true)
    {y : α} (hy : p y = false) (rest : List α) :
    (first ++ y :: rest).span p = (first, y :: rest) := by
  rw [List.span_eq_takeWhile_dropWhile, List.takeWhile_append_of_pos h,
    List.dropWhile_append_of_pos h, List.takeWhile_cons_of_neg (by simp [hy]),
    List.dropWhile_cons_of_neg (by simp [hy]), List.append_nil]

/-- All rows of a report are read back from the cells of its two parts. -/
theorem rowsOfCells?_cells (report : Report) (showLocations : Bool) :
    rowsOfCells? ((report.bodyRows showLocations).map Row.cells)
      ((report.summaryBody showLocations).map Row.cells) = some (report.rows showLocations) := by
  have hbody : ((report.bodyRows showLocations).map Row.cells).mapM bodyRow? =
      some (report.bodyRows showLocations) :=
    mapM_cells fun row h => bodyRow?_cells (report.isBody_of_mem showLocations h)
  have hsummary : ((report.summaryBody showLocations).map Row.cells).mapM summaryRow? =
      some (report.summaryBody showLocations) :=
    mapM_cells fun row h => summaryRow?_cells (report.isSummary_of_mem showLocations h)
  rw [rowsOfCells?, hbody, hsummary, Report.rows_eq]
  rfl

/-- Rows that are written as rows of a table are added to the table. -/
theorem readTables_rows {rows : List Row}
    (h : ∀ row ∈ rows, row.tokens = rowTokens row.cells ++ [.char '\n']) (found : Table)
    (rest : List Token) :
    readTables (.inTable found) (rows.flatMap Row.tokens ++ rest) =
      readTables (.inTable (found ++ rows.map Row.cells)) rest := by
  induction rows generalizing found with
  | nil => rw [List.flatMap_nil, List.nil_append, List.map_nil, List.append_nil]
  | cons row rows ih =>
    obtain ⟨hrow, hrest⟩ := List.forall_mem_cons.1 h
    rw [List.flatMap_cons, List.append_assoc, hrow, List.append_assoc, readTables_row,
      List.cons_append, List.nil_append, readTables, ih hrest, List.map_cons, List.append_assoc]
    rfl

section Render

variable (report : Report) (showLocations : Bool)

/-- A report is cut into the tokens of its rows. -/
theorem tokens_render :
    tokens (report.render .html showLocations) =
      (report.rows showLocations).flatMap Row.tokens :=
  (Cut.join Report.Html.cut_row _).tokens_eq

/-- A report is read as two tables, with its names and numbers in their cells. -/
theorem tables?_render :
    tables? (report.render .html showLocations) =
      some [(.header :: report.bodyRows showLocations).map Row.cells,
        (.summaryHeader :: report.summaryBody showLocations).map Row.cells] := by
  have hbody : ∀ row ∈ report.bodyRows showLocations,
      row.tokens = rowTokens row.cells ++ [.char '\n'] := by
    intro row h
    exact Row.tokens_of_isBody (report.isBody_of_mem showLocations h)
  have hsummary : ∀ row ∈ report.summaryBody showLocations,
      row.tokens = rowTokens row.cells ++ [.char '\n'] := by
    intro row h
    exact Row.tokens_of_isSummary (report.isSummary_of_mem showLocations h)
  -- The rows of both tables add to the table; the three other rows open and close the tables.
  have hheader : ∀ rest, readTables .outside (Row.header.tokens ++ rest) =
      readTables (.inTable [Row.header.cells]) rest := by
    intro rest
    rw [Row.tokens, List.cons_append, readTables, List.append_assoc, readTables_row]
    rfl
  have hbetween : ∀ found rest, readTables (.inTable found) (Row.summaryHeader.tokens ++ rest) =
      (readTables (.inTable [Row.summaryHeader.cells]) rest).map (found :: ·) := by
    intro found rest
    rw [Row.tokens, List.append_assoc, List.append_assoc]
    simp only [List.cons_append, List.nil_append, readTables, readTables_row]
  have hfooter : ∀ found, readTables (.inTable found) Row.footer.tokens = some [found] :=
    fun _ => rfl
  -- Heading, body, heading, body, end: each part is read in the state that the one before it
  -- leaves.
  rw [tables?, tokens_render, Report.rows_eq, List.flatMap_cons, hheader, List.flatMap_append,
    readTables_rows hbody, List.flatMap_cons, hbetween, List.flatMap_append,
    readTables_rows hsummary, List.flatMap_singleton, hfooter]
  rfl

/-- The rows of a report are read back from its HTML. -/
theorem decode?_render :
    decode? (report.render .html showLocations) = some (report.rows showLocations) := by
  rw [decode?, tables?_render]
  exact rowsOfCells?_cells report showLocations

/-- The HTML of a report is lossless, and names cannot break it. The rows of a report can be read
back from its HTML, so two reports have the same HTML exactly when they have the same rows. The tags
of tables, rows and cells open and close in proper nesting. Which tags there are is decided by the
kinds of the rows alone, and the cells hold the names as they are: no name can add, remove or end
anything. -/
theorem decode?_render_html :
    decode? (report.render .html showLocations) = some (report.rows showLocations) ∧
    (∀ (report' : Report) (showLocations' : Bool),
      report'.render .html showLocations' = report.render .html showLocations ↔
        report'.rows showLocations' = report.rows showLocations) ∧
    Nested [] (tokens (report.render .html showLocations)) ∧
    (tokens (report.render .html showLocations)).filter Token.isTag =
      (report.rows showLocations).flatMap Row.tags ∧
    tables? (report.render .html showLocations) =
      some [(.header :: report.bodyRows showLocations).map Row.cells,
        (.summaryHeader :: report.summaryBody showLocations).map Row.cells] := by
  refine ⟨decode?_render report showLocations, ?_,
    nested_of_readTables (tables?_render report showLocations), ?_,
    tables?_render report showLocations⟩
  · intro report' showLocations'
    exact Report.render_eq_iff (decode?_render report showLocations)
      (decode?_render report' showLocations')
  · rw [tokens_render, List.filter_flatMap]
    apply List.flatMap_congr
    intro row _
    exact Row.filter_isTag_tokens row

end Render

end HtmlReader

end SourceSurvey
