import SourceSurvey.Proofs.Report.HtmlLossless

/-!
# The plain text of a report is unambiguous

In plain text nothing is escaped: a report is lines of fields with tabs between them, and a name is
one field only if it holds neither a tab nor a line feed (`IsField`). The text is then read as the
fields that were written (`grid_render`). A blank line ends the categories. Before it the number of
the fields of a line tells whether it is a category or a directory (`bodyCells?`), and behind it the
label does, so the rows can be read back (`decode?`).

`decode?_render_plain` says so for every report whose names are fields.
-/

set_option autoImplicit false

namespace SourceSurvey

/-! ## Texts as lines of fields -/

namespace PlainReader

/-- Whether a text can stand between two tabs. -/
def IsField (text : String) : Prop := '\t' ∉ text.toList ∧ '\n' ∉ text.toList

instance (text : String) : Decidable (IsField text) := inferInstanceAs (Decidable (_ ∧ _))

/-- A line with these fields, as characters. -/
def lineOf (fields : List String) : List Char := ['\t'].intercalate (fields.map String.toList)

/-- The lines of a text, each as its fields. -/
def grid (text : String) : List (List String) :=
  (text.toList.splitOn '\n').map fun line => (line.splitOn '\t').map String.ofList

theorem newline_notMem_lineOf {fields : List String} (h : ∀ field ∈ fields, IsField field) :
    '\n' ∉ lineOf fields := by
  unfold lineOf
  induction fields with
  | nil => exact List.not_mem_nil
  | cons field others ih =>
    obtain ⟨hfield, hothers⟩ := List.forall_mem_cons.1 h
    cases others with
    | nil => simpa using hfield.2
    | cons field' others =>
      have hrest := ih hothers
      simp only [List.map_cons, List.intercalate_cons_cons, List.mem_append] at hrest ⊢
      rintro ((hmem | hmem) | hmem)
      · exact hfield.2 hmem
      · exact absurd hmem (by decide)
      · exact hrest hmem

/-- A line is read as its fields. -/
theorem splitOn_lineOf {fields : List String} (hne : fields ≠ [])
    (h : ∀ field ∈ fields, IsField field) :
    ((lineOf fields).splitOn '\t').map String.ofList = fields := by
  have hsplit : (lineOf fields).splitOn '\t' = fields.map String.toList := by
    apply List.splitOn_intercalate
    · intro line hline
      obtain ⟨field, hfield, rfl⟩ := List.mem_map.1 hline
      exact (h field hfield).1
    · simpa using hne
  rw [hsplit, List.map_map]
  simp [Function.comp_def]

/-- Lines that are written one after the other are read as they were written. What is behind the
last line feed is one more line. -/
theorem grid_of_toList {lines : List (List String)} {text : String}
    (htext : text.toList = lines.flatMap fun fields => lineOf fields ++ ['\n'])
    (hne : ∀ fields ∈ lines, fields ≠ [])
    (h : ∀ fields ∈ lines, ∀ field ∈ fields, IsField field) : grid text = lines ++ [[""]] := by
  rw [grid, htext]
  clear htext
  induction lines with
  | nil => rfl
  | cons fields others ih =>
    obtain ⟨hfields, hothers⟩ := List.forall_mem_cons.1 h
    obtain ⟨hfieldsNe, hothersNe⟩ := List.forall_mem_cons.1 hne
    have hline : ∀ c ∈ lineOf fields, (c == '\n') = false := by
      intro c hc
      rw [beq_eq_false_iff_ne]
      rintro rfl
      exact newline_notMem_lineOf hfields hc
    rw [List.flatMap_cons, List.append_assoc, List.singleton_append, List.splitOn,
      List.splitOnP_append_cons_of_forall_mem hline _ (by decide), ← List.splitOn, List.map_cons,
      splitOn_lineOf hfieldsNe hfields, ih hothersNe hothers]
    rfl

end PlainReader

open PlainReader

/-! ## The lines of a row -/

namespace Report.Plain

/-- The lines of a row, each as its fields. -/
def lines : Row → List (List String)
  | .header => [["Type", "", "Number", "", "Lines"]]
  | .category name totals => [[name, "", toString totals.files, "", toString totals.lines]]
  | .location directory files => [["", directory, toString files]]
  | .summaryHeader => [[""], ["", "", "", "Files", "Lines"]]
  | .identified totals =>
    [["Identified Code", "", toString totals.files, toString totals.lines], [""]]
  | .unidentified totals =>
    [["Unknown", "", "", toString totals.files, toString totals.lines], [""]]
  | .total totals => [["Total", "", "", toString totals.files, toString totals.lines], [""]]
  | .directories tally => [["Number of directories", toString tally]]
  | .footer => []

/-- A row is written as its lines. -/
theorem toList_row (row : Row) :
    (Plain.row row).toList = (lines row).flatMap fun fields => lineOf fields ++ ['\n'] := by
  cases row with
  | _ => simp [Plain.row, line, lines, lineOf, List.intercalate_cons_cons, String.join]

theorem lines_ne_nil (row : Row) : ∀ fields ∈ lines row, fields ≠ [] := by
  cases row <;> simp [lines]

/-- The names in a row. -/
def names : Row → List String
  | .category name _ => [name]
  | .location directory _ => [directory]
  | _ => []

theorem isField_count (n : Count) : IsField (toString n) := by
  constructor
  · intro h
    exact absurd (n.isDigit_of_mem_toString h) (by decide)
  · intro h
    exact absurd (n.isDigit_of_mem_toString h) (by decide)

/-- In the lines of a row only the names can fail to be fields. -/
theorem isField_of_mem_lines {row : Row} (h : ∀ name ∈ names row, IsField name) :
    ∀ fields ∈ lines row, ∀ field ∈ fields, IsField field := by
  have hempty : IsField "" := by decide
  cases row with
  | header => decide
  | category name totals =>
    have hname : IsField name := h name List.mem_cons_self
    simp [lines, hname, hempty, isField_count]
  | location directory files =>
    have hdirectory : IsField directory := h directory List.mem_cons_self
    simp [lines, hdirectory, hempty, isField_count]
  | summaryHeader => decide
  | identified totals =>
    have hlabel : IsField "Identified Code" := by decide
    simp [lines, hlabel, hempty, isField_count]
  | unidentified totals =>
    have hlabel : IsField "Unknown" := by decide
    simp [lines, hlabel, hempty, isField_count]
  | total totals =>
    have hlabel : IsField "Total" := by decide
    simp [lines, hlabel, hempty, isField_count]
  | directories tally =>
    have hlabel : IsField "Number of directories" := by decide
    simp [lines, hlabel, isField_count]
  | footer => decide

end Report.Plain

namespace Report

/-- Whether the names of a report, of its categories and of the directories that it shows, hold
neither a tab nor a line feed. -/
structure NamesAreFields (report : Report) : Prop where
  categories : ∀ category ∈ report.files.keys, IsField category
  directories : ∀ directories ∈ report.locations.values, ∀ directory ∈ directories.keys,
    IsField directory

theorem isField_of_mem_locationRows {report : Report} (h : report.NamesAreFields)
    {category : String} {row : Row} (hrow : row ∈ report.locationRows category) :
    ∀ name ∈ Plain.names row, IsField name := by
  unfold locationRows at hrow
  cases hdirectories : report.locations.get? category with
  | none =>
    rw [hdirectories] at hrow
    cases hrow
  | some directories =>
    rw [hdirectories] at hrow
    obtain ⟨e, he, rfl⟩ := List.mem_map.1 hrow
    have hvalue : directories ∈ report.locations.values :=
      List.mem_map_of_mem (SortedMap.get?_eq_some_iff.1 hdirectories)
    have hkey : e.1 ∈ directories.keys := List.mem_map_of_mem he
    simpa [Plain.names] using h.directories directories hvalue e.1 hkey

theorem isField_of_mem_bodyRows {report : Report} (h : report.NamesAreFields)
    {showLocations : Bool} {row : Row} (hrow : row ∈ report.bodyRows showLocations) :
    ∀ name ∈ Plain.names row, IsField name := by
  obtain ⟨category, hcategory, hrow⟩ := List.mem_flatMap.1 hrow
  rcases List.mem_cons.1 hrow with rfl | hrow
  · simpa [Plain.names] using h.categories category (List.mem_of_mem_filter hcategory)
  · cases showLocations with
    | true => exact isField_of_mem_locationRows h hrow
    | false => cases hrow

/-- All names in the rows of a report are fields if the names of the report are. -/
theorem isField_of_mem_rows {report : Report} (h : report.NamesAreFields) {showLocations : Bool}
    {row : Row} (hrow : row ∈ report.rows showLocations) :
    ∀ name ∈ Plain.names row, IsField name := by
  rw [rows_eq, List.mem_cons, List.mem_append, List.mem_cons, List.mem_append,
    List.mem_singleton] at hrow
  -- Outside the body no row has a name.
  rcases hrow with rfl | hbody | rfl | hsummary | rfl
  · exact fun _ hname => absurd hname List.not_mem_nil
  · exact isField_of_mem_bodyRows h hbody
  · exact fun _ hname => absurd hname List.not_mem_nil
  · have hkind := isSummary_of_mem report showLocations hsummary
    cases row <;> first | exact fun _ hname => absurd hname List.not_mem_nil | cases hkind
  · exact fun _ hname => absurd hname List.not_mem_nil

end Report

/-! ## Reading a report back -/

namespace PlainReader

open Report.Plain
open HtmlReader (rowsOfCells? rowsOfCells?_cells span_append_cons)

/-- The cells of the row that a line before the blank one is. The line of a category has five fields
and the one of a directory three. -/
def bodyCells? : List String → Option (List String)
  | [name, _, files, _, lines] => some [name, files, lines]
  | [_, directory, files] => some [directory, files]
  | _ => none

/-- The cells of the row that a line behind the blank one is. -/
def summaryCells? : List String → Option (List String)
  | [label, _, files, lines] => some [label, files, lines]
  | [label, _, _, files, lines] => some [label, files, lines]
  | [label, tally] => some [label, tally]
  | _ => none

/-- Whether a line is blank. -/
def isBlankLine (fields : List String) : Bool := fields = [""]

/-- The rows of a report in plain text. The first part of the report ends at the first blank line;
behind it blank lines tell nothing. -/
def decode? (text : String) : Option (List Row) := do
  match grid text with
  | _ :: lines =>
    match lines.span (!isBlankLine ·) with
    | (body, _ :: _ :: summary) =>
      rowsOfCells? (← body.mapM bodyCells?)
        (← (summary.filter (!isBlankLine ·)).mapM summaryCells?)
    | _ => none
  | _ => none

/-- The line of a row before the blank line. -/
theorem exists_line_of_isBody {row : Row} (h : row.isBody = true) :
    ∃ fields, lines row = [fields] ∧ isBlankLine fields = false ∧
      bodyCells? fields = some row.cells := by
  cases row with
  | category name totals => exact ⟨_, rfl, by simp [isBlankLine], rfl⟩
  | location directory files => exact ⟨_, rfl, by simp [isBlankLine], rfl⟩
  | _ => cases h

/-- The line of a row behind the blank line, with blank ones left out. -/
theorem exists_line_of_isSummary {row : Row} (h : row.isSummary = true) :
    ∃ fields, (lines row).filter (!isBlankLine ·) = [fields] ∧
      summaryCells? fields = some row.cells := by
  cases row with
  | identified totals => exact ⟨_, rfl, rfl⟩
  | unidentified totals => exact ⟨_, rfl, rfl⟩
  | total totals => exact ⟨_, rfl, rfl⟩
  | directories tally => exact ⟨_, rfl, rfl⟩
  | _ => cases h

theorem mapM_lines {read : List String → Option (List String)} {part : Row → List (List String)}
    {rows : List Row}
    (h : ∀ row ∈ rows, ∃ fields, part row = [fields] ∧ read fields = some row.cells) :
    (rows.flatMap part).mapM read = some (rows.map Row.cells) := by
  induction rows with
  | nil => rfl
  | cons row rows ih =>
    obtain ⟨⟨fields, hpart, hread⟩, hrest⟩ := List.forall_mem_cons.1 h
    rw [List.flatMap_cons, hpart, List.singleton_append, List.mapM_cons, hread, ih hrest]
    rfl

section Render

variable {report : Report} (h : report.NamesAreFields) (showLocations : Bool)

include h

/-- The text is read as the lines of the rows. -/
theorem grid_render : grid (report.render .plain showLocations) =
    (report.rows showLocations).flatMap lines ++ [[""]] := by
  apply grid_of_toList
  · rw [Report.render, String.toList_join, List.flatMap_map, List.flatMap_assoc]
    exact List.flatMap_congr fun row _ => toList_row row
  · intro fields hfields
    obtain ⟨row, -, hrow⟩ := List.mem_flatMap.1 hfields
    exact lines_ne_nil row fields hrow
  · intro fields hfields
    obtain ⟨row, hmem, hrow⟩ := List.mem_flatMap.1 hfields
    exact isField_of_mem_lines (Report.isField_of_mem_rows h hmem) fields hrow

/-- The text is read as the heading, the lines of the categories, and from the first blank line on
the lines of the summary. -/
theorem grid_render_parts : grid (report.render .plain showLocations) =
    ["Type", "", "Number", "", "Lines"] :: ((report.bodyRows showLocations).flatMap lines ++
      [""] :: ["", "", "", "Files", "Lines"] ::
        ((report.summaryBody showLocations).flatMap lines ++ [[""]])) := by
  rw [grid_render h, Report.rows_eq]
  simp only [List.flatMap_cons, List.flatMap_append, List.flatMap_nil, List.append_nil,
    List.append_assoc, show lines .footer = [] from rfl]
  rfl

/-- The rows of a report are read back from its plain text. -/
theorem decode?_render :
    decode? (report.render .plain showLocations) = some (report.rows showLocations) := by
  have hbody : ((report.bodyRows showLocations).flatMap lines).mapM bodyCells? =
      some ((report.bodyRows showLocations).map Row.cells) := by
    apply mapM_lines
    intro row hrow
    obtain ⟨fields, hline, -, hcells⟩ :=
      exists_line_of_isBody (report.isBody_of_mem showLocations hrow)
    exact ⟨fields, hline, hcells⟩
  -- Blank lines within the summary are left out, the one at the end of the text too.
  have hsummary : (((report.summaryBody showLocations).flatMap lines ++ [[""]]).filter
      (!isBlankLine ·)).mapM summaryCells? =
      some ((report.summaryBody showLocations).map Row.cells) := by
    rw [List.filter_append, List.filter_flatMap, show [[""]].filter (!isBlankLine ·) = [] from rfl,
      List.append_nil]
    apply mapM_lines
    intro row hrow
    exact exists_line_of_isSummary (report.isSummary_of_mem showLocations hrow)
  -- No line of the body is blank, so the body ends where the first blank line is.
  have hfull : ∀ fields ∈ (report.bodyRows showLocations).flatMap lines,
      (!isBlankLine fields) = true := by
    intro fields hfields
    obtain ⟨row, hrow, hmem⟩ := List.mem_flatMap.1 hfields
    obtain ⟨fields', hline, hfull, -⟩ :=
      exists_line_of_isBody (report.isBody_of_mem showLocations hrow)
    rw [hline, List.mem_singleton] at hmem
    rw [hmem, hfull]
    rfl
  rw [decode?, grid_render_parts h]
  simp only [span_append_cons hfull (y := [""]) rfl, hbody, hsummary]
  exact rowsOfCells?_cells report showLocations

/-- The plain text of a report is unambiguous. If no name of a report holds a tab or a line
feed, the rows can be read back from the text, whatever the names are otherwise: empty, numbers, or
the labels of other rows. So two such reports have the same text exactly when they have the same
rows. -/
theorem decode?_render_plain :
    decode? (report.render .plain showLocations) = some (report.rows showLocations) ∧
    ∀ (report' : Report) (showLocations' : Bool), report'.NamesAreFields →
      (report'.render .plain showLocations' = report.render .plain showLocations ↔
        report'.rows showLocations' = report.rows showLocations) := by
  refine ⟨decode?_render h showLocations, ?_⟩
  intro report' showLocations' h'
  exact Report.render_eq_iff (decode?_render h showLocations) (decode?_render h' showLocations')

end Render

/-- A report whose categories and directories are called like the labels of other rows, like
numbers, or nothing at all. -/
def disguisedReport : Report where
  files := .ofList [("", 1), ("7", 1), ("Number of directories", 1), ("Total", 1), ("Unknown", 1)]
  lines := .ofList [("", 0), ("Total", 1)]
  locations := .ofList [("", .ofList [("", 1), ("Identified Code", 1)]),
    ("Total", .ofList [("Unknown", 1)])]
  tally := 1

theorem namesAreFields_disguisedReport : disguisedReport.NamesAreFields :=
  ⟨by decide, by decide⟩

/-- The disguised rows are read back, and that its directories are shown can be seen. -/
theorem decode?_render_plain_disguised :
    disguisedReport.NamesAreFields ∧
      decode? (disguisedReport.render .plain true) = some (disguisedReport.rows true) ∧
      disguisedReport.render .plain true ≠ disguisedReport.render .plain false := by
  obtain ⟨-, hiff⟩ := decode?_render_plain namesAreFields_disguisedReport false
  obtain ⟨hdecode, -⟩ := decode?_render_plain namesAreFields_disguisedReport true
  have hrows : disguisedReport.rows true ≠ disguisedReport.rows false := by decide
  refine ⟨namesAreFields_disguisedReport, hdecode, ?_⟩
  intro htext
  exact hrows ((hiff disguisedReport true namesAreFields_disguisedReport).1 htext)

end PlainReader

end SourceSurvey
