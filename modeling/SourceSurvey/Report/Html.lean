import SourceSurvey.Report.Row

/-!
# Reports in HTML

Each row is a row of a table, and each cell a cell. The four characters that could begin or end
markup are written as entities in every name, so that a name is always the text of its cell.
-/

set_option autoImplicit false

namespace SourceSurvey.Report.Html

/-- A character as it is written in a cell. -/
def escapeChar : Char → List Char
  | '&' => "&amp;".toList
  | '<' => "&lt;".toList
  | '>' => "&gt;".toList
  | '"' => "&quot;".toList
  | c => [c]

/-- A name as it is written in a cell. -/
def escape (name : String) : String := String.ofList (name.toList.flatMap escapeChar)

/-- A cell. -/
def cell (content : String) : String := "<td>" ++ content ++ "</td>"

/-- A row of a table. -/
def tableRow (cells : List String) : String :=
  "<tr>" ++ String.join (cells.map cell) ++ "</tr>"

/-- A row of the summary. -/
def totalsRow (label : String) (totals : Totals) : String :=
  tableRow [label, toString totals.files, toString totals.lines]

/-- A row as HTML. -/
def row : Row → String
  | .header => "<table>" ++ tableRow ["Type", "Number", "Lines"] ++ "\n"
  | .category name totals =>
    tableRow [escape name, toString totals.files, toString totals.lines] ++ "\n"
  | .location directory files => tableRow [escape directory, toString files] ++ "\n"
  | .summaryHeader => "</table><br>\n<table>\n" ++ tableRow ["", "Files", "Lines"] ++ "\n"
  | .identified totals => totalsRow "Identified Code" totals ++ "\n"
  | .unidentified totals => totalsRow "Unknown" totals ++ "\n"
  | .total totals => totalsRow "Total" totals ++ "\n"
  | .directories tally => tableRow ["Number of directories", toString tally] ++ "\n"
  | .footer => "</table>\n"

end SourceSurvey.Report.Html
