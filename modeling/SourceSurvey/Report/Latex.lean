import SourceSurvey.Report.Row

/-!
# Reports in LaTeX

The rows make up one `tabular` environment. The characters that have a meaning of their own are
escaped in every name.
-/

set_option autoImplicit false

namespace SourceSurvey.Report.Latex

/-- A character as it is written in a cell. -/
def escapeChar (c : Char) : List Char :=
  match c with
  | '&' | '%' | '$' | '#' | '_' | '{' | '}' => ['\\', c]
  | '\\' => "\\textbackslash\x7b\x7d".toList
  | '~' => "\\textasciitilde\x7b\x7d".toList
  | '^' => "\\textasciicircum\x7b\x7d".toList
  | c => [c]

/-- A name as it is written in a cell. -/
def escape (name : String) : String := String.ofList (name.toList.flatMap escapeChar)

/-- A row of the table with what stands after its end. -/
def tableRow (cells : List String) (ending : String) : String :=
  " & ".intercalate cells ++ "\\\\" ++ ending ++ "\n"

/-- A row of the summary. -/
def totalsRow (label : String) (totals : Totals) (ending : String) : String :=
  tableRow [label, toString totals.files, toString totals.lines] ending

/-- A row as LaTeX. -/
def row : Row → String
  | .header =>
    "\\begin\x7btabular\x7d\x7b|l|l|c|\x7d\n\\hline\n" ++ tableRow ["Type", "Number", "Lines"] "" ++
      "\\hline\n"
  | .category name totals =>
    tableRow [escape name, toString totals.files, toString totals.lines] ""
  | .location directory files => tableRow [escape directory, toString files] ""
  | .summaryHeader => "\\hline \\hline\n& Files & Lines\\\\\n"
  | .identified totals => totalsRow "Identified Code" totals ""
  | .unidentified totals => totalsRow "Unknown" totals "\n\\hline"
  | .total totals => totalsRow "Total" totals "\\hline"
  | .directories tally => tableRow ["Number of directories", toString tally] ""
  | .footer => "\\end\x7btabular\x7d\n"

end SourceSurvey.Report.Latex
