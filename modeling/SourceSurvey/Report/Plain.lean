import SourceSurvey.Report.Row

/-!
# Reports as plain text

Each row is a line, and tabs stand between the cells.
-/

set_option autoImplicit false

namespace SourceSurvey.Report.Plain

/-- A line of cells. -/
def line (cells : List String) : String := String.join cells ++ "\n"

/-- A row as plain text. -/
def row : Row → String
  | .header => line ["Type\t\tNumber\t\tLines"]
  | .category name totals =>
    line [name, "\t\t", toString totals.files, "\t\t", toString totals.lines]
  | .location directory files => line ["\t", directory, "\t", toString files]
  | .summaryHeader => line ["\n\t\t\tFiles\tLines"]
  | .identified totals =>
    line ["Identified Code\t\t", toString totals.files, "\t", toString totals.lines, "\n"]
  | .unidentified totals =>
    line ["Unknown\t\t\t", toString totals.files, "\t", toString totals.lines, "\n"]
  | .total totals => line ["Total\t\t\t", toString totals.files, "\t", toString totals.lines, "\n"]
  | .directories tally => line ["Number of directories\t", toString tally]
  | .footer => ""

end SourceSurvey.Report.Plain
