import SourceSurvey.Report.Plain
import SourceSurvey.Report.Html
import SourceSurvey.Report.Latex

/-!
# Writing a report

The text of a report in a format is the text of its rows, one after the other.
-/

set_option autoImplicit false

namespace SourceSurvey

/-- A format of reports. -/
inductive Format where
  /-- Lines of text. -/
  | plain
  /-- A table in HTML. -/
  | html
  /-- A table in LaTeX. -/
  | latex
  deriving DecidableEq, Repr

/-- A row in a format. -/
def Format.row : Format → Row → String
  | .plain => Report.Plain.row
  | .html => Report.Html.row
  | .latex => Report.Latex.row

/-- A report in a format. -/
def Report.render (report : Report) (format : Format) (showLocations : Bool) : String :=
  String.join ((report.rows showLocations).map format.row)

end SourceSurvey
