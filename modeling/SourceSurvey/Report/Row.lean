import SourceSurvey.Report.Basic

/-!
# The rows of a report

A report is laid out as a list of rows before it is written in any format: a header, the categories
in order, each followed by its directories if they are wanted, and a summary.
-/

set_option autoImplicit false

namespace SourceSurvey

/-- One row of a report. -/
inductive Row where
  /-- The heading of the categories. -/
  | header
  /-- A category with its files and lines. -/
  | category (name : String) (totals : Totals)
  /-- A directory with the number of its files. -/
  | location (directory : String) (files : Count)
  /-- The heading of the summary. -/
  | summaryHeader
  /-- The sum of all categories but `unknown`. -/
  | identified (totals : Totals)
  /-- The files and lines that are `unknown`. -/
  | unidentified (totals : Totals)
  /-- The sum of all categories. -/
  | total (totals : Totals)
  /-- The number of files with a directory. -/
  | directories (tally : Count)
  /-- The end. -/
  | footer
  deriving DecidableEq, Repr

namespace Report

/-- The rows of the directories of a category. -/
def locationRows (report : Report) (category : String) : List Row :=
  match report.locations.get? category with
  | none => []
  | some directories => directories.entries.map fun (directory, files) => .location directory files

/-- The rows of a category. -/
def categoryRows (report : Report) (showLocations : Bool) (category : String) : List Row :=
  .category category (report.totalsOf category) ::
    if showLocations then report.locationRows category else []

/-- The rows of the summary. -/
def summaryRows (report : Report) (showLocations : Bool) : List Row :=
  [.summaryHeader, .identified report.identified] ++
  (report.unidentified?.map Row.unidentified).toList ++
  [.total report.grandTotal] ++
  (if showLocations then [.directories report.tally] else []) ++
  [.footer]

/-- The rows of a report in the order in which they are written. -/
def rows (report : Report) (showLocations : Bool) : List Row :=
  [.header] ++ report.categories.flatMap (report.categoryRows showLocations) ++
    report.summaryRows showLocations

end Report

end SourceSurvey
