import SourceSurvey.Category
import SourceSurvey.Count

/-!
# Reports

A report counts the files and the lines of each category, and for each category but `unknown` the
files in each directory. All counters stop at their greatest value, so recording things in another
order gives the same report.

`totalsOf` reads the counters of a category; `identified`, `unidentified?` and `grandTotal` add them
up for all categories but `unknown`, for `unknown`, and for both.
-/

set_option autoImplicit false

namespace SourceSurvey

/-- What has been counted. -/
structure Report where
  /-- The number of files by category. -/
  files : SortedMap Count
  /-- The number of lines by category. -/
  lines : SortedMap Count
  /-- The number of files by category and directory. -/
  locations : SortedMap (SortedMap Count)
  /-- The number of files with a directory. -/
  tally : Count
  deriving DecidableEq

/-- A number of files and a number of lines. -/
structure Totals where
  /-- The number of files. -/
  files : Count
  /-- The number of lines. -/
  lines : Count
  deriving DecidableEq, Repr

namespace Totals

/-- No files and no lines. -/
def zero : Totals := ⟨0, 0⟩

/-- Addition of files to files and of lines to lines. -/
def add (s t : Totals) : Totals := ⟨s.files + t.files, s.lines + t.lines⟩

instance : Add Totals := ⟨add⟩

end Totals

namespace Report

/-- The report that has counted nothing. -/
def empty : Report := ⟨.empty, .empty, .empty, 0⟩

/-! ## Recording -/

/-- Adds to the counter of a key, which begins at zero. -/
def bump (map : SortedMap Count) (key : String) (n : Count) : SortedMap Count :=
  map.alter key fun old => old.getD 0 + n

/-- Counts one file. -/
def recordFile (report : Report) (category : String) : Report :=
  { report with files := bump report.files category 1 }

/-- Counts lines. -/
def recordLines (report : Report) (category : String) (lines : Count) : Report :=
  { report with lines := bump report.lines category lines }

/-- Counts one file in a directory; files that are `unknown` have no place in a report. -/
def recordLocation (report : Report) (category directory : String) : Report :=
  if category = unknown then report
  else
    { report with
      locations := report.locations.alter category fun old => bump (old.getD .empty) directory 1
      tally := report.tally + 1 }

/-! ## Totals -/

/-- The files and lines of a category. -/
def totalsOf (report : Report) (category : String) : Totals :=
  ⟨(report.files.get? category).getD 0, (report.lines.get? category).getD 0⟩

/-- The categories that have files, `unknown` left out. -/
def categories (report : Report) : List String :=
  report.files.keys.filter (· ≠ unknown)

/-- The files and lines of all categories but `unknown`. -/
def identified (report : Report) : Totals :=
  report.categories.foldl (fun sum category => sum + report.totalsOf category) .zero

/-- The files and lines that are `unknown`, if there are such files. -/
def unidentified? (report : Report) : Option Totals :=
  if report.files.contains unknown then some (report.totalsOf unknown) else none

/-- The files and lines of all categories. -/
def grandTotal (report : Report) : Totals :=
  match report.unidentified? with
  | none => report.identified
  | some totals => report.identified + totals

end Report

end SourceSurvey
