import SourceSurvey.Ignore
import SourceSurvey.Lines
import SourceSurvey.Log.Event
import SourceSurvey.Report.Basic
import SourceSurvey.Survey.Walk

/-!
# Surveying a tree

A survey walks a tree and draws a conclusion about each visit (`Finding`): it is no file to count,
it is ignored, it is of a language that was not asked for, or it is counted in its category. The
report and the log of the survey are both read off the list of findings: the report adds them up
one by one (`Report.add`), so it depends on the findings only.

A survey fails only if its root cannot be listed.
-/

set_option autoImplicit false

namespace SourceSurvey

/-- What a survey looks at. -/
structure SurveyOptions where
  /-- The names of the directories to leave out. -/
  exclude : List String
  /-- The only category to count, if there is one. -/
  language : Option String
  /-- The files to treat as absent. -/
  ignore : IgnoreList
  deriving DecidableEq

/-- A root that cannot be listed. -/
structure SurveyError where
  /-- The root. -/
  root : Path
  /-- Why it cannot be listed. -/
  cause : IoError
  deriving DecidableEq, Repr

/-- The wording of the error, without its cause. -/
def SurveyError.message (e : SurveyError) : String :=
  "Failed to read directory: " ++ e.root.display

/-- The conclusion about a visit. -/
inductive Finding where
  /-- Nothing could be seen. -/
  | unreadable (path : Path) (cause : IoError)
  /-- It is no file to count. -/
  | notCountable
  /-- It is ignored. -/
  | ignored (path : Path)
  /-- It is of a category that was not asked for. -/
  | otherLanguage
  /-- It is a file of a category, with these lines. -/
  | counted (path : Path) (category : String) (lines : LineCount)
  deriving DecidableEq, Repr

namespace Survey

/-- Whether a path of a walk is ignored; patterns are about the path below the root. -/
def isIgnored (options : SurveyOptions) (root path : Path) : Bool :=
  !options.ignore.isEmpty && options.ignore.ignores ((path.relativeTo? root).getD path)

/-- Whether a category is one to count. -/
def wants (options : SurveyOptions) (category : String) : Bool :=
  match options.language with
  | none => true
  | some language => language = category

/-- The conclusion about an entry. -/
def findingOfEntry (fs : FileSystem) (options : SurveyOptions) (classifier : Classifier)
    (root : Path) (entry : Entry) : Finding :=
  if !entry.isCountable fs then .notCountable
  else if isIgnored options root entry.path then .ignored entry.path
  else
    let category := classifier.classify entry.path
    if wants options category then .counted entry.path category (countFile fs entry.path)
    else .otherLanguage

/-- The conclusion about a visit. -/
def findingOf (fs : FileSystem) (options : SurveyOptions) (classifier : Classifier) (root : Path) :
    Visit → Finding
  | .entry entry => findingOfEntry fs options classifier root entry
  | .failure path cause => .unreadable path cause

/-- The findings of a survey in the order of the walk. -/
def findings (fs : FileSystem) (options : SurveyOptions) (classifier : Classifier) (root : Path) :
    List Finding :=
  (Walk.visits fs (·.isExcluded options.exclude) root).map (findingOf fs options classifier root)

end Survey

/-- Adds a finding to a report. A file that cannot be opened is counted and has neither lines nor a
place. -/
def Report.add (report : Report) : Finding → Report
  | .counted path category lines =>
    let report := report.recordFile category
    match lines.lines? with
    | none => report
    | some lines =>
      (report.recordLines category lines).recordLocation category path.parentDisplay
  | _ => report

/-- The report of a list of findings. -/
def Report.ofFindings (findings : List Finding) : Report :=
  findings.foldl Report.add .empty

namespace Survey

/-- Surveys the tree under `root`. -/
def scan (fs : FileSystem) (options : SurveyOptions) (classifier : Classifier) (root : Path) :
    Except SurveyError Report :=
  match fs.listing root with
  | .error cause => .error ⟨root, cause⟩
  | .ok _ => .ok (.ofFindings (findings fs options classifier root))

/-! ## The log of a survey -/

/-- The part of the program that surveys. -/
def target : String := "spelunk::core::scanner"

/-- The part of the program that counts lines. -/
def linesTarget : String := "spelunk::core::scanner::lines"

/-- The event of counting the lines of a file, if it is worth one. -/
def lineEvent? (path : Path) : LineCount → Option Log.Event
  | .unopened cause =>
    some ⟨.debug, linesTarget, "cannot open file, skipping line count",
      [("path", path.display), ("error", cause.message)]⟩
  | .unread cause =>
    some ⟨.debug, linesTarget, "cannot read file, counting zero lines",
      [("path", path.display), ("error", cause.message)]⟩
  | .undecodable =>
    some ⟨.debug, linesTarget, "file is not valid UTF-8, counting zero lines",
      [("path", path.display)]⟩
  | .counted _ => none

/-- The event of a finding, if it is worth one. -/
def eventOf? : Finding → Option Log.Event
  | .unreadable path cause =>
    some ⟨.warn, target, "skipping unreadable entry",
      [("error", "IO error for operation on " ++ path.display ++ ": " ++ cause.message)]⟩
  | .ignored path => some ⟨.debug, target, "ignored by pattern", [("path", path.display)]⟩
  | .counted path _ lines => lineEvent? path lines
  | _ => none

/-- The event at the end of a survey. -/
def completeEvent (root : Path) (report : Report) : Log.Event :=
  ⟨.info, target, "scan complete",
    [("root", root.display), ("files", toString report.identified.files),
     ("lines", toString report.identified.lines)]⟩

/-- The events of a survey; one that fails has none. -/
def events (fs : FileSystem) (options : SurveyOptions) (classifier : Classifier) (root : Path) :
    List Log.Event :=
  match fs.listing root with
  | .error _ => []
  | .ok _ =>
    let findings := findings fs options classifier root
    findings.filterMap eventOf? ++ [completeEvent root (.ofFindings findings)]

end Survey

end SourceSurvey
