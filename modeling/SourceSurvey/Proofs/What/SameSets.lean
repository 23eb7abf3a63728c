import Mathlib
import SourceSurvey.Program
import SourceSurvey.Proofs.Ignore.Gathering

/-!
# Names and patterns count as sets

A survey is told in two places which directories to leave out, on the command line and in the
settings, and the settings give the lines of its ignore list. What it makes of them is a matter of
membership only: a directory is left out if its name is among the names
(`Entry.isExcluded_eq_of_sameNames`), and a file is ignored if some line ignores it alone
(`IgnoreList.ignores_offerAll_eq_of_sameLines`). So the order of names and lines, repetitions, and
the place where a name is given do not matter, and neither does the name that is always left out.
Since every decision of the walk is the same, so is every finding
(`Survey.findings_eq_of_sameDecisions`), and the report is made of the findings.

The main statement is `whatReport_sameSets`.
-/

set_option autoImplicit false

namespace SourceSurvey

/-! ## Directories that are left out -/

/-- Two lists of names leave out the same directories: together with the name that is always left
out they have the same members. -/
def SameNames (first second : List String) : Prop :=
  ∀ name, name ∈ vcsDirectory :: first ↔ name ∈ vcsDirectory :: second

theorem Entry.isExcluded_eq_of_sameNames {first second : List String} (h : SameNames first second)
    (entry : Entry) : entry.isExcluded first = entry.isExcluded second := by
  have hname : ∀ (names : List String) (name : String),
      (decide (name = vcsDirectory) || names.contains name) =
        decide (name ∈ vcsDirectory :: names) := by
    intro names name
    simp
  unfold isExcluded
  cases Utf8.toString? entry.name with
  | none => rfl
  | some name => simp only [hname, h name]

/-! ## Files that are ignored -/

namespace IgnoreList

variable {first second : List (List Char)} {list₁ list₂ : IgnoreList}

/-- Lists that are offered the same lines ignore the same paths, in whatever order and however often
they are offered them. -/
theorem ignores_offerAll_eq_of_sameLines (h : ∀ line, line ∈ first ↔ line ∈ second) (path : Path) :
    (empty.offerAll first).ignores path = (empty.offerAll second).ignores path := by
  rw [Bool.eq_iff_iff, ignores_offerAll_iff, ignores_offerAll_iff]
  simp only [h]

theorem isEmpty_offerAll_eq_of_sameLines (h : ∀ line, line ∈ first ↔ line ∈ second) :
    (empty.offerAll first).isEmpty = (empty.offerAll second).isEmpty := by
  rw [Bool.eq_iff_iff, isEmpty_offerAll_iff, isEmpty_offerAll_iff]
  simp only [h]

/-- If one of two lists can be made, so can the other one. -/
theorem exists_ofLines_of_sameLines (h : ∀ line, line ∈ first ↔ line ∈ second)
    (hlist : ofLines first = .ok list₁) : ofLines second = .ok (empty.offerAll second) := by
  obtain ⟨haccepted, -⟩ := ofLines_eq_ok_iff.1 hlist
  exact ofLines_eq_ok_iff.2 ⟨fun line hline => haccepted line ((h line).2 hline), rfl⟩

end IgnoreList

/-! ## The findings of a survey -/

namespace Survey

/-- Two surveys that are asked for the same: they leave out the same directories, count the same
category and ignore the same files. -/
structure SameDecisions (first second : SurveyOptions) : Prop where
  exclude : SameNames first.exclude second.exclude
  language : first.language = second.language
  isEmpty : first.ignore.isEmpty = second.ignore.isEmpty
  ignores : ∀ path, first.ignore.ignores path = second.ignore.ignores path

section SameDecisions

variable {fs : FileSystem} {classifier : Classifier} {root : Path} {first second : SurveyOptions}

theorem isIgnored_eq_of_sameDecisions (h : SameDecisions first second) (path : Path) :
    isIgnored first root path = isIgnored second root path := by
  rw [isIgnored, isIgnored, h.isEmpty, h.ignores]

theorem findingOf_eq_of_sameDecisions (h : SameDecisions first second) (visit : Visit) :
    findingOf fs first classifier root visit = findingOf fs second classifier root visit := by
  have hwants : wants first = wants second := by
    funext category
    rw [wants, wants, h.language]
  cases visit with
  | failure path cause => rfl
  | entry entry =>
    rw [findingOf, findingOf, findingOfEntry, findingOfEntry, hwants,
      isIgnored_eq_of_sameDecisions h]

/-- Every finding is the same, for the walk comes by the same entries and draws the same
conclusion about each. -/
theorem findings_eq_of_sameDecisions (h : SameDecisions first second) :
    findings fs first classifier root = findings fs second classifier root := by
  have hskip : (fun entry : Entry => entry.isExcluded first.exclude) =
      fun entry => entry.isExcluded second.exclude :=
    funext (Entry.isExcluded_eq_of_sameNames h.exclude)
  rw [findings, findings, hskip]
  exact List.map_congr_left fun visit _ => findingOf_eq_of_sameDecisions h visit

theorem scan_eq_of_sameDecisions (h : SameDecisions first second) :
    scan fs first classifier root = scan fs second classifier root := by
  rw [scan, scan, findings_eq_of_sameDecisions h]

end SameDecisions

end Survey

/-! ## The text of a report -/

open CommandLine (WhatArguments)

namespace What

/-- Settings with the same lines make surveys that are asked for the same. -/
theorem sameDecisions_surveyOptions {first second : WhatArguments}
    {settings₁ settings₂ : SurveySettings} (hlanguage : first.language = second.language)
    (hexclude : SameNames (first.exclude ++ settings₁.exclude) (second.exclude ++ settings₂.exclude))
    (hignore : ∀ line, line ∈ settings₁.ignore ↔ line ∈ settings₂.ignore)
    (hvalid : ∀ line ∈ settings₁.ignore, IgnoreList.refusal? line.toList = none) :
    ∃ options₁ options₂, surveyOptions first settings₁ = .ok options₁ ∧
      surveyOptions second settings₂ = .ok options₂ ∧ Survey.SameDecisions options₁ options₂ := by
  have hlines : ∀ line, line ∈ settings₁.ignore.map String.toList ↔
      line ∈ settings₂.ignore.map String.toList := by
    simp only [List.mem_map, hignore, implies_true]
  have hfirst : IgnoreList.ofLines (settings₁.ignore.map String.toList) =
      .ok (IgnoreList.empty.offerAll (settings₁.ignore.map String.toList)) :=
    IgnoreList.ofLines_eq_ok_iff.2 ⟨List.forall_mem_map.2 hvalid, rfl⟩
  have hsecond := IgnoreList.exists_ofLines_of_sameLines hlines hfirst
  refine ⟨_, _, by rw [surveyOptions, hfirst]; rfl, by rw [surveyOptions, hsecond]; rfl, ?_⟩
  exact ⟨hexclude, hlanguage, IgnoreList.isEmpty_offerAll_eq_of_sameLines hlines,
    IgnoreList.ignores_offerAll_eq_of_sameLines hlines⟩

end What

/-- Excluded names and ignored lines are sets, wherever they are given. Take two surveys of one
root that show locations alike, count the same language, write the same format and add the same
extensions. If the names that are left out, those of the command line and of the settings together,
have the same members, and so do the lines of the ignore list, none of which is refused, then both
give the same text, or fail for the same reason; and they do give a text if the root can be listed.
-/
theorem whatReport_sameSets (fs : FileSystem) (root : Path) (first second : WhatArguments)
    (config₁ config₂ : Config)
    (hfirst : Config.resolve fs root first.config = .ok config₁)
    (hsecond : Config.resolve fs root second.config = .ok config₂)
    (hwhere : first.showLocations = second.showLocations)
    (hlanguage : first.language = second.language) (hpretty : first.pretty = second.pretty)
    (hextensions : config₁.survey.extensions = config₂.survey.extensions)
    (hexclude : ∀ name, name ∈ vcsDirectory :: (first.exclude ++ config₁.survey.exclude) ↔
      name ∈ vcsDirectory :: (second.exclude ++ config₂.survey.exclude))
    (hignore : ∀ line, line ∈ config₁.survey.ignore ↔ line ∈ config₂.survey.ignore)
    (hvalid : ∀ line ∈ config₁.survey.ignore, IgnoreList.refusal? line.toList = none) :
    whatReport fs root first = whatReport fs root second ∧
      ((∃ entries, fs.listing root = .ok entries) →
        ∃ text, whatReport fs root first = .ok text ∧ whatReport fs root second = .ok text) := by
  obtain ⟨options₁, options₂, hoptions₁, hoptions₂, hsame⟩ :=
    What.sameDecisions_surveyOptions hlanguage hexclude hignore hvalid
  have hclassifier : What.classifier config₁.survey = What.classifier config₂.survey := by
    rw [What.classifier, What.classifier, hextensions]
  have hformat : first.format = second.format := by
    rw [WhatArguments.format, WhatArguments.format, hpretty]
  -- The settings come into a report by the options and the classifier only.
  have hreport : What.report fs root first = What.report fs root second := by
    simp only [What.report, hfirst, hsecond, hoptions₁, hoptions₂]
    rw [hclassifier, Survey.scan_eq_of_sameDecisions hsame]
  have htext : whatReport fs root first = whatReport fs root second := by
    rw [whatReport, whatReport, hreport, hformat, hwhere]
  refine ⟨htext, ?_⟩
  rintro ⟨entries, hlisting⟩
  simp only [← htext, and_self]
  simp [whatReport, What.report, hfirst, hoptions₁, Survey.scan, hlisting, Except.map]

/-- A directory with a file, a directory of vendored code and one that is always left out, and
beside it two settings files, which differ in what they say and in how often they say it. -/
def configuredFiles : FileSystem :=
  let file (text : String) : Node := .file (.data (Utf8.ofString text)) .all
  let work : Node := .directory
    [(Utf8.ofString "a.c", file "int a;"), (Utf8.ofString "a.o", file ""),
      (Utf8.ofString "vendor", .directory [(Utf8.ofString "b.c", file "int b;")] .all),
      (Utf8.ofString "CVS", .directory [(Utf8.ofString "c.c", file "int c;")] .all)] .all
  ⟨.directory
    [(Utf8.ofString "work", work),
      (Utf8.ofString "one", file "what = [[], ['*.o', '*.h', '*.o']]"),
      (Utf8.ofString "two", file "what = [['CVS', 'vendor'], ['*.h', '*.o']]")] .all, []⟩

theorem loadFile_configuredFiles_one :
    Config.loadFile configuredFiles (.ofString "/one") =
      .ok ⟨⟨[], ["*.o", "*.h", "*.o"], .empty⟩, .default⟩ := by cbv

theorem loadFile_configuredFiles_two :
    Config.loadFile configuredFiles (.ofString "/two") =
      .ok ⟨⟨["CVS", "vendor"], ["*.h", "*.o"], .empty⟩, .default⟩ := by cbv

/-- The directory of vendored code is left out by the command line once and by the settings once,
where the name that is always left out is given as well; the patterns change places. -/
theorem whatReport_sameSets_configured :
    ∃ text, whatReport configuredFiles (.ofString "/work")
          ⟨true, ["vendor", "vendor"], none, none, some (.ofString "/one"), false⟩ = .ok text ∧
        whatReport configuredFiles (.ofString "/work")
          ⟨true, [], none, none, some (.ofString "/two"), true⟩ = .ok text := by
  have hroot : ∃ entries, configuredFiles.listing (.ofString "/work") = .ok entries :=
    ⟨_, by cbv⟩
  have hvalid : ∀ line ∈ ["*.o", "*.h", "*.o"], IgnoreList.refusal? line.toList = none := by
    simp only [List.forall_mem_cons]
    exact ⟨by cbv, by cbv, by cbv, by simp⟩
  refine (whatReport_sameSets configuredFiles (.ofString "/work")
    ⟨true, ["vendor", "vendor"], none, none, some (.ofString "/one"), false⟩
    ⟨true, [], none, none, some (.ofString "/two"), true⟩ _ _ loadFile_configuredFiles_one
    loadFile_configuredFiles_two rfl rfl rfl rfl ?_ ?_ hvalid).2 hroot
  · intro name
    simp only [vcsDirectory, List.mem_cons, List.mem_append, List.not_mem_nil, or_false]
    tauto
  · intro line
    simp only [List.mem_cons, List.not_mem_nil, or_false]
    tauto

end SourceSurvey
