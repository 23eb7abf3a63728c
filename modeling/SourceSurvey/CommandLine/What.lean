import SourceSurvey.CommandLine.Reader
import SourceSurvey.Path
import SourceSurvey.Report.Render

/-!
# The options of a survey

The command `what` surveys the working directory.
-/

set_option autoImplicit false

namespace SourceSurvey.CommandLine

/-- What a survey is asked to do. -/
structure WhatArguments where
  /-- Whether the directories of each category are shown. -/
  showLocations : Bool
  /-- The names of directories to leave out. -/
  exclude : List String
  /-- The only category to count. -/
  language : Option String
  /-- The format of the report; plain text if none is given. -/
  pretty : Option Format
  /-- The settings file. -/
  config : Option Path
  /-- Whether to log more. -/
  verbose : Bool
  deriving DecidableEq

/-- The format of the report. -/
def WhatArguments.format (arguments : WhatArguments) : Format := arguments.pretty.getD .plain

/-- The options of a survey. -/
inductive WhatOption where
  | where_
  | exclude
  | language
  | pretty
  | config
  | verbose
  | help
  | version
  deriving DecidableEq, Repr

/-- The formats that can be asked for, with their names. -/
def prettyNames : List (String × Format) := [("HTML", .html), ("LaTeX", .latex)]

/-- The format of a name in upper or lower case. -/
def formatOf? (name : String) : Option Format :=
  (prettyNames.find? fun entry => Action.lower entry.1 = Action.lower name).map (·.2)

/-- How the options of a survey are written. -/
def whatRules : List (OptionRule WhatOption) :=
  [⟨.where_, "where", some 'w', .switch⟩,
   ⟨.exclude, "exclude", some 'e', .text true⟩,
   ⟨.language, "language", some 'l', .text false⟩,
   ⟨.pretty, "pretty", some 'p', .choice (prettyNames.map (·.1))⟩,
   ⟨.config, "config", none, .path⟩,
   ⟨.verbose, "verbose", some 'v', .switch⟩,
   ⟨.help, "help", some 'h', .help⟩,
   ⟨.version, "version", some 'V', .version⟩]

namespace WhatArguments

/-- What the uses of options ask for. -/
def ofUses (uses : List (Use WhatOption)) : WhatArguments where
  showLocations := isUsed uses .where_
  exclude := (uses.filter (·.key = .exclude)).map fun use => Utf8.toStringLossy use.value
  language := (valueOf? uses .language).map Utf8.toStringLossy
  pretty := (valueOf? uses .pretty).bind fun value => formatOf? (Utf8.toStringLossy value)
  config := (valueOf? uses .config).map Path.mk
  verbose := isUsed uses .verbose

/-- Reads the command line of a survey. -/
def parse (arguments : List (List UInt8)) : Except Problem WhatArguments :=
  (read whatRules arguments).map ofUses

end WhatArguments

end SourceSurvey.CommandLine
