import SourceSurvey.CommandLine.Reader
import SourceSurvey.Path

/-!
# The options of indexing

The command `code-spelunk` runs the indexing tools over the working directory.
-/

set_option autoImplicit false

namespace SourceSurvey.CommandLine

/-- What indexing is asked to do. -/
structure IndexArguments where
  /-- Whether the sources are those of a kernel. -/
  kernel : Bool
  /-- Whether documentation is built. -/
  doxygen : Bool
  /-- Whether the cross reference is built. -/
  cscope : Bool
  /-- Whether tag pages are built. -/
  web : Bool
  /-- The title of the tag pages. -/
  title : Option String
  /-- The settings file. -/
  config : Option Path
  /-- Whether to log more. -/
  verbose : Bool
  deriving DecidableEq

/-- The options of indexing. -/
inductive IndexOption where
  | kernel
  | doxygen
  | cscope
  | web
  | title
  | config
  | verbose
  | help
  | version
  deriving DecidableEq, Repr

/-- How the options of indexing are written. -/
def indexRules : List (OptionRule IndexOption) :=
  [⟨.kernel, "kernel", some 'k', .switch⟩,
   ⟨.doxygen, "doxygen", some 'd', .switch⟩,
   ⟨.cscope, "cscope", some 'c', .switch⟩,
   ⟨.web, "web", some 'w', .switch⟩,
   ⟨.title, "title", some 't', .text false⟩,
   ⟨.config, "config", none, .path⟩,
   ⟨.verbose, "verbose", some 'v', .switch⟩,
   ⟨.help, "help", some 'h', .help⟩,
   ⟨.version, "version", some 'V', .version⟩]

namespace IndexArguments

/-- What the uses of options ask for. -/
def ofUses (uses : List (Use IndexOption)) : IndexArguments where
  kernel := isUsed uses .kernel
  doxygen := isUsed uses .doxygen
  cscope := isUsed uses .cscope
  web := isUsed uses .web
  title := (valueOf? uses .title).map Utf8.toStringLossy
  config := (valueOf? uses .config).map Path.mk
  verbose := isUsed uses .verbose

/-- Reads the command line of indexing. -/
def parse (arguments : List (List UInt8)) : Except Problem IndexArguments :=
  (read indexRules arguments).map ofUses

end IndexArguments

end SourceSurvey.CommandLine
