import SourceSurvey.Path
import SourceSurvey.SortedMap

/-!
# Categories of files

The category of a file is read off its name. The text after the last dot is the extension, unless
only dots stand before it; a table gives the category of an extension. Two names without an
extension have a category of their own, and every other file is of the category `unknown`.
-/

set_option autoImplicit false

namespace SourceSurvey

/-- The category of the files whose name says nothing. -/
def unknown : String := "Unknown"

/-- The extensions known from the start, with their categories. -/
def builtinExtensions : List (String × String) :=
  [("awk", "AWK"),
   ("py", "Python"),
   ("pyl", "Python"),
   ("el", "Emacs Lisp"),
   ("elc", "Emacs Lisp"),
   ("h", "C or C++ Header Files"),
   ("c", "C"),
   ("cc", "C++"),
   ("cpp", "C++"),
   ("c++", "C++"),
   ("m", "Objective C"),
   ("tcl", "TCL"),
   ("html", "HTML"),
   ("htm", "HTML"),
   ("java", "Java"),
   ("idl", "Interface Definition Language"),
   ("xml", "XML"),
   ("xsl", "XML"),
   ("php", "PHP"),
   ("inc", "PHP include"),
   ("sh", "Shell Script"),
   ("ksh", "Shell Script"),
   ("bash", "Shell Script"),
   ("csh", "Shell Script"),
   ("tcsh", "Shell Script"),
   ("mk", "Makefile"),
   ("am", "Automake"),
   ("m4", "M4")]

/-- The names without an extension that have a category. -/
def specialNames : List (String × String) :=
  [("Makefile", "Makefile"), ("configure", "Autoconf")]

/-- The text after the last dot of a name; none when the name has no dot after the dots it begins
with. -/
def extension? (name : List Char) : Option (List Char) :=
  let stem := name.dropWhile (· = '.')
  if '.' ∈ stem then some (stem.reverse.takeWhile (· ≠ '.')).reverse else none

/-- A table that gives extensions their categories. -/
structure Classifier where
  /-- The categories by extension. -/
  extensions : SortedMap String
  deriving DecidableEq

namespace Classifier

/-- The table of the extensions known from the start. -/
def builtin : Classifier := ⟨SortedMap.ofList builtinExtensions⟩

/-- An extension as it is looked up: one dot at the beginning is dropped. -/
def normalize (ext : String) : String :=
  match ext.toList with
  | '.' :: rest => String.ofList rest
  | _ => ext

/-- The table with one more extension. -/
def add (classifier : Classifier) (ext category : String) : Classifier :=
  ⟨classifier.extensions.insert (normalize ext) category⟩

/-- The table with more extensions; where two have the same extension the later one counts. -/
def extend (classifier : Classifier) (extra : List (String × String)) : Classifier :=
  extra.foldl (fun c e => c.add e.1 e.2) classifier

/-- The table of the known extensions and the given ones. -/
def withExtensions (extra : List (String × String)) : Classifier := builtin.extend extra

/-- The category of a file name. -/
def classifyName (classifier : Classifier) (name : List Char) : String :=
  match extension? name with
  | none => (specialNames.lookup (String.ofList name)).getD unknown
  | some ext => (classifier.extensions.get? (String.ofList ext)).getD unknown

/-- The category of the file of a path. -/
def classify (classifier : Classifier) (path : Path) : String :=
  classifier.classifyName (Utf8.decodeLossy (path.fileName?.getD []))

end Classifier

end SourceSurvey
