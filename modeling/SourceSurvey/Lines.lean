import SourceSurvey.Count
import SourceSurvey.FileSystem.Access

/-!
# Counting lines

A line ends with a line feed, with a carriage return, or with both in this order; text after the
last line end counts as one more line. `lineCount` counts the lines of a text, `countFile` those of
a file: a file that cannot be opened has no line count, and one that cannot be read or is not UTF-8
has zero lines.
-/

set_option autoImplicit false

namespace SourceSurvey

/-- The number of lines of a text; `unfinished` says whether characters of a line that has not ended
yet stand before it. -/
def lineCount (unfinished : Bool) : List Char → Nat
  | [] => if unfinished then 1 else 0
  | '\n' :: rest => lineCount false rest + 1
  | '\r' :: '\n' :: rest => lineCount false rest + 1
  | '\r' :: rest => lineCount false rest + 1
  | _ :: rest => lineCount true rest

/-- The number of lines of a text as a counter. -/
def countLines (text : List Char) : Count := Count.ofNat (lineCount false text)

/-- What counting the lines of a file comes to. -/
inductive LineCount where
  /-- The file cannot be opened. -/
  | unopened (cause : IoError)
  /-- The file cannot be read. -/
  | unread (cause : IoError)
  /-- The file is not UTF-8. -/
  | undecodable
  /-- The file has this many lines. -/
  | counted (lines : Count)
  deriving DecidableEq, Repr

/-- The lines that are added up for a file; none if it cannot be opened. -/
def LineCount.lines? : LineCount → Option Count
  | .unopened _ => none
  | .unread _ => some 0
  | .undecodable => some 0
  | .counted lines => some lines

/-- Counts the lines of a byte string. -/
def LineCount.ofBytes (bytes : List UInt8) : LineCount :=
  match Utf8.decode? bytes with
  | some text => .counted (countLines text)
  | none => .undecodable

/-- Counts the lines of the file that a path leads to. -/
def countFile (fs : FileSystem) (path : Path) : LineCount :=
  match fs.openForReading path with
  | .error e => .unopened e
  | .ok opened =>
    match opened.read with
    | .error e => .unread e
    | .ok bytes => .ofBytes bytes

end SourceSurvey
