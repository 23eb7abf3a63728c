import SourceSurvey.Text.Unprintable

/-!
# Quoted texts

A text between double quotes, as the log shows the arguments of a program. Quotes and backslashes
stand behind a backslash, the common controls have escapes of one letter, and any other character
that cannot be shown alone is written as its code point in braces.
-/

set_option autoImplicit false

namespace SourceSurvey.Quoted

/-- The code point of a character in braces. -/
def codePoint (c : Char) : List Char :=
  "\\u\x7b".toList ++ Nat.toDigits 16 c.toNat ++ ['\x7d']

/-- A character inside a quoted text. -/
def quoteChar (c : Char) : List Char :=
  if c = '\x00' then "\\0".toList
  else if c = '\t' then "\\t".toList
  else if c = '\r' then "\\r".toList
  else if c = '\n' then "\\n".toList
  else if c = '"' then "\\\"".toList
  else if c = '\\' then "\\\\".toList
  else if Unprintable.contains c then codePoint c
  else [c]

/-- A text between double quotes. -/
def quote (text : String) : String :=
  "\"" ++ String.ofList (text.toList.flatMap quoteChar) ++ "\""

/-- Quoted texts between brackets. -/
def quoteList (texts : List String) : String :=
  "[" ++ ", ".intercalate (texts.map quote) ++ "]"

end SourceSurvey.Quoted
