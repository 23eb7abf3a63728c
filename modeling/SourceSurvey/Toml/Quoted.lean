/-!
# Strings in TOML

Strings stand between single or double quotes, or between three of them; those of the second kind
may hold line ends. Escapes are read between double quotes only.

Every function reads from the text after the opening quotes and gives what was read and the text
after the closing quotes. A line end inside a string is read as a line feed.
-/

set_option autoImplicit false

namespace SourceSurvey.Toml.Quoted

/-- Whether a character may stand in a string or a comment: it is a tab or no control character. -/
def isPrintable (c : Char) : Bool :=
  c = '\t' || (0x20 ≤ c.toNat && c.toNat ≠ 0x7F)

/-- The value of a hexadecimal digit. -/
def hexValue? (c : Char) : Option Nat :=
  if c.isDigit then some (c.toNat - '0'.toNat)
  else if 'a' ≤ c && c ≤ 'f' then some (c.toNat - 'a'.toNat + 10)
  else if 'A' ≤ c && c ≤ 'F' then some (c.toNat - 'A'.toNat + 10)
  else none

/-- Reads the number that `n` hexadecimal digits write. -/
def hexNumber? : Nat → Nat → List Char → Option (Nat × List Char)
  | 0, value, text => some (value, text)
  | _ + 1, _, [] => none
  | n + 1, value, c :: rest =>
    match hexValue? c with
    | some digit => hexNumber? n (value * 16 + digit) rest
    | none => none

/-- Reads the character that `n` hexadecimal digits write. -/
def hexChar? (n : Nat) (text : List Char) : Option (Char × List Char) :=
  match hexNumber? n 0 text with
  | some (code, rest) => if code.isValidChar then some (Char.ofNat code, rest) else none
  | none => none

/-- Reads an escape after its backslash. -/
def escape? : List Char → Option (Char × List Char)
  | 'b' :: rest => some ('\x08', rest)
  | 't' :: rest => some ('\t', rest)
  | 'n' :: rest => some ('\n', rest)
  | 'f' :: rest => some ('\x0C', rest)
  | 'r' :: rest => some ('\r', rest)
  | 'e' :: rest => some ('\x1B', rest)
  | '"' :: rest => some ('"', rest)
  | '\\' :: rest => some ('\\', rest)
  | 'x' :: rest => hexChar? 2 rest
  | 'u' :: rest => hexChar? 4 rest
  | 'U' :: rest => hexChar? 8 rest
  | _ => none

/-- Reads a string up to a single quote. -/
def literal? : List Char → Option (List Char × List Char)
  | [] => none
  | '\'' :: rest => some ([], rest)
  | c :: rest =>
    if isPrintable c then (literal? rest).map fun (text, after) => (c :: text, after) else none

/-- Reads a string up to a double quote. `fuel` bounds the number of characters. -/
def basic? : (fuel : Nat) → List Char → Option (List Char × List Char)
  | 0, _ => none
  | _ + 1, [] => none
  | _ + 1, '"' :: rest => some ([], rest)
  | fuel + 1, '\\' :: rest => do
    let (c, rest) ← escape? rest
    let (text, after) ← basic? fuel rest
    some (c :: text, after)
  | fuel + 1, c :: rest =>
    if isPrintable c then (basic? fuel rest).map fun (text, after) => (c :: text, after) else none

/-- The text without a line end at its beginning. -/
def skipLineEnd : List Char → List Char
  | '\n' :: rest => rest
  | '\r' :: '\n' :: rest => rest
  | text => text

/-- The end of a string between three quotes: up to two more quotes belong to the string. -/
def closing? (quote : Char) (text : List Char) : Option (List Char × List Char) :=
  let quotes := (text.takeWhile (· = quote)).length
  if quotes < 3 then none
  else
    -- Of a longer run the last three quotes close the string.
    let inside := min (quotes - 3) 2
    some (List.replicate inside quote, text.drop (inside + 3))

/-- The text after a backslash that stands at the end of a line: blanks and line ends are skipped.
None if something else follows on the line. -/
def lineContinuation? (text : List Char) : Option (List Char) :=
  let afterBlanks := text.dropWhile fun c => c = ' ' || c = '\t'
  match afterBlanks with
  | '\n' :: _ => some (skipAll afterBlanks)
  | '\r' :: '\n' :: _ => some (skipAll afterBlanks)
  | _ => none
where
  /-- The text after all blanks and line ends. -/
  skipAll : List Char → List Char
    | ' ' :: rest => skipAll rest
    | '\t' :: rest => skipAll rest
    | '\n' :: rest => skipAll rest
    | '\r' :: '\n' :: rest => skipAll rest
    | text => text

/-- Reads a string up to three quotes; `escapes` says whether backslashes have a meaning. `fuel`
bounds the number of characters. -/
def multiLine? (quote : Char) (escapes : Bool) : (fuel : Nat) → List Char →
    Option (List Char × List Char)
  | 0, _ => none
  | fuel + 1, text =>
    match closing? quote text with
    | some result => some result
    | none =>
      match text with
      | [] => none
      | '\n' :: rest => more '\n' (multiLine? quote escapes fuel rest)
      | '\r' :: '\n' :: rest => more '\n' (multiLine? quote escapes fuel rest)
      | c :: rest =>
        if escapes && c = '\\' then
          match lineContinuation? rest with
          | some rest => multiLine? quote escapes fuel rest
          | none =>
            match escape? rest with
            | some (c, rest) => more c (multiLine? quote escapes fuel rest)
            | none => none
        else if isPrintable c then more c (multiLine? quote escapes fuel rest)
        else none
where
  /-- Puts a character before what was read. -/
  more (c : Char) (result : Option (List Char × List Char)) : Option (List Char × List Char) :=
    result.map fun (text, after) => (c :: text, after)

/-- Reads a string that ends on the line on which it begins. -/
def oneLine? : List Char → Option (String × List Char)
  | '"' :: rest =>
    (basic? (rest.length + 1) rest).map fun (text, after) => (String.ofList text, after)
  | '\'' :: rest => (literal? rest).map fun (text, after) => (String.ofList text, after)
  | _ => none

/-- Reads a string of any kind; none if the text does not begin with quotes or the string is not
well formed. -/
def string? : List Char → Option (String × List Char)
  | '"' :: '"' :: '"' :: rest =>
    (multiLine? '"' true (rest.length + 1) (skipLineEnd rest)).map fun (text, after) =>
      (String.ofList text, after)
  | '\'' :: '\'' :: '\'' :: rest =>
    (multiLine? '\'' false (rest.length + 1) (skipLineEnd rest)).map fun (text, after) =>
      (String.ofList text, after)
  | text => oneLine? text

end SourceSurvey.Toml.Quoted
