import SourceSurvey.Toml.Moment
import SourceSurvey.Toml.Quoted
import SourceSurvey.Toml.Table

/-!
# TOML documents

A document is read line by line: a line is blank, a header, or a key with a value, and each may end
in a comment. The result is the table of the document, or nothing if the text breaks a rule of TOML
anywhere. Arrays and inline tables may be nested `maxDepth` deep.

Readers take the text from where they start and give what they read and the text after it.
-/

set_option autoImplicit false

namespace SourceSurvey.Toml.Document

/-- How deep arrays and inline tables may be nested. -/
def maxDepth : Nat := 80

/-! ## Blanks and comments -/

/-- The text after blanks. -/
def skipBlanks (text : List Char) : List Char :=
  text.dropWhile fun c => c = ' ' || c = '\t'

/-- The text from the end of the line on, after a comment; none if the comment holds a control
character. -/
def skipComment? : List Char → Option (List Char)
  | [] => some []
  | '\n' :: rest => some ('\n' :: rest)
  | '\r' :: '\n' :: rest => some ('\n' :: rest)
  | c :: rest => if Quoted.isPrintable c then skipComment? rest else none

/-- The text after blanks, comments and line ends. `fuel` bounds the number of lines. -/
def skipLines? : (fuel : Nat) → List Char → Option (List Char)
  | 0, _ => none
  | fuel + 1, text =>
    match skipBlanks text with
    | '\n' :: rest => skipLines? fuel rest
    | '\r' :: '\n' :: rest => skipLines? fuel rest
    | '#' :: rest => (skipComment? rest).bind (skipLines? fuel)
    | rest => some rest

/-- The text of the next line, if nothing but a comment is left of this one. -/
def endLine? (text : List Char) : Option (List Char) :=
  match skipBlanks text with
  | [] => some []
  | '\n' :: rest => some rest
  | '\r' :: '\n' :: rest => some rest
  | '#' :: rest =>
    match skipComment? rest with
    | some ('\n' :: rest) => some rest
    | some rest => some rest
    | none => none
  | _ => none

/-! ## Keys -/

/-- Whether a character may stand in a key without quotes. -/
def isBare (c : Char) : Bool := c.isAlphanum || c = '_' || c = '-'

/-- Reads one part of a key. -/
def keyPart? (text : List Char) : Option (String × List Char) :=
  match text with
  | '"' :: _ => Quoted.oneLine? text
  | '\'' :: _ => Quoted.oneLine? text
  | _ =>
    let bare := text.takeWhile isBare
    if bare = [] then none else some (String.ofList bare, text.dropWhile isBare)

/-- Reads a key: its parts but the last, and the last. `fuel` bounds the number of parts. -/
def key? : (fuel : Nat) → List Char → Option ((List String × String) × List Char)
  | 0, _ => none
  | fuel + 1, text =>
    match keyPart? (skipBlanks text) with
    | none => none
    | some (part, rest) =>
      match skipBlanks rest with
      | '.' :: rest =>
        (key? fuel rest).map fun ((path, last), rest) => ((part :: path, last), rest)
      | rest => some (([], part), rest)

/-! ## Values -/

/-- Whether a character may stand in a value without quotes. -/
def isScalarChar (c : Char) : Bool :=
  !(c = ' ' || c = '\t' || c = '\n' || c = '\r' || c = ',' || c = ']' || c = '}' || c = '#')

/-- The value of a text without quotes. -/
def scalarOf? (text : List Char) : Option Value :=
  if text = "true".toList then some (.boolean true)
  else if text = "false".toList then some (.boolean false)
  else (Number.integer? text <|> Number.float? text) <|> Moment.parse? text

/-- Reads a value without quotes. A date goes on after a blank if a digit follows. -/
def scalar? (text : List Char) : Option (Value × List Char) :=
  let first := text.takeWhile isScalarChar
  let rest := text.dropWhile isScalarChar
  match rest with
  | ' ' :: c :: more =>
    -- The blank may stand for the `T` between a date and a time.
    if Moment.isDate first && c.isDigit then
      let second := (c :: more).takeWhile isScalarChar
      (scalarOf? (first ++ ' ' :: second)).map fun value =>
        (value, (c :: more).dropWhile isScalarChar)
    else (scalarOf? first).map fun value => (value, rest)
  | _ => (scalarOf? first).map fun value => (value, rest)

mutual

/-- Reads a value. `depth` more arrays and inline tables may be opened; `fuel` bounds the number of
steps. -/
def value? : (fuel depth : Nat) → List Char → Option (Value × List Char)
  | 0, _, _ => none
  | fuel + 1, depth, text =>
    match text with
    | '[' :: rest =>
      match depth with
      | 0 => none
      | depth + 1 => arrayItems? fuel depth [] rest
    | '{' :: rest =>
      match depth with
      | 0 => none
      | depth + 1 => inlineEntries? fuel depth [] rest
    | '"' :: _ => (Quoted.string? text).map fun (s, rest) => (.string s, rest)
    | '\'' :: _ => (Quoted.string? text).map fun (s, rest) => (.string s, rest)
    | _ => scalar? text

/-- Reads the items of an array up to the closing bracket, after those read so far. -/
def arrayItems? : (fuel depth : Nat) → (items : List Value) → List Char →
    Option (Value × List Char)
  | 0, _, _, _ => none
  | fuel + 1, depth, items, text =>
    match skipLines? (text.length + 1) text with
    | none => none
    -- The end of an empty array, or of one with a comma behind its last item.
    | some (']' :: rest) => some (.array items.reverse, rest)
    | some text =>
      match value? fuel depth text with
      | none => none
      | some (item, rest) =>
        match skipLines? (rest.length + 1) rest with
        | some (',' :: rest) => arrayItems? fuel depth (item :: items) rest
        | some (']' :: rest) => some (.array (item :: items).reverse, rest)
        | _ => none

/-- Reads the entries of an inline table up to the closing brace, after those read so far. -/
def inlineEntries? : (fuel depth : Nat) → (entries : Open.Entries) → List Char →
    Option (Value × List Char)
  | 0, _, _, _ => none
  | fuel + 1, depth, entries, text =>
    match skipLines? (text.length + 1) text with
    | none => none
    -- As in an array, a comma may stand behind the last entry.
    | some ('}' :: rest) => some (.table (Open.closeEntries entries), rest)
    | some text =>
      match key? (text.length + 1) text with
      | some ((path, key), '=' :: rest) =>
        match value? fuel depth (skipBlanks rest) with
        | none => none
        | some (value, rest) =>
          match Open.assign path key value entries with
          | none => none
          | some entries =>
            match skipLines? (rest.length + 1) rest with
            | some (',' :: rest) => inlineEntries? fuel depth entries rest
            | some ('}' :: rest) => some (.table (Open.closeEntries entries), rest)
            | _ => none
      | _ => none

end

/-! ## Lines -/

/-- What has been read of a document. -/
structure State where
  /-- The header that is current. -/
  header : List String
  /-- The entries of the document. -/
  entries : Open.Entries

/-- Reads a header after its opening bracket. -/
def header? (state : State) (text : List Char) : Option (State × List Char) :=
  match text with
  -- With a second bracket the header opens one more table of an array.
  | '[' :: text =>
    match key? (text.length + 1) text with
    | some ((path, key), ']' :: ']' :: rest) =>
      (state.entries |> Open.openArrayTable path key).map fun entries =>
        (⟨path ++ [key], entries⟩, rest)
    | _ => none
  | text =>
    match key? (text.length + 1) text with
    | some ((path, key), ']' :: rest) =>
      (state.entries |> Open.openTable path key).map fun entries =>
        (⟨path ++ [key], entries⟩, rest)
    | _ => none

/-- Reads a key and its value. -/
def assignment? (state : State) (text : List Char) : Option (State × List Char) :=
  match key? (text.length + 1) text with
  | some ((path, key), '=' :: rest) =>
    -- Of two steps in a row one takes a character, so this fuel is enough.
    match value? (2 * rest.length + 2) maxDepth (skipBlanks rest) with
    | none => none
    | some (value, rest) =>
      (state.entries |> Open.assignBelow state.header path key value).map fun entries =>
        ({ state with entries }, rest)
  | _ => none

/-- Reads lines to the end of the document. `fuel` bounds the number of lines. -/
def lines? : (fuel : Nat) → State → List Char → Option State
  | 0, _, _ => none
  | fuel + 1, state, text =>
    match skipBlanks text with
    | [] => some state
    | '\n' :: rest => lines? fuel state rest
    | '\r' :: '\n' :: rest => lines? fuel state rest
    | '#' :: rest => (endLine? ('#' :: rest)).bind (lines? fuel state)
    | '[' :: rest =>
      match header? state rest with
      | none => none
      | some (state, rest) => (endLine? rest).bind (lines? fuel state)
    | text =>
      match assignment? state text with
      | none => none
      | some (state, rest) => (endLine? rest).bind (lines? fuel state)

/-- The entries of a document; none if the text is not TOML. A byte order mark at the beginning is
skipped. -/
def parse? (text : String) : Option (List (String × Value)) :=
  let chars := match text.toList with
    | '\uFEFF' :: rest => rest
    | chars => chars
  (lines? (chars.length + 1) ⟨[], []⟩ chars).map fun state => Open.closeEntries state.entries

end SourceSurvey.Toml.Document
