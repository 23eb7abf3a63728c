import SourceSurvey.Config.Basic
import SourceSurvey.Toml.Document

/-!
# The settings in a document

A document may have the keys of the settings and no others, each with a value of the right type;
what it does not say keeps its default. The keys of a table are looked at in increasing order, and
the first problem is reported: an unknown key when the key is looked at, a wrong value when its
value is.

A group of settings can also be written as an array that gives them in a fixed order. It may be
shorter than the group, and what is beyond the group is not looked at. A date or time counts as a
table with a single key, `momentKey`.
-/

set_option autoImplicit false

namespace SourceSurvey

/-- Why a document gives no settings. -/
inductive SchemaFault where
  /-- The text is not TOML, or a number in it is out of range. -/
  | malformed
  /-- A table has a key that it may not have; the keys that it may have are given. -/
  | unknownField (field : String) (expected : List String)
  /-- A value is of the wrong type. -/
  | wrongType
  deriving DecidableEq, Repr

/-- A list of alternatives in words. -/
def SchemaFault.alternatives (names : List String) : String :=
  match names.map fun name => "`" ++ name ++ "`" with
  | [] => "there are no fields"
  | [a] => "expected " ++ a
  | [a, b] => "expected " ++ a ++ " or " ++ b
  | names => "expected one of " ++ ", ".intercalate names

/-- The wording of a fault. -/
def SchemaFault.message : SchemaFault → String
  | .malformed => "syntax"
  | .unknownField field expected =>
    "unknown field `" ++ field ++ "`, " ++ alternatives expected
  | .wrongType => "invalid type"

namespace Schema

open Toml (Value)

/-- The key under which a date or time stands when it is taken for a table. -/
def momentKey : String := "$__toml_private_datetime"

/-- What is wrong with a value where another type is wanted. -/
def mismatch : Value → SchemaFault
  | .integer none => .malformed
  | .float false => .malformed
  | _ => .wrongType

/-- The entries of a value that is a table or counts as one. -/
def tableOf? : Value → Option (List (String × Value))
  | .table entries => some entries
  | .moment text => some [(momentKey, .string text)]
  | _ => none

/-- The entries of a table in increasing order of their keys. -/
def inOrder (entries : List (String × Value)) : List (String × Value) :=
  (SortedMap.ofList entries).entries

/-- A string. -/
def readString : Value → Except SchemaFault String
  | .string text => .ok text
  | v => .error (mismatch v)

/-- A path, which may be any string. -/
def readPath (v : Value) : Except SchemaFault Path :=
  (readString v).map Path.ofString

/-- An array of strings. -/
def readStrings : Value → Except SchemaFault (List String)
  | .array items => items.mapM readString
  | v => .error (mismatch v)

/-- A table of strings. -/
def readMap (v : Value) : Except SchemaFault (SortedMap String) :=
  match tableOf? v with
  | none => .error (mismatch v)
  | some entries => do
    let pairs ← (inOrder entries).mapM fun (key, v) => (readString v).map fun text => (key, text)
    .ok (SortedMap.ofList pairs)

/-- A setting of a group: its key, and how its value changes the group. -/
structure Field (α : Type) where
  /-- The key. -/
  key : String
  /-- Reads the value. -/
  read : Value → α → Except SchemaFault α

/-- Reads a group written as a table. -/
def readTable {α : Type} (fields : List (Field α)) (entries : List (String × Value)) (group : α) :
    Except SchemaFault α :=
  (inOrder entries).foldlM
    (fun group (key, v) =>
      match fields.find? (·.key = key) with
      | some field => field.read v group
      | none => .error (.unknownField key (fields.map (·.key)))) group

/-- Reads a group written as an array. -/
def readArray {α : Type} : (fields : List (Field α)) → List Value → α → Except SchemaFault α
  | field :: fields, v :: items, group => do readArray fields items (← field.read v group)
  | _, _, group => .ok group

/-- Reads a group written as a table or as an array; what is not said stays as it is in `group`. -/
def readGroup {α : Type} (fields : List (Field α)) (v : Value) (group : α) : Except SchemaFault α :=
  match v with
  | .array items => readArray fields items group
  | v =>
    match tableOf? v with
    | some entries => readTable fields entries group
    | none => .error (mismatch v)

/-- The settings of a survey. -/
def surveyFields : List (Field SurveySettings) :=
  [⟨"exclude", fun v s => (readStrings v).map fun exclude => { s with exclude }⟩,
   ⟨"ignore", fun v s => (readStrings v).map fun ignore => { s with ignore }⟩,
   ⟨"extensions", fun v s => (readMap v).map fun extensions => { s with extensions }⟩]

/-- The programs of the indexing tools. -/
def toolFields : List (Field ToolPaths) :=
  [⟨"cscope", fun v t => (readPath v).map fun cscope => { t with cscope }⟩,
   ⟨"gtags", fun v t => (readPath v).map fun gtags => { t with gtags }⟩,
   ⟨"htags", fun v t => (readPath v).map fun htags => { t with htags }⟩,
   ⟨"doxygen", fun v t => (readPath v).map fun doxygen => { t with doxygen }⟩]

/-- The groups of a document. -/
def configFields : List (Field Config) :=
  [⟨"what", fun v c => (readGroup surveyFields v .default).map fun survey => { c with survey }⟩,
   ⟨"tools", fun v c => (readGroup toolFields v .default).map fun tools => { c with tools }⟩]

end Schema

/-- The settings that a table gives. -/
def Config.ofTable (entries : List (String × Toml.Value)) : Except SchemaFault Config :=
  Schema.readTable Schema.configFields entries .default

/-- The settings that a text gives. -/
def Config.parse (text : String) : Except SchemaFault Config :=
  match Toml.Document.parse? text with
  | none => .error .malformed
  | some entries => Config.ofTable entries

end SourceSurvey
