import SourceSurvey.Text.Utf8

/-!
# Reading a command line

A command knows a list of options, each with a long name and perhaps a short one. Arguments are
read from left to right. An option takes its value from the same argument (`--name=value`,
`-nvalue`, `-n=value`) or from the next one, which then may not begin with a minus sign unless it
is nothing else. Short options that take no value can share an argument.

A value from the next argument is pending until the next known option or the end: only then is it
checked, and an argument that is not known is reported before it. The result is the list of the
options that occurred, in order, with their values, or the first problem.
-/

set_option autoImplicit false

namespace SourceSurvey.CommandLine

/-- What a use of an option does. -/
inductive Action where
  /-- It is noted; once only. -/
  | switch
  /-- It asks for help. -/
  | help
  /-- It asks for the version. -/
  | version
  /-- It has a text as its value; once only unless `repeatable`. -/
  | text (repeatable : Bool)
  /-- It has a path that is not empty as its value; once only. -/
  | path
  /-- It has one of some names, in upper or lower case, as its value; once only. -/
  | choice (names : List String)
  deriving DecidableEq, Repr

/-- An option of a command. -/
structure OptionRule (κ : Type) where
  /-- What the option is. -/
  key : κ
  /-- The name after two minus signs. -/
  long : String
  /-- The ASCII letter after one minus sign. -/
  short : Option Char
  /-- What a use of it does. -/
  action : Action
  deriving DecidableEq, Repr

/-- What is wrong with a command line; asking for help or for the version is among it, since nothing
else is done then. -/
inductive Problem where
  /-- Help is asked for. -/
  | help
  /-- The version is asked for. -/
  | version
  /-- An argument is not known. -/
  | unknownArgument
  /-- A value is missing or not allowed. -/
  | invalidValue
  /-- An option is used twice. -/
  | conflict
  /-- An option without a value is given one. -/
  | tooManyValues
  /-- A value is not UTF-8. -/
  | invalidUtf8
  deriving DecidableEq, Repr

/-- Whether the program ends well: it does if it was only asked about itself. -/
def Problem.isRequest : Problem → Bool
  | .help => true
  | .version => true
  | _ => false

/-- An option that was used, with its value. -/
structure Use (κ : Type) where
  /-- The option. -/
  key : κ
  /-- Its value; empty for an option without one. -/
  value : List UInt8
  deriving DecidableEq, Repr

/-- The state of reading: the uses so far, and an option whose value is in the next argument or was
in the last one. -/
structure State (κ : Type) where
  /-- The uses that have been checked, in order. -/
  uses : List (Use κ)
  /-- An option that has not been checked, with its value if that has been seen. -/
  pending : Option (OptionRule κ × Option (List UInt8))

variable {κ : Type} [DecidableEq κ]

/-- The byte `-`. -/
def minus : UInt8 := 0x2D

/-- The byte `=`. -/
def equals : UInt8 := 0x3D

namespace Action

/-- Whether an option takes a value. -/
def takesValue : Action → Bool
  | .switch => false
  | .help => false
  | .version => false
  | _ => true

/-- Whether an option may be used more than once. -/
def isRepeatable : Action → Bool
  | .text repeatable => repeatable
  | _ => false

/-- A text in lower case, as far as it is ASCII. -/
def lower (text : String) : String := String.ofList (text.toList.map Char.toLower)

/-- What is wrong with a value, if anything. -/
def problemWith (action : Action) (value : List UInt8) : Option Problem :=
  match action with
  | .text _ => if (Utf8.decode? value).isSome then none else some .invalidUtf8
  | .path => if value = [] then some .invalidValue else none
  | .choice names =>
    match Utf8.toString? value with
    | some name => if names.any (lower · = lower name) then none else some .invalidValue
    | none => some .invalidValue
  | _ => none

end Action

namespace State

/-- Notes a use of an option, after which no option is pending; a second use is reported before what
is wrong with the value. -/
def note (state : State κ) (rule : OptionRule κ) (value : List UInt8) : Except Problem (State κ) :=
  if !rule.action.isRepeatable && state.uses.any (·.key = rule.key) then .error .conflict
  else match rule.action.problemWith value with
    | some problem => .error problem
    | none => .ok ⟨state.uses ++ [⟨rule.key, value⟩], none⟩

/-- Checks the option that is pending. -/
def settle (state : State κ) : Except Problem (State κ) :=
  match state.pending with
  | none => .ok state
  | some (_, none) => .error .invalidValue
  | some (rule, some value) => state.note rule value

/-- Uses an option that takes no value. -/
def useSwitch (state : State κ) (rule : OptionRule κ) : Except Problem (State κ) := do
  let state ← state.settle
  match rule.action with
  | .help => .error .help
  | .version => .error .version
  | _ => state.note rule []

/-- Uses an option with a value from the same argument, or waits for the value. -/
def useOption (state : State κ) (rule : OptionRule κ) (attached : Option (List UInt8)) :
    Except Problem (State κ) := do
  let state ← state.settle
  match attached with
  | some value => state.note rule value
  | none => .ok { state with pending := some (rule, none) }

end State

/-- The option with a long name. -/
def findLong? (rules : List (OptionRule κ)) (name : List UInt8) : Option (OptionRule κ) :=
  rules.find? (Utf8.ofString ·.long = name)

/-- The option with a short name. -/
def findShort? (rules : List (OptionRule κ)) (letter : UInt8) : Option (OptionRule κ) :=
  rules.find? fun rule => rule.short.any (·.toNat = letter.toNat)

/-- Reads an argument after its two minus signs. -/
def readLong (rules : List (OptionRule κ)) (state : State κ) (argument : List UInt8) :
    Except Problem (State κ) :=
  let value := match argument.dropWhile (· ≠ equals) with
    | [] => none
    | _ :: value => some value
  match findLong? rules (argument.takeWhile (· ≠ equals)) with
  | none => .error .unknownArgument
  | some rule =>
    if rule.action.takesValue then state.useOption rule value
    -- A value for an option that takes none is reported before the pending option is checked.
    else match value with
      | some _ => .error .tooManyValues
      | none => state.useSwitch rule

/-- The value in the same argument after a short name; an equals sign before it is dropped. -/
def attachedValue : List UInt8 → Option (List UInt8)
  | [] => none
  | b :: rest => if b = equals then some rest else some (b :: rest)

/-- Reads an argument after its one minus sign. -/
def readShort (rules : List (OptionRule κ)) (state : State κ) : List UInt8 →
    Except Problem (State κ)
  | [] => .ok state
  | letter :: rest =>
    match findShort? rules letter with
    | none => .error .unknownArgument
    | some rule =>
      if rule.action.takesValue then state.useOption rule (attachedValue rest)
      else
        match state.useSwitch rule with
        | .error e => .error e
        | .ok state => readShort rules state rest

/-- Reads an argument that names no option: the value of the option that waits for one. -/
def readPlain (state : State κ) (argument : List UInt8) : Except Problem (State κ) :=
  match state.pending with
  | some (rule, none) => .ok { state with pending := some (rule, some argument) }
  | _ => .error .unknownArgument

/-- Reads an argument. -/
def readArgument (rules : List (OptionRule κ)) (state : State κ) (argument : List UInt8) :
    Except Problem (State κ) :=
  match argument with
  | b :: c :: rest =>
    if b = minus then
      if c = minus then readLong rules state rest else readShort rules state (c :: rest)
    else readPlain state argument
  | _ => readPlain state argument

/-- Reads arguments. After two minus signs that stand alone no option can follow, so whatever
follows is not known. -/
def readArguments (rules : List (OptionRule κ)) (state : State κ) : List (List UInt8) →
    Except Problem (State κ)
  | [] => .ok state
  | argument :: rest =>
    if argument = [minus, minus] then
      if rest = [] then .ok state else .error .unknownArgument
    else do
      let state ← readArgument rules state argument
      readArguments rules state rest

/-- The uses of options on a command line; the first argument, the name of the command, is not
looked at. -/
def read (rules : List (OptionRule κ)) (arguments : List (List UInt8)) :
    Except Problem (List (Use κ)) := do
  let state ← readArguments rules ⟨[], none⟩ arguments.tail
  let state ← state.settle
  .ok state.uses

/-- The value of the first use of an option. -/
def valueOf? (uses : List (Use κ)) (key : κ) : Option (List UInt8) :=
  (uses.find? (·.key = key)).map (·.value)

/-- Whether an option was used. -/
def isUsed (uses : List (Use κ)) (key : κ) : Bool := uses.any (·.key = key)

end SourceSurvey.CommandLine
