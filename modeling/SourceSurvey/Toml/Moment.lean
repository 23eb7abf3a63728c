import SourceSurvey.Toml.Number

/-!
# Dates and times in TOML

A moment is a date, a time of day, or a date and a time with or without an offset. It is read only
if it can occur: months have their lengths, leap years included, and a minute may have a leap
second. The standard form of a moment has a `T` between date and time and no zeros at the end of a
fraction of a second.
-/

set_option autoImplicit false

namespace SourceSurvey.Toml.Moment

/-- Reads exactly `n` decimal digits and gives their value and text. -/
def number? (n : Nat) (text : List Char) : Option (Nat × List Char) :=
  let digits := text.take n
  if digits.length = n && digits.all Char.isDigit then
    some (Number.ofDigits 10 digits, text.drop n)
  else none

/-- A number with at least `width` digits. -/
def padded (width n : Nat) : String :=
  let digits := toString n
  String.ofList (List.replicate (width - digits.length) '0') ++ digits

/-- The number of days of a month. -/
def daysOf (year month : Nat) : Nat :=
  if month = 2 then
    if year % 4 = 0 && (year % 100 ≠ 0 || year % 400 = 0) then 29 else 28
  else if month = 4 || month = 6 || month = 9 || month = 11 then 30
  else 31

/-- Reads a date: its standard form and the rest. -/
def date? (text : List Char) : Option (String × List Char) := do
  let (year, rest) ← number? 4 text
  let '-' :: rest := rest | none
  let (month, rest) ← number? 2 rest
  let '-' :: rest := rest | none
  let (day, rest) ← number? 2 rest
  if 1 ≤ month && month ≤ 12 && 1 ≤ day && day ≤ daysOf year month then
    some (padded 4 year ++ "-" ++ padded 2 month ++ "-" ++ padded 2 day, rest)
  else none

/-- Reads the fraction of a second: its standard form and the rest. -/
def fraction? (text : List Char) : Option (String × List Char) :=
  match text with
  | '.' :: rest =>
    let digits := rest.takeWhile Char.isDigit
    let kept := ((digits.take 9).reverse.dropWhile (· = '0')).reverse
    if digits = [] then none
    else some (if kept = [] then "" else "." ++ String.ofList kept, rest.dropWhile Char.isDigit)
  | rest => some ("", rest)

/-- Reads a time of day: its standard form and the rest. The seconds may be missing. -/
def time? (text : List Char) : Option (String × List Char) := do
  let (hour, rest) ← number? 2 text
  let ':' :: rest := rest | none
  let (minute, rest) ← number? 2 rest
  if 23 < hour || 59 < minute then none
  let short := padded 2 hour ++ ":" ++ padded 2 minute
  match rest with
  | ':' :: rest =>
    let (second, rest) ← number? 2 rest
    if 60 < second then none
    let (fraction, rest) ← fraction? rest
    some (short ++ ":" ++ padded 2 second ++ fraction, rest)
  | rest => some (short, rest)

/-- Reads an offset, which may be missing: its standard form and the rest. -/
def offset? (text : List Char) : Option (String × List Char) :=
  match text with
  | [] => some ("", [])
  | 'Z' :: rest => some ("Z", rest)
  | 'z' :: rest => some ("Z", rest)
  | sign :: rest =>
    if sign = '+' || sign = '-' then do
      let (hours, rest) ← number? 2 rest
      let ':' :: rest := rest | none
      let (minutes, rest) ← number? 2 rest
      if 23 < hours || 59 < minutes then none
      some (String.singleton sign ++ padded 2 hours ++ ":" ++ padded 2 minutes, rest)
    else none

/-- A date and what may follow it. -/
def dated? (text : List Char) : Option String := do
  let (date, rest) ← date? text
  match rest with
  | [] => some date
  | separator :: rest =>
    if separator = 'T' || separator = 't' || separator = ' ' then do
      let (time, rest) ← time? rest
      let (offset, rest) ← offset? rest
      if rest = [] then some (date ++ "T" ++ time ++ offset) else none
    else none

/-- Reads a moment. -/
def parse? (text : List Char) : Option Value :=
  match dated? text with
  | some moment => some (.moment moment)
  | none =>
    match time? text with
    | some (time, []) => some (.moment time)
    | _ => none

/-- Whether a text looks like a date without a time. -/
def isDate (text : List Char) : Bool :=
  match text with
  | [y₁, y₂, y₃, y₄, '-', m₁, m₂, '-', d₁, d₂] =>
    [y₁, y₂, y₃, y₄, m₁, m₂, d₁, d₂].all Char.isDigit
  | _ => false

end SourceSurvey.Toml.Moment
