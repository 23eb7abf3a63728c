import SourceSurvey.Toml.Value

/-!
# Numbers in TOML

Integers in four bases and floats. Underscores may stand between digits. The digits after the mark
of another base than ten may be missing; such an integer is well formed and has no value. An
integer has a value if 128 bits hold it, signed or not, and a float if it is nearer to some double
than to the one that would come after the greatest.
-/

set_option autoImplicit false

namespace SourceSurvey.Toml.Number

/-- The value of a digit in any base up to sixteen. -/
def digitValue (c : Char) : Nat :=
  if c.isDigit then c.toNat - '0'.toNat
  else if 'a' ≤ c && c ≤ 'f' then c.toNat - 'a'.toNat + 10
  else if 'A' ≤ c && c ≤ 'F' then c.toNat - 'A'.toNat + 10
  else 16

/-- Whether a character is a digit of a base. -/
def isDigitOf (base : Nat) (c : Char) : Bool := digitValue c < base

/-- The digits of a run of digits in which underscores stand only between two digits; none if the
run is not of this form. `afterDigit` says whether a digit stands before the run. -/
def digitRun? (base : Nat) (afterDigit : Bool) : List Char → Option (List Char)
  | [] => some []
  | '_' :: c :: rest =>
    if afterDigit && isDigitOf base c then (digitRun? base true rest).map (c :: ·) else none
  | c :: rest =>
    if isDigitOf base c then (digitRun? base true rest).map (c :: ·) else none

/-- The number that digits make up. -/
def ofDigits (base : Nat) (digits : List Char) : Nat :=
  digits.foldl (fun n c => n * base + digitValue c) 0

/-- The digits of a run that is not empty. -/
def digits? (base : Nat) (run : List Char) : Option (List Char) :=
  if run = [] then none else digitRun? base false run

/-- The digits of a decimal run that is not empty and has no zero before other digits. -/
def decimal? (run : List Char) : Option (List Char) :=
  match digits? 10 run with
  | some ('0' :: _ :: _) => none
  | result => result

/-- A sign and what stands after it: whether the sign is a minus. -/
def splitSign : List Char → Bool × List Char
  | '-' :: rest => (true, rest)
  | '+' :: rest => (false, rest)
  | rest => (false, rest)

/-- An integer, if 128 bits hold it. -/
def inRange (n : Int) : Option Int :=
  if -(Nat.pow 2 127 : Int) ≤ n ∧ n < Nat.pow 2 128 then some n else none

/-- An integer in another base than ten, without the mark of the base. -/
def radixInteger? (base : Nat) (run : List Char) : Option Value :=
  match digitRun? base false run with
  | none => none
  | some [] => some (.integer none)
  | some digits => some (.integer (inRange (ofDigits base digits)))

/-- An integer. -/
def integer? (text : List Char) : Option Value :=
  match text with
  | '0' :: 'x' :: run => radixInteger? 16 run
  | '0' :: 'o' :: run => radixInteger? 8 run
  | '0' :: 'b' :: run => radixInteger? 2 run
  | _ =>
    let (negative, run) := splitSign text
    (decimal? run).map fun digits =>
      let n : Int := ofDigits 10 digits
      .integer (inRange (if negative then -n else n))

/-- Whether digits times a power of ten are below the point from which on a number is beyond the
greatest double: halfway between that double and the power of two after it. -/
def isFinite (digits : List Char) (exponent : Int) : Bool :=
  let significant := digits.dropWhile (· = '0')
  let magnitude := significant.length + exponent
  if significant = [] || magnitude < 309 then true
  else if 309 < magnitude then false
  else
    -- There are 309 digits before the point, as many as the greatest double has.
    let n := ofDigits 10 significant
    let limit := Nat.pow 2 1024 - Nat.pow 2 970
    if 0 ≤ exponent then decide (n * Nat.pow 10 exponent.toNat < limit)
    else decide (n < limit * Nat.pow 10 (-exponent).toNat)

/-- Whether a character begins the exponent of a float. -/
def isExponentMark (c : Char) : Bool := c = 'e' || c = 'E'

/-- The exponent of a float: nothing, or a mark, a sign and digits. -/
def exponent? : List Char → Option Int
  | [] => some 0
  | c :: rest =>
    if isExponentMark c then
      let (negative, run) := splitSign rest
      (digits? 10 run).map fun digits =>
        let n : Int := ofDigits 10 digits
        if negative then -n else n
    else none

/-- A float without its sign: digits, a fraction or an exponent or both. -/
def unsignedFloat? (text : List Char) : Option Value :=
  let whole := text.takeWhile fun c => c ≠ '.' && !isExponentMark c
  match text.dropWhile fun c => c ≠ '.' && !isExponentMark c with
  | '.' :: rest =>
    let fraction := rest.takeWhile (!isExponentMark ·)
    match decimal? whole, digits? 10 fraction, exponent? (rest.dropWhile (!isExponentMark ·)) with
    | some whole, some fraction, some exponent =>
      some (.float (isFinite (whole ++ fraction) (exponent - fraction.length)))
    | _, _, _ => none
  | [] => none
  | rest =>
    match decimal? whole, exponent? rest with
    | some whole, some exponent => some (.float (isFinite whole exponent))
    | _, _ => none

/-- A float. -/
def float? (text : List Char) : Option Value :=
  let (_, rest) := splitSign text
  if rest = "inf".toList || rest = "nan".toList then some (.float true)
  else unsignedFloat? rest

end SourceSurvey.Toml.Number
