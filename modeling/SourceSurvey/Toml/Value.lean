/-!
# TOML values

A value of a TOML document. A table is the list of its entries in the order in which they were
written; its keys are distinct. Numbers are kept as far as a reader of settings can tell them apart:
an integer that fits into no 128 bits, and a float beyond the greatest double, have no value.
-/

set_option autoImplicit false

namespace SourceSurvey.Toml

/-- A value. -/
inductive Value where
  /-- A string. -/
  | string (text : String)
  /-- An integer, if it is within range. -/
  | integer (value : Option Int)
  /-- A float; only whether it is within range is kept. -/
  | float (inRange : Bool)
  /-- True or false. -/
  | boolean (value : Bool)
  /-- A date, a time of day, or both, in its standard form. -/
  | moment (text : String)
  /-- An array. -/
  | array (items : List Value)
  /-- A table. -/
  | table (entries : List (String × Value))
  deriving Inhabited

end SourceSurvey.Toml
