import SourceSurvey.Toml.Value

/-!
# Building tables

While a document is read its tables are open: headers and dotted keys add entries to them. An open
table remembers how it came about, for that decides what may still be added. A table with a header
of its own is closed to dotted keys from elsewhere and to a second header; a table that only stands
in the header of another one may still get a header; a table made by a dotted key may get more
dotted keys and no header. Inline tables and arrays are values and never change.

`Open.close` gives the value that an open entry has at the end.
-/

set_option autoImplicit false

namespace SourceSurvey.Toml

/-- How an open table came about. -/
inductive Origin where
  /-- It has a header of its own. -/
  | header
  /-- It is named in the header of a table inside it. -/
  | passed
  /-- It is named in a dotted key. -/
  | dotted
  deriving DecidableEq, Repr

/-- An entry of a table that is being built. -/
inductive Open where
  /-- A value that cannot change. -/
  | value (v : Value)
  /-- A table. -/
  | table (origin : Origin) (entries : List (String × Open))
  /-- An array of tables: the finished ones, newest first, and the entries of the current one. -/
  | tables (finished : List (List (String × Open))) (current : List (String × Open))
  deriving Inhabited

namespace Open

/-- The entries of an open table. -/
abbrev Entries := List (String × Open)

mutual

/-- The value of an entry. -/
def close : Open → Value
  | .value v => v
  | .table _ entries => .table (closeEntries entries)
  | .tables finished current =>
    .array (closeTables finished ++ [.table (closeEntries current)])

/-- The values of the entries of a table. -/
def closeEntries : List (String × Open) → List (String × Value)
  | [] => []
  | (key, entry) :: rest => (key, entry.close) :: closeEntries rest

/-- The values of tables, the newest last. -/
def closeTables : List (List (String × Open)) → List Value
  | [] => []
  | entries :: rest => closeTables rest ++ [.table (closeEntries entries)]

end

/-- Puts an entry under a key that the table has. -/
def replace (key : String) (entry : Open) (entries : Entries) : Entries :=
  entries.map fun e => if e.1 = key then (key, entry) else e

/-- Applies `f` to the table that a path of keys leads to. Missing tables are made. A dotted path
goes through tables that have no header only, a path in a header through all tables; both go into
the current table of an array of tables. -/
def update (dotted : Bool) (f : Origin → Entries → Option Entries) :
    (path : List String) → Origin → Entries → Option Entries
  | [], origin, entries => f origin entries
  | key :: path, _, entries =>
    match entries.lookup key with
    | none =>
      let origin := if dotted then Origin.dotted else .passed
      (update dotted f path origin []).map fun inner => entries ++ [(key, .table origin inner)]
    | some (.table origin inner) =>
      -- A table with a header of its own is closed to dotted keys from elsewhere.
      if dotted && origin = .header then none
      else (update dotted f path origin inner).map fun inner =>
        replace key (.table origin inner) entries
    | some (.tables finished current) =>
      (update dotted f path .header current).map fun current =>
        replace key (.tables finished current) entries
    | some (.value _) => none

/-- Gives a key a value in the table that a dotted key leads to. A dotted key ends in a table made
by dotted keys. -/
def assign (path : List String) (key : String) (v : Value) (entries : Entries) : Option Entries :=
  update true (fun origin entries =>
    if path ≠ [] && origin ≠ .dotted then none
    else match entries.lookup key with
      | some _ => none
      | none => some (entries ++ [(key, .value v)])) path .header entries

/-- Opens the table of a header. -/
def openTable (path : List String) (key : String) (entries : Entries) : Option Entries :=
  update false (fun _ entries =>
    match entries.lookup key with
    | none => some (entries ++ [(key, .table .header [])])
    -- The header of a table inside it came first; this one is its own.
    | some (.table .passed inner) => some (replace key (.table .header inner) entries)
    | some _ => none) path .header entries

/-- Opens one more table of the array of a header. -/
def openArrayTable (path : List String) (key : String) (entries : Entries) : Option Entries :=
  update false (fun _ entries =>
    match entries.lookup key with
    | none => some (entries ++ [(key, .tables [] [])])
    | some (.tables finished current) =>
      some (replace key (.tables (current :: finished) []) entries)
    | some _ => none) path .header entries

/-- Gives a key a value in the table whose header is current. -/
def assignBelow (header path : List String) (key : String) (v : Value) (entries : Entries) :
    Option Entries :=
  update false (fun _ entries => assign path key v entries) header .header entries

end Open

end SourceSurvey.Toml
