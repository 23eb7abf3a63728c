import Mathlib.Data.List.Nodup
import SourceSurvey.Toml.Document

/-!
# No key twice

A document may give no key of a table twice, in whatever way its tables come about: by headers, by
dotted keys, by arrays of tables or inline. So in every table of a document that is read, at any
depth, the keys are distinct (`Document.distinctKeys_of_parse?`), and looking a key up finds the one
value that the document gives it.

Every way to add to an open table goes through `Open.update`, which keeps the keys distinct if what
is done at the end of the path does. Each kind of line is an instance of that.
-/

set_option autoImplicit false

namespace SourceSurvey.Toml

/-- A value in whose tables, at any depth, no key stands twice. -/
inductive Value.DistinctKeys : Value → Prop where
  | string (text : String) : DistinctKeys (.string text)
  | integer (value : Option Int) : DistinctKeys (.integer value)
  | float (inRange : Bool) : DistinctKeys (.float inRange)
  | boolean (value : Bool) : DistinctKeys (.boolean value)
  | moment (text : String) : DistinctKeys (.moment text)
  | array {items : List Value} : (∀ item ∈ items, DistinctKeys item) → DistinctKeys (.array items)
  | table {entries : List (String × Value)} : (entries.map (·.1)).Nodup →
      (∀ e ∈ entries, DistinctKeys e.2) → DistinctKeys (.table entries)

namespace Open

/-- An open entry in whose tables, at any depth, no key stands twice. -/
inductive DistinctKeys : Open → Prop where
  | value {v : Value} : v.DistinctKeys → DistinctKeys (.value v)
  | table (origin : Origin) {entries : List (String × Open)} : (entries.map (·.1)).Nodup →
      (∀ e ∈ entries, DistinctKeys e.2) → DistinctKeys (.table origin entries)
  | tables {finished : List (List (String × Open))} {current : List (String × Open)} :
      (∀ t ∈ finished, (t.map (·.1)).Nodup) → (∀ t ∈ finished, ∀ e ∈ t, DistinctKeys e.2) →
      (current.map (·.1)).Nodup → (∀ e ∈ current, DistinctKeys e.2) →
      DistinctKeys (.tables finished current)

/-- Entries with distinct keys, and so at any depth. -/
structure Entries.Distinct (entries : Entries) : Prop where
  nodup : (entries.map (·.1)).Nodup
  below : ∀ e ∈ entries, e.2.DistinctKeys

/-! ## Closing -/

section Close

theorem closeEntries_eq_map (entries : Entries) :
    closeEntries entries = entries.map fun e => (e.1, e.2.close) := by
  induction entries with
  | nil => rfl
  | cons e rest ih => rw [closeEntries, ih, List.map_cons]

/-- The tables of an array are closed one by one. -/
theorem mem_closeTables {finished : List Entries} {v : Value} :
    v ∈ closeTables finished ↔ ∃ t ∈ finished, v = .table (closeEntries t) := by
  induction finished with
  | nil => simp [closeTables]
  | cons t rest ih => simp [closeTables, ih, or_comm]

/-- Closing the entries of a table changes no key. -/
theorem distinctKeys_closeEntries {entries : Entries} (hnodup : (entries.map (·.1)).Nodup)
    (h : ∀ e ∈ entries, e.2.close.DistinctKeys) :
    (closeEntries entries |> Value.table).DistinctKeys := by
  rw [closeEntries_eq_map]
  refine .table ?_ ?_
  · rwa [List.map_map]
  · intro e he
    obtain ⟨e', he', rfl⟩ := List.mem_map.1 he
    exact h e' he'

/-- The value of an entry has distinct keys if the entry has. -/
theorem DistinctKeys.close {entry : Open} (h : entry.DistinctKeys) : entry.close.DistinctKeys := by
  induction h with
  | value hv => rwa [Open.close]
  | table origin hnodup _ ih =>
    rw [Open.close]
    exact distinctKeys_closeEntries hnodup ih
  | tables hfinished _ hcurrent _ ihFinished ihCurrent =>
    rw [Open.close]
    refine .array fun item hitem => ?_
    rcases List.mem_append.1 hitem with hitem | hitem
    · obtain ⟨t, ht, rfl⟩ := mem_closeTables.1 hitem
      exact distinctKeys_closeEntries (hfinished t ht) (ihFinished t ht)
    · rw [List.mem_singleton.1 hitem]
      exact distinctKeys_closeEntries hcurrent ihCurrent

theorem Entries.Distinct.close {entries : Entries} (h : entries.Distinct) :
    (Value.table (closeEntries entries)).DistinctKeys :=
  distinctKeys_closeEntries h.nodup fun e he => (h.below e he).close

end Close

/-! ## Adding to a table -/

section Update

variable {entries entries' : Entries} {key : String} {entry : Open}

theorem Entries.distinct_nil : Entries.Distinct [] := ⟨List.nodup_nil, by simp⟩

/-- What is found in entries with distinct keys has distinct keys. -/
theorem Entries.Distinct.of_lookup (h : entries.Distinct) (hentry : entries.lookup key = some entry) :
    entry.DistinctKeys := by
  obtain ⟨before, after, rfl, -⟩ := List.lookup_eq_some_iff.1 hentry
  exact h.below (key, entry) (by simp)

/-- A new key comes behind all others. -/
theorem Entries.Distinct.concat (h : entries.Distinct) (hkey : entries.lookup key = none)
    (hentry : entry.DistinctKeys) : Entries.Distinct (entries ++ [(key, entry)]) := by
  rw [List.lookup_eq_none_iff] at hkey
  constructor
  · rw [List.map_append, List.nodup_append]
    refine ⟨h.nodup, List.nodup_singleton _, ?_⟩
    rintro other hother new hnew rfl
    obtain ⟨e, he, rfl⟩ := List.mem_map.1 hother
    obtain rfl : e.1 = key := List.mem_singleton.1 hnew
    simpa using hkey e he
  · intro e he
    rcases List.mem_append.1 he with he | he
    · exact h.below e he
    · rw [List.mem_singleton.1 he]
      exact hentry

/-- Replacing an entry changes no key. -/
theorem Entries.Distinct.replace (h : entries.Distinct) (hentry : entry.DistinctKeys) :
    Entries.Distinct (Open.replace key entry entries) := by
  have hkeys : (Open.replace key entry entries).map (·.1) = entries.map (·.1) := by
    rw [Open.replace, List.map_map]
    refine List.map_congr_left fun e _ => ?_
    by_cases he : e.1 = key <;> simp [he]
  refine ⟨by rw [hkeys]; exact h.nodup, fun e he => ?_⟩
  obtain ⟨e', he', rfl⟩ := List.mem_map.1 he
  split
  · exact hentry
  · exact h.below e' he'

/-- What is done to a table keeps keys distinct. -/
def KeepsDistinct (f : Origin → Entries → Option Entries) : Prop :=
  ∀ origin entries entries', entries.Distinct → f origin entries = some entries' → entries'.Distinct

/-- What is done at the end of a path keeps all keys distinct if it keeps those of the table there.
The induction follows the path, through tables that exist and through new ones. -/
theorem Entries.Distinct.update {f : Origin → Entries → Option Entries} (hf : KeepsDistinct f)
    {dotted : Bool} {path : List String} {origin : Origin} (h : entries.Distinct)
    (hupdate : Open.update dotted f path origin entries = some entries') : entries'.Distinct := by
  induction path generalizing origin entries entries' with
  | nil => exact hf _ _ _ h hupdate
  | cons key path ih =>
    rw [Open.update] at hupdate
    split at hupdate
    -- The key is new: the path goes on in an empty table.
    · rename_i hnew
      obtain ⟨inner, hinner, rfl⟩ := Option.map_eq_some_iff.1 hupdate
      have hdistinct := ih distinct_nil hinner
      exact h.concat hnew (.table _ hdistinct.nodup hdistinct.below)
    -- The key has a table, which is replaced by the one with the change in it.
    · rename_i origin' inner hlookup
      cases h.of_lookup hlookup with
      | table _ hnodup hbelow =>
        split at hupdate
        · cases hupdate
        · obtain ⟨inner', hinner, rfl⟩ := Option.map_eq_some_iff.1 hupdate
          have hdistinct := ih ⟨hnodup, hbelow⟩ hinner
          exact h.replace (.table _ hdistinct.nodup hdistinct.below)
    -- The key has an array of tables: only the current one can change.
    · rename_i finished current hlookup
      cases h.of_lookup hlookup with
      | tables hfinished hfinishedBelow hnodup hbelow =>
        obtain ⟨current', hcurrent, rfl⟩ := Option.map_eq_some_iff.1 hupdate
        have hdistinct := ih ⟨hnodup, hbelow⟩ hcurrent
        exact h.replace (.tables hfinished hfinishedBelow hdistinct.nodup hdistinct.below)
    · cases hupdate

/-- A value is assigned to a key that is new where its path leads. -/
theorem Entries.Distinct.assign {path : List String} {v : Value} (h : entries.Distinct)
    (hv : v.DistinctKeys) (hassign : Open.assign path key v entries = some entries') :
    entries'.Distinct := by
  refine h.update ?_ hassign
  intro origin entries entries' h hadd
  beta_reduce at hadd
  split at hadd
  · cases hadd
  · split at hadd
    · cases hadd
    · rename_i hnew
      cases hadd
      exact h.concat hnew (.value hv)

/-- A value is assigned below a header in the same way. -/
theorem Entries.Distinct.assignBelow {header path : List String} {v : Value} (h : entries.Distinct)
    (hv : v.DistinctKeys) (hassign : Open.assignBelow header path key v entries = some entries') :
    entries'.Distinct :=
  h.update (fun _ _ _ h hassign => h.assign hv hassign) hassign

/-- A header opens a table under a new key, or one that is there already. -/
theorem Entries.Distinct.openTable {path : List String} (h : entries.Distinct)
    (hopen : Open.openTable path key entries = some entries') : entries'.Distinct := by
  refine h.update ?_ hopen
  intro _ entries entries' h hopen
  beta_reduce at hopen
  split at hopen
  · rename_i hnew
    cases hopen
    exact h.concat hnew (.table _ List.nodup_nil (by simp))
  · rename_i inner hlookup
    cases hopen
    cases h.of_lookup hlookup with
    | table _ hnodup hbelow => exact h.replace (.table _ hnodup hbelow)
  · cases hopen

/-- A header of an array of tables adds a table to it. -/
theorem Entries.Distinct.openArrayTable {path : List String} (h : entries.Distinct)
    (hopen : Open.openArrayTable path key entries = some entries') : entries'.Distinct := by
  refine h.update ?_ hopen
  intro _ entries entries' h hopen
  beta_reduce at hopen
  split at hopen
  · rename_i hnew
    cases hopen
    exact h.concat hnew (.tables (by simp) (by simp) List.nodup_nil (by simp))
  · rename_i finished current hlookup
    cases hopen
    cases h.of_lookup hlookup with
    | tables hfinished hfinishedBelow hnodup hbelow =>
      refine h.replace (.tables ?_ ?_ List.nodup_nil (by simp))
      · exact List.forall_mem_cons.2 ⟨hnodup, hfinished⟩
      · exact List.forall_mem_cons.2 ⟨hbelow, hfinishedBelow⟩
  · cases hopen

end Update

end Open

/-! ## Reading values -/

namespace Document

theorem distinctKeys_of_integer? {text : List Char} {v : Value} (h : Number.integer? text = some v) :
    v.DistinctKeys := by
  have hradix : ∀ {base : Nat} {run : List Char} {v : Value},
      Number.radixInteger? base run = some v → v.DistinctKeys := by
    intro base run v h
    rw [Number.radixInteger?] at h
    split at h
    · cases h
    · cases h
      exact .integer _
    · cases h
      exact .integer _
  unfold Number.integer? at h
  split at h
  · exact hradix h
  · exact hradix h
  · exact hradix h
  · obtain ⟨digits, -, rfl⟩ := Option.map_eq_some_iff.1 h
    exact .integer _

theorem distinctKeys_of_float? {text : List Char} {v : Value} (h : Number.float? text = some v) :
    v.DistinctKeys := by
  have hunsigned : ∀ {text : List Char}, Number.unsignedFloat? text = some v → v.DistinctKeys := by
    intro text h
    unfold Number.unsignedFloat? at h
    dsimp only at h
    split at h
    · split at h
      · cases h
        exact .float _
      · cases h
    · cases h
    · split at h
      · cases h
        exact .float _
      · cases h
  -- The special floats come first, then the sign is taken off.
  unfold Number.float? at h
  dsimp only at h
  split at h
  · cases h
    exact .float _
  · exact hunsigned h

theorem distinctKeys_of_moment {text : List Char} {v : Value} (h : Moment.parse? text = some v) :
    v.DistinctKeys := by
  unfold Moment.parse? at h
  split at h
  · cases h
    exact .moment _
  · split at h
    · cases h
      exact .moment _
    · cases h

/-- A value without quotes holds no table. -/
theorem distinctKeys_of_scalarOf? {text : List Char} {v : Value} (h : scalarOf? text = some v) :
    v.DistinctKeys := by
  unfold scalarOf? at h
  split at h
  · cases h
    exact .boolean _
  split at h
  · cases h
    exact .boolean _
  -- The readers are tried one after the other.
  cases hinteger : Number.integer? text with
  | some value =>
    rw [hinteger] at h
    exact distinctKeys_of_integer? (hinteger.trans h)
  | none =>
    cases hfloat : Number.float? text with
    | some value =>
      rw [hinteger, hfloat] at h
      exact distinctKeys_of_float? (hfloat.trans h)
    | none =>
      rw [hinteger, hfloat] at h
      exact distinctKeys_of_moment h

/-- A string or a value without quotes holds no table. -/
theorem distinctKeys_of_scalar? {text rest : List Char} {v : Value}
    (h : scalar? text = some (v, rest)) : v.DistinctKeys := by
  have hmap : ∀ {first more : List Char},
      ((scalarOf? first).map fun value => (value, more)) = some (v, rest) → v.DistinctKeys := by
    intro first more h
    obtain ⟨value, hvalue, heq⟩ := Option.map_eq_some_iff.1 h
    cases heq
    exact distinctKeys_of_scalarOf? hvalue
  unfold scalar? at h
  dsimp only at h
  split at h
  · split at h
    · exact hmap h
    · exact hmap h
  · exact hmap h

/-- Every value that is read has distinct keys. The induction is on the fuel of all three readers at
once: a value goes on as an array or an inline table, and these read values. -/
theorem distinctKeys_of_value? (fuel : Nat) :
    (∀ {depth : Nat} {text rest : List Char} {v : Value}, value? fuel depth text = some (v, rest) →
      v.DistinctKeys) ∧
    (∀ {depth : Nat} {items : List Value} {text rest : List Char} {v : Value},
      (∀ item ∈ items, item.DistinctKeys) → arrayItems? fuel depth items text = some (v, rest) →
        v.DistinctKeys) ∧
    ∀ {depth : Nat} {entries : Open.Entries} {text rest : List Char} {v : Value},
      entries.Distinct → inlineEntries? fuel depth entries text = some (v, rest) →
        v.DistinctKeys := by
  induction fuel with
  | zero =>
    -- Without fuel nothing is read.
    refine ⟨?_, ?_, ?_⟩
    · intro _ _ _ _ h
      cases h
    · intro _ _ _ _ _ _ h
      cases h
    · intro _ _ _ _ _ _ h
      cases h
  | succ fuel ih =>
    obtain ⟨ihValue, ihItems, ihEntries⟩ := ih
    refine ⟨?value, ?items, ?entries⟩
    -- The first character decides: an array, an inline table, a string in double or single quotes,
    -- or a value without quotes.
    case value =>
      intro depth text rest v h
      unfold value? at h
      split at h
      · split at h
        · cases h
        · exact ihItems (by simp) h
      · split at h
        · cases h
        · exact ihEntries Open.Entries.distinct_nil h
      · obtain ⟨_, -, heq⟩ := Option.map_eq_some_iff.1 h
        cases heq
        exact .string _
      · obtain ⟨_, -, heq⟩ := Option.map_eq_some_iff.1 h
        cases heq
        exact .string _
      · exact distinctKeys_of_scalar? h
    -- One more item, then a comma and the rest, or the end of the array.
    case items =>
      intro depth items text rest v hitems h
      unfold arrayItems? at h
      split at h
      · cases h
      · cases h
        exact .array (by simpa using hitems)
      · split at h
        · cases h
        · rename_i item rest' hitem
          have hmore := List.forall_mem_cons.2 ⟨ihValue hitem, hitems⟩
          split at h
          · exact ihItems hmore h
          · cases h
            exact .array fun x hx => hmore x (List.mem_reverse.1 hx)
          · cases h
    -- One more assignment, to a key that may be dotted; that it is new is seen by `assign`.
    case entries =>
      intro depth entries text rest v hentries h
      unfold inlineEntries? at h
      split at h
      · cases h
      · cases h
        exact hentries.close
      · split at h
        · split at h
          · cases h
          · rename_i value rest' hvalue
            split at h
            · cases h
            · rename_i entries' hassign
              have hmore := hentries.assign (ihValue hvalue) hassign
              split at h
              · exact ihEntries hmore h
              · cases h
                exact hmore.close
              · cases h
        · cases h

/-! ## Reading lines -/

section Lines

variable {state state' : State} {text rest : List Char}

/-- A header keeps all keys distinct. -/
theorem distinct_of_header? (h : state.entries.Distinct) (hheader : header? state text = some (state', rest)) :
    state'.entries.Distinct := by
  unfold header? at hheader
  split at hheader
  · split at hheader
    · obtain ⟨entries, hopen, heq⟩ := Option.map_eq_some_iff.1 hheader
      cases heq
      exact h.openArrayTable hopen
    · cases hheader
  · split at hheader
    · obtain ⟨entries, hopen, heq⟩ := Option.map_eq_some_iff.1 hheader
      cases heq
      exact h.openTable hopen
    · cases hheader

/-- An assignment keeps all keys distinct. -/
theorem distinct_of_assignment? (h : state.entries.Distinct)
    (hassignment : assignment? state text = some (state', rest)) : state'.entries.Distinct := by
  unfold assignment? at hassignment
  split at hassignment
  · split at hassignment
    · cases hassignment
    · rename_i value rest' hvalue
      obtain ⟨entries, hassign, heq⟩ := Option.map_eq_some_iff.1 hassignment
      cases heq
      exact h.assignBelow ((distinctKeys_of_value? _).1 hvalue) hassign
  · cases hassignment

/-- Line after line, all keys stay distinct. -/
theorem distinct_of_lines? {fuel : Nat} (h : state.entries.Distinct)
    (hlines : lines? fuel state text = some state') : state'.entries.Distinct := by
  induction fuel generalizing state text with
  | zero => cases hlines
  | succ fuel ih =>
    -- The text is at its end, or goes on with a line without content, a comment, a header or an
    -- assignment.
    unfold lines? at hlines
    split at hlines
    · cases hlines
      exact h
    · exact ih h hlines
    · exact ih h hlines
    · obtain ⟨_, -, hmore⟩ := Option.bind_eq_some_iff.1 hlines
      exact ih h hmore
    · split at hlines
      · cases hlines
      · rename_i hheader
        obtain ⟨_, -, hmore⟩ := Option.bind_eq_some_iff.1 hlines
        exact ih (distinct_of_header? h hheader) hmore
    · split at hlines
      · cases hlines
      · rename_i hassignment
        obtain ⟨_, -, hmore⟩ := Option.bind_eq_some_iff.1 hlines
        exact ih (distinct_of_assignment? h hassignment) hmore

end Lines

/-- No table of a document has a key twice. -/
theorem distinctKeys_of_parse? {text : String} {entries : List (String × Value)}
    (h : parse? text = some entries) : (Value.table entries).DistinctKeys := by
  obtain ⟨state, hlines, rfl⟩ := Option.map_eq_some_iff.1 h
  exact (distinct_of_lines? Open.Entries.distinct_nil hlines).close

end Document

end SourceSurvey.Toml
