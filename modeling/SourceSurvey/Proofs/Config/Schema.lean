import SourceSurvey.Config.Discovery
import SourceSurvey.Proofs.PathText
import SourceSurvey.Proofs.Toml.DistinctKeys

/-!
# Settings and documents

A document is read in the order of its keys and group by group. What comes out does not show that: a
setting has the value that the document gives for it, or else its default
(`Config.ofTable_eq_ok_iff`).

A group of settings is a list of parts, each with a key, a reader, and a place in the group
(`Schema.Part`). Reading the group is going through entries with distinct keys, each of which sets
the part of its key (`Schema.AreParts.foldlM_readEntry_eq_ok_iff`). A table gives its entries, and
an array is read as the list of its items under the keys of the group in their order
(`Schema.AreParts.readArray_eq_foldlM`).
-/

set_option autoImplicit false

namespace SourceSurvey

open Toml (Value)

namespace Schema

/-! ## Entries in the order of their keys -/

section InOrder

variable {entries : List (String × Value)}

/-- The table that is read has each key once. -/
theorem nodup_keys_inOrder (entries : List (String × Value)) :
    ((inOrder entries).map (·.1)).Nodup :=
  (SortedMap.ofList entries).nodup_keys

/-- Reading a table in the order of its keys changes no value. -/
theorem lookup_inOrder (h : (entries.map (·.1)).Nodup) (key : String) :
    (inOrder entries).lookup key = entries.lookup key :=
  SortedMap.get?_ofList h key

/-- A key is in a table if the table has a value for it. -/
theorem mem_keys_iff_lookup {entries : List (String × Value)} {key : String} :
    key ∈ entries.map (·.1) ↔ ∃ v, entries.lookup key = some v := by
  rw [← Option.isSome_iff_exists, List.lookup_isSome_iff, List.mem_map]
  exact exists_congr fun e => and_congr_right fun _ => by rw [beq_iff_eq, eq_comm]

/-- Reading a table in the order of its keys changes no key. -/
theorem keys_inOrder (h : (entries.map (·.1)).Nodup) {keys : List String} :
    (∀ e ∈ inOrder entries, e.1 ∈ keys) ↔ ∀ e ∈ entries, e.1 ∈ keys := by
  have hkeys : ∀ key, key ∈ (inOrder entries).map (·.1) ↔ key ∈ entries.map (·.1) := by
    intro key
    rw [mem_keys_iff_lookup, mem_keys_iff_lookup, lookup_inOrder h]
  have hall : (∀ key ∈ (inOrder entries).map (·.1), key ∈ keys) ↔
      ∀ key ∈ entries.map (·.1), key ∈ keys := by simp only [hkeys]
  simpa only [List.forall_mem_map] using hall

end InOrder

/-! ## Groups -/

/-- A setting of a group: its key, how its value is read, and its place in the group. -/
structure Part (α : Type) where
  /-- The type of the setting. -/
  β : Type
  /-- The key. -/
  key : String
  /-- Reads the value. -/
  read : Value → Except SchemaFault β
  /-- The setting in the group. -/
  get : α → β
  /-- The group with another setting. -/
  set : β → α → α

namespace Part

variable {α : Type}

/-- Reading a setting puts it in its place. -/
def field (part : Part α) : Field α :=
  ⟨part.key, fun v group => (part.read v).map (part.set · group)⟩

/-- A setting has the value that is read for it, and stays as it was if there is none. -/
def IsTold (part : Part α) (before after : α) : Option Value → Prop
  | none => part.get after = part.get before
  | some v => part.read v = .ok (part.get after)

end Part

/-- A group is made of its parts: each has its own key and its own place, and together they are the
group. -/
structure AreParts {α : Type} (parts : List (Part α)) : Prop where
  nodup : (parts.map (·.key)).Nodup
  get_set : ∀ part ∈ parts, ∀ b group, part.get (part.set b group) = b
  get_set_other : ∀ part ∈ parts, ∀ other ∈ parts, other.key ≠ part.key → ∀ b group,
    other.get (part.set b group) = other.get group
  ext : ∀ group group', (∀ part ∈ parts, part.get group = part.get group') → group = group'

section Groups

variable {α : Type} {parts : List (Part α)} {group group' : α}

/-- Reads one entry of a group. -/
def readEntry (fields : List (Field α)) (group : α) (e : String × Value) : Except SchemaFault α :=
  match fields.find? (·.key = e.1) with
  | some field => field.read e.2 group
  | none => .error (.unknownField e.1 (fields.map (·.key)))

/-- A table is read entry by entry. -/
theorem readTable_eq_foldlM (fields : List (Field α)) (entries : List (String × Value)) (group : α) :
    readTable fields entries group = (inOrder entries).foldlM (readEntry fields) group := rfl

/-- A part is known by its key. -/
theorem AreParts.eq_of_key_eq (h : AreParts parts) {part other : Part α} (hpart : part ∈ parts)
    (hother : other ∈ parts) (hkey : other.key = part.key) : other = part :=
  List.inj_on_of_nodup_map h.nodup hother hpart hkey

/-- An entry with the key of a part sets that part. -/
theorem AreParts.readEntry_eq (h : AreParts parts) {part : Part α} (hpart : part ∈ parts) (v : Value)
    (group : α) : readEntry (parts.map Part.field) group (part.key, v) =
      (part.read v).map (part.set · group) := by
  cases hfind : parts.find? (·.key = part.key) with
  | none => simpa using List.find?_eq_none.1 hfind part hpart
  -- The first part with this key is the part itself, since no two have one key.
  | some other =>
    have hkey : other.key = part.key := by simpa using List.find?_some hfind
    obtain rfl := h.eq_of_key_eq hpart (List.mem_of_find?_eq_some hfind) hkey
    have hfield : (parts.map Part.field).find? (·.key = other.key) = some other.field := by
      rw [List.find?_map]
      exact congrArg (Option.map Part.field) hfind
    rw [readEntry, hfield]
    rfl

/-- An entry with any other key is refused. -/
theorem readEntry_of_notMem {e : String × Value} (h : e.1 ∉ parts.map (·.key)) (group : α) :
    ∃ fault, readEntry (parts.map Part.field) group e = .error fault := by
  have hfind : (parts.map Part.field).find? (·.key = e.1) = none := by
    rw [List.find?_map, Option.map_eq_none_iff, List.find?_eq_none]
    intro part hpart hkey
    exact h (List.mem_map.2 ⟨part, hpart, of_decide_eq_true hkey⟩)
  rw [readEntry, hfind]
  exact ⟨_, rfl⟩

/-- What a setting was before counts only if there is no value for it. -/
theorem Part.isTold_congr {part : Part α} {before before' after : α}
    (h : part.get before = part.get before') (v? : Option Value) :
    part.IsTold before after v? ↔ part.IsTold before' after v? := by
  cases v? with
  | none => rw [IsTold, IsTold, h]
  | some v => exact Iff.rfl

/-- A list of entries sets the parts that it has entries for. The induction is on the entries: one
entry sets one part, and no later entry has the same key. -/
theorem AreParts.foldlM_readEntry_eq_ok_iff (h : AreParts parts) {entries : List (String × Value)}
    (hentries : (entries.map (·.1)).Nodup) :
    entries.foldlM (readEntry (parts.map Part.field)) group = .ok group' ↔
      (∀ e ∈ entries, e.1 ∈ parts.map (·.key)) ∧
        ∀ part ∈ parts, part.IsTold group group' (entries.lookup part.key) := by
  induction entries generalizing group with
  | nil =>
    rw [List.foldlM_nil]
    constructor
    · intro hgroup
      cases hgroup
      exact ⟨by simp, fun _ _ => rfl⟩
    · rintro ⟨-, hparts⟩
      exact congrArg Except.ok (h.ext _ _ fun part hpart => (hparts part hpart).symm)
  | cons e rest ih =>
    obtain ⟨key, v⟩ := e
    obtain ⟨hfresh, hrest⟩ := List.nodup_cons.1 hentries
    rw [List.foldlM_cons, List.forall_mem_cons]
    -- An entry with a key of no part is refused, so nothing is read from then on.
    by_cases hkey : key ∈ parts.map (·.key)
    · obtain ⟨part, hpart, rfl⟩ := List.mem_map.1 hkey
      rw [h.readEntry_eq hpart]
      cases hread : part.read v with
      | error fault =>
        refine iff_of_false (fun hgroup => by cases hgroup) ?_
        rintro ⟨-, hparts⟩
        have htold := hparts part hpart
        rw [SortedMap.lookup_cons_ite, if_pos rfl, Part.IsTold, hread] at htold
        cases htold
      | ok b =>
        -- The rest starts from a group that differs from the first one in this part only.
        refine (ih hrest).trans (and_congr (and_iff_right hkey).symm ?_)
        refine forall₂_congr fun other hother => ?_
        rw [SortedMap.lookup_cons_ite]
        by_cases hsame : other.key = part.key
        · obtain rfl := h.eq_of_key_eq hpart hother hsame
          have hnone : rest.lookup other.key = none := by
            rw [← Option.not_isSome_iff_eq_none, Option.isSome_iff_exists, ← mem_keys_iff_lookup]
            exact hfresh
          -- Nothing is left for this part, so it stays as the entry has set it.
          rw [if_pos rfl, hnone, Part.IsTold, Part.IsTold, hread, h.get_set _ hother,
            Except.ok.injEq, eq_comm]
        · rw [if_neg hsame]
          exact Part.isTold_congr (h.get_set_other part hpart other hother hsame b group) _
    · obtain ⟨fault, hfault⟩ := readEntry_of_notMem (e := (key, v)) hkey group
      rw [hfault]
      exact iff_of_false (fun hgroup => by cases hgroup) fun hboth => hkey hboth.1.1

/-- A table can be read if it has only keys of parts, and sets each part to what it says of it. -/
theorem AreParts.readTable_eq_ok_iff (h : AreParts parts) {entries : List (String × Value)}
    (hentries : (entries.map (·.1)).Nodup) :
    readTable (parts.map Part.field) entries group = .ok group' ↔
      (∀ e ∈ entries, e.1 ∈ parts.map (·.key)) ∧
        ∀ part ∈ parts, part.IsTold group group' (entries.lookup part.key) := by
  rw [readTable_eq_foldlM, h.foldlM_readEntry_eq_ok_iff (nodup_keys_inOrder entries),
    keys_inOrder hentries]
  simp only [lookup_inOrder hentries]

/-- An array is read as a list of entries, its items under the keys of the group in their order. -/
theorem AreParts.readArray_eq_foldlM (h : AreParts parts) {more : List (Part α)}
    (hmore : ∀ part ∈ more, part ∈ parts) (items : List Value) (group : α) :
    readArray (more.map Part.field) items group =
      ((more.map (·.key)).zip items).foldlM (readEntry (parts.map Part.field)) group := by
  -- The parts still to come are a list of its own, for the entries are looked up among all parts.
  induction more generalizing items group with
  | nil => rfl
  | cons part more ih =>
    cases items with
    | nil => rfl
    | cons v items =>
      obtain ⟨hpart, hmore⟩ := List.forall_mem_cons.1 hmore
      rw [List.map_cons, List.map_cons, List.zip_cons_cons, List.foldlM_cons, h.readEntry_eq hpart]
      exact bind_congr fun group => ih hmore items group

/-- An array gives the first keys of a group. -/
theorem keys_zip_isPrefix (keys : List String) (items : List Value) :
    (keys.zip items).map (·.1) <+: keys := by
  induction keys generalizing items with
  | nil => exact List.nil_prefix
  | cons key keys ih =>
    cases items with
    | nil => exact List.nil_prefix
    | cons v items => exact (List.prefix_cons_inj key).2 (ih items)

/-- An array is read as values for the parts in their order; items beyond the last part are passed
over. -/
theorem AreParts.readArray_eq_ok_iff (h : AreParts parts) {items : List Value} :
    readArray (parts.map Part.field) items group = .ok group' ↔
      ∀ part ∈ parts, part.IsTold group group' (((parts.map (·.key)).zip items).lookup part.key) := by
  rw [h.readArray_eq_foldlM (fun _ hpart => hpart),
    h.foldlM_readEntry_eq_ok_iff (h.nodup.sublist (keys_zip_isPrefix _ items).sublist)]
  exact and_iff_right fun e he => (List.of_mem_zip he).1

end Groups

/-! ## What a document says of a group -/

/-- What the value of a group gives under the keys of the group. A group that is missing gives
nothing, a table its entries if it has no other keys, and an array its items in the order of the
keys. -/
inductive Gives (keys : List String) : Option Value → List (String × Value) → Prop where
  | nothing : Gives keys none []
  | table {given : List (String × Value)} : (∀ e ∈ given, e.1 ∈ keys) →
      Gives keys (some (.table given)) given
  | array (items : List Value) : Gives keys (some (.array items)) (keys.zip items)

section Groups

variable {α : Type} {parts : List (Part α)} {group group' : α}

/-- What is read of a group are the values that it is given. -/
theorem AreParts.readGroup_eq_ok_iff (h : AreParts parts) (hmoment : momentKey ∉ parts.map (·.key))
    {v : Value} (hv : v.DistinctKeys) :
    readGroup (parts.map Part.field) v group = .ok group' ↔
      ∃ given, Gives (parts.map (·.key)) (some v) given ∧
        ∀ part ∈ parts, part.IsTold group group' (given.lookup part.key) := by
  cases hv with
  | table hnodup _ =>
    refine (h.readTable_eq_ok_iff hnodup).trans ?_
    constructor
    · rintro ⟨hkeys, hparts⟩
      exact ⟨_, .table hkeys, hparts⟩
    · rintro ⟨given, hgives, hparts⟩
      cases hgives with
      | table hkeys => exact ⟨hkeys, hparts⟩
  | array _ =>
    refine h.readArray_eq_ok_iff.trans ?_
    constructor
    · intro hparts
      exact ⟨_, .array _, hparts⟩
    · rintro ⟨given, hgives, hparts⟩
      cases hgives with
      | array items => exact hparts
  -- A date or time would be a table with a key that no group has.
  | moment text =>
    refine iff_of_false ?_ ?_
    · intro hgroup
      have hnodup : ([(momentKey, Value.string text)].map (·.1)).Nodup := List.nodup_singleton _
      obtain ⟨hkeys, -⟩ := (h.readTable_eq_ok_iff hnodup).1 hgroup
      exact hmoment (hkeys _ List.mem_cons_self)
    · rintro ⟨given, hgives, -⟩
      cases hgives
  -- No other value gives anything to a group.
  | string text | integer value | float inRange | boolean value =>
    refine iff_of_false (fun hgroup => by cases hgroup) ?_
    rintro ⟨given, hgives, -⟩
    cases hgives

/-- A group that is missing stays as it is. -/
theorem AreParts.isTold_nil_iff (h : AreParts parts) :
    (∃ given, Gives (parts.map (·.key)) none given ∧
      ∀ part ∈ parts, part.IsTold group group' (given.lookup part.key)) ↔ group' = group := by
  constructor
  · rintro ⟨given, hgives, hparts⟩
    cases hgives with
    | nothing => exact h.ext _ _ hparts
  · rintro rfl
    exact ⟨[], .nothing, fun _ _ => rfl⟩

end Groups

/-! ## The values of settings -/

/-- A setting is what is read from the value that is given for it, or its default. -/
def IsSetting {β : Type} (Reads : Value → β → Prop) (default b : β) : Option Value → Prop
  | none => b = default
  | some v => Reads v b

/-- The value is an array of these strings. -/
def ReadsStrings (v : Value) (texts : List String) : Prop := v = .array (texts.map .string)

/-- The value is the path written as a string. -/
def ReadsPath (v : Value) (path : Path) : Prop := ∃ text, v = .string text ∧ path = .ofString text

/-- The value is a table with the entries of the map, or counts as one. -/
def ReadsMap (v : Value) (map : SortedMap String) : Prop :=
  ∃ entries, tableOf? v = some entries ∧ ∀ key, entries.lookup key = (map.get? key).map .string

section Readers

variable {v : Value}

/-- Only a string is read as a text. -/
theorem readString_eq_ok_iff {text : String} : readString v = .ok text ↔ v = .string text := by
  cases v <;> simp [readString]

theorem bind_eq_ok_iff {β γ : Type} {x : Except SchemaFault β} {f : β → Except SchemaFault γ}
    {c : γ} : (x >>= f) = .ok c ↔ ∃ b, x = .ok b ∧ f b = .ok c := by
  cases x with
  | error fault => exact iff_of_false (fun h => by cases h) (fun ⟨_, h, _⟩ => by cases h)
  | ok b => simp [bind, Except.bind]

theorem map_eq_ok_iff {β γ : Type} {x : Except SchemaFault β} {f : β → γ} {c : γ} :
    x.map f = .ok c ↔ ∃ b, x = .ok b ∧ f b = c := by
  cases x with
  | error fault => exact iff_of_false (fun h => by cases h) (fun ⟨_, h, _⟩ => by cases h)
  | ok b => simp [Except.map]

/-- Only a string is read as a path. -/
theorem readPath_eq_ok_iff {path : Path} : readPath v = .ok path ↔ ReadsPath v path := by
  rw [readPath, map_eq_ok_iff]
  exact exists_congr fun text => and_congr readString_eq_ok_iff eq_comm

/-- A list is read item by item. -/
theorem mapM_eq_ok_iff {β γ : Type} {read : β → Except SchemaFault γ} {write : γ → β}
    (h : ∀ b c, read b = .ok c ↔ b = write c) {items : List β} {results : List γ} :
    items.mapM read = .ok results ↔ items = results.map write := by
  induction items generalizing results with
  | nil =>
    rw [List.mapM_nil]
    cases results with
    | nil => exact iff_of_true rfl rfl
    | cons c rest => exact iff_of_false (fun h => by cases h) (fun h => by cases h)
  | cons b items ih =>
    simp only [List.mapM_cons, bind_eq_ok_iff, h, ih]
    constructor
    · rintro ⟨c, rfl, rest, rfl, hresults⟩
      cases hresults
      rfl
    · intro hitems
      cases results with
      | nil => cases hitems
      | cons c rest =>
        obtain ⟨hb, hrest⟩ := List.cons.inj hitems
        exact ⟨c, hb, rest, hrest, rfl⟩

/-- Only an array of strings is read as a list of texts. -/
theorem readStrings_eq_ok_iff {texts : List String} :
    readStrings v = .ok texts ↔ ReadsStrings v texts := by
  rw [ReadsStrings]
  cases v with
  | array items =>
    rw [Value.array.injEq]
    exact mapM_eq_ok_iff fun _ _ => readString_eq_ok_iff
  | string text | integer value | float inRange | boolean value | moment text | table entries =>
    exact iff_of_false (fun h => by cases h) (fun h => by cases h)

/-- What counts as a table has distinct keys. -/
theorem nodup_of_tableOf? (hv : v.DistinctKeys) {entries : List (String × Value)}
    (h : tableOf? v = some entries) : (entries.map (·.1)).Nodup := by
  cases hv with
  | table hnodup _ =>
    cases h
    exact hnodup
  | moment text =>
    cases h
    exact List.nodup_singleton _
  | string text | integer value | float inRange | boolean value | array _ => cases h

theorem lookup_map_snd {β γ : Type} (f : β → γ) (entries : List (String × β)) (key : String) :
    (entries.map fun e => (e.1, f e.2)).lookup key = (entries.lookup key).map f := by
  induction entries with
  | nil => rfl
  | cons e rest ih =>
    rw [List.map_cons, SortedMap.lookup_cons_ite, SortedMap.lookup_cons_ite, ih]
    split <;> rfl

/-- A map is read from the table of its entries, in whatever order that gives them. -/
theorem readMap_eq_ok_iff (hv : v.DistinctKeys) {map : SortedMap String} :
    readMap v = .ok map ↔ ReadsMap v map := by
  rw [readMap, ReadsMap]
  cases htable : tableOf? v with
  | none => exact iff_of_false (fun h => by cases h) (fun ⟨_, h, _⟩ => by cases h)
  | some entries =>
    have hnodup := nodup_of_tableOf? hv htable
    have hpair : ∀ (e : String × Value) (pair : String × String),
        (readString e.2).map (fun text => (e.1, text)) = .ok pair ↔ e = (pair.1, .string pair.2) := by
      intro e pair
      simp only [map_eq_ok_iff, readString_eq_ok_iff]
      constructor
      · rintro ⟨text, htext, rfl⟩
        exact Prod.ext rfl htext
      · rintro rfl
        exact ⟨pair.2, rfl, rfl⟩
    simp only [Option.some.injEq, exists_eq_left', bind_eq_ok_iff, mapM_eq_ok_iff hpair,
      Except.ok.injEq]
    constructor
    · rintro ⟨pairs, hpairs, rfl⟩ key
      have hkeys := nodup_keys_inOrder entries
      rw [hpairs, List.map_map] at hkeys
      rw [← lookup_inOrder hnodup, hpairs, lookup_map_snd, SortedMap.get?_ofList hkeys]
    · intro hlookup
      refine ⟨map.entries, ?_, map.ofList_entries⟩
      -- Both sides are in the order of the keys, so it is enough that they answer alike.
      let values : SortedMap Value :=
        ⟨map.entries.map fun e => (e.1, .string e.2), List.pairwise_map.2 map.sorted⟩
      have hvalues : SortedMap.ofList entries = values := by
        refine SortedMap.ext_get? fun key => ?_
        rw [SortedMap.get?_ofList hnodup, hlookup]
        exact (lookup_map_snd _ _ _).symm
      exact congrArg SortedMap.entries hvalues

end Readers

/-! ## The groups of the settings -/

/-- The parts of the settings of a survey. -/
def surveyParts : List (Part SurveySettings) :=
  [⟨List String, "exclude", readStrings, (·.exclude), fun exclude s => { s with exclude }⟩,
   ⟨List String, "ignore", readStrings, (·.ignore), fun ignore s => { s with ignore }⟩,
   ⟨SortedMap String, "extensions", readMap, (·.extensions), fun extensions s => { s with extensions }⟩]

/-- The parts of the programs of the indexing tools. -/
def toolParts : List (Part ToolPaths) :=
  [⟨Path, "cscope", readPath, (·.cscope), fun cscope t => { t with cscope }⟩,
   ⟨Path, "gtags", readPath, (·.gtags), fun gtags t => { t with gtags }⟩,
   ⟨Path, "htags", readPath, (·.htags), fun htags t => { t with htags }⟩,
   ⟨Path, "doxygen", readPath, (·.doxygen), fun doxygen t => { t with doxygen }⟩]

/-- A group as a part of all settings. -/
def Part.group {α : Type} (key : String) (parts : List (Part α)) (default : α) (get : Config → α)
    (set : α → Config → Config) : Part Config :=
  ⟨α, key, (readGroup (parts.map field) · default), get, set⟩

/-- The parts of all settings are the groups. -/
def configParts : List (Part Config) :=
  [.group "what" surveyParts .default (·.survey) fun survey c => { c with survey },
   .group "tools" toolParts .default (·.tools) fun tools c => { c with tools }]

/-- The fields of the settings are those of its parts. -/
theorem configFields_eq : configFields = configParts.map Part.field := rfl

/-- The parts of the survey settings are set apart from each other. -/
theorem areParts_surveyParts : AreParts surveyParts where
  nodup := by decide
  get_set := by simp [surveyParts]
  get_set_other := by simp [surveyParts]
  ext := by
    intro s t h
    simp only [surveyParts, List.forall_mem_cons] at h
    obtain ⟨hexclude, hignore, hextensions, -⟩ := h
    cases s
    cases t
    simp_all

/-- The paths of the tools are set apart from each other. -/
theorem areParts_toolParts : AreParts toolParts where
  nodup := by decide
  get_set := by simp [toolParts]
  get_set_other := by simp [toolParts]
  ext := by
    intro s t h
    simp only [toolParts, List.forall_mem_cons] at h
    cases s
    cases t
    simp_all

/-- The groups of the settings are set apart from each other. -/
theorem areParts_configParts : AreParts configParts where
  nodup := by decide
  get_set := by simp [configParts, Part.group]
  get_set_other := by simp [configParts, Part.group]
  ext := by
    intro s t h
    simp only [configParts, Part.group, List.forall_mem_cons] at h
    cases s
    cases t
    simp_all

/-- The keys of the settings of a survey, in their order. -/
def surveyKeys : List String := ["exclude", "ignore", "extensions"]

/-- The keys of the programs of the indexing tools, in their order. -/
def toolKeys : List String := ["cscope", "gtags", "htags", "doxygen"]

theorem mem_of_lookup {entries : List (String × Value)} {key : String} {v : Value}
    (h : entries.lookup key = some v) : (key, v) ∈ entries := by
  obtain ⟨before, after, rfl, -⟩ := List.lookup_eq_some_iff.1 h
  simp

/-- The values in a table have distinct keys if the table has. -/
theorem distinctKeys_of_lookup {entries : List (String × Value)} {key : String} {v : Value}
    (hentries : (Value.table entries).DistinctKeys) (h : entries.lookup key = some v) :
    v.DistinctKeys := by
  cases hentries with
  | table _ hbelow => exact hbelow _ (mem_of_lookup h)

/-- A group is given nothing under other keys than its own. -/
theorem Gives.mem_keys {keys : List String} {v? : Option Value} {given : List (String × Value)}
    (h : Gives keys v? given) {key : String} {v : Value} (hlookup : given.lookup key = some v) :
    key ∈ keys := by
  cases h with
  | nothing => cases hlookup
  | table hkeys => exact hkeys _ (mem_of_lookup hlookup)
  | array items => exact (List.of_mem_zip (mem_of_lookup hlookup)).1

/-- The values that a group is given have distinct keys if the value of the group has. -/
theorem Gives.distinctKeys {keys : List String} {v? : Option Value} {given : List (String × Value)}
    (h : Gives keys v? given) (hv : ∀ v, v? = some v → v.DistinctKeys) {key : String} {v : Value}
    (hlookup : given.lookup key = some v) : v.DistinctKeys := by
  cases h with
  | nothing => cases hlookup
  | table _ => exact distinctKeys_of_lookup (hv _ rfl) hlookup
  | array items =>
    cases hv _ rfl with
    | array hitems => exact hitems v (List.of_mem_zip (mem_of_lookup hlookup)).2

/-- A group is as it is given, or as by default. -/
theorem AreParts.isTold_group_iff {α : Type} {parts : List (Part α)} (h : AreParts parts)
    (hmoment : momentKey ∉ parts.map (·.key)) {key : String} {default : α} {get : Config → α}
    {set : α → Config → Config} {before after : Config} (hbefore : get before = default)
    {v? : Option Value} (hv : ∀ v, v? = some v → v.DistinctKeys) :
    (Part.group key parts default get set).IsTold before after v? ↔
      ∃ given, Gives (parts.map (·.key)) v? given ∧
        ∀ part ∈ parts, part.IsTold default (get after) (given.lookup part.key) := by
  cases v? with
  | none =>
    subst hbefore
    exact h.isTold_nil_iff.symm
  | some v => exact h.readGroup_eq_ok_iff hmoment (hv v rfl)

/-- A part that is no group is a setting. -/
theorem Part.isTold_iff {α : Type} (part : Part α) {before after : α}
    {Reads : Value → part.β → Prop} {v? : Option Value}
    (h : ∀ v, v? = some v → ∀ b, part.read v = .ok b ↔ Reads v b) :
    part.IsTold before after v? ↔ IsSetting Reads (part.get before) (part.get after) v? := by
  cases v? with
  | none => exact Iff.rfl
  | some v => exact h v rfl _

end Schema

open Schema

/-- The settings of a survey are those that are given, and the default ones where none is given. -/
structure SurveySettings.IsGiven (s : SurveySettings) (given : List (String × Value)) : Prop where
  exclude : IsSetting ReadsStrings [] s.exclude (given.lookup "exclude")
  ignore : IsSetting ReadsStrings [] s.ignore (given.lookup "ignore")
  extensions : IsSetting ReadsMap .empty s.extensions (given.lookup "extensions")

/-- The programs are those that are given, and called by their own names where none is given. -/
structure ToolPaths.IsGiven (t : ToolPaths) (given : List (String × Value)) : Prop where
  cscope : IsSetting ReadsPath (.ofString "cscope") t.cscope (given.lookup "cscope")
  gtags : IsSetting ReadsPath (.ofString "gtags") t.gtags (given.lookup "gtags")
  htags : IsSetting ReadsPath (.ofString "htags") t.htags (given.lookup "htags")
  doxygen : IsSetting ReadsPath (.ofString "doxygen") t.doxygen (given.lookup "doxygen")

namespace Config

/-- A document describes settings: it has no keys but those of the groups, and each group is as it
is given. -/
structure IsDescribedBy (config : Config) (entries : List (String × Value)) : Prop where
  keys : ∀ e ∈ entries, e.1 ∈ ["what", "tools"]
  survey : ∃ given, Gives surveyKeys (entries.lookup "what") given ∧ config.survey.IsGiven given
  tools : ∃ given, Gives toolKeys (entries.lookup "tools") given ∧ config.tools.IsGiven given

section Describes

variable {entries : List (String × Value)} {config : Config}

/-- The survey settings are told part by part. -/
theorem isTold_surveyParts_iff {given : List (String × Value)} {s : SurveySettings}
    (h : ∀ {key v}, given.lookup key = some v → v.DistinctKeys) :
    (∀ part ∈ surveyParts, part.IsTold .default s (given.lookup part.key)) ↔ s.IsGiven given := by
  have hstrings : ∀ (v : Value) (texts : List String),
      readStrings v = .ok texts ↔ ReadsStrings v texts := fun _ _ => readStrings_eq_ok_iff
  simp only [surveyParts, List.forall_mem_cons]
  constructor
  · rintro ⟨hexclude, hignore, hextensions, -⟩
    exact ⟨(Part.isTold_iff _ fun v _ => hstrings v).1 hexclude,
      (Part.isTold_iff _ fun v _ => hstrings v).1 hignore,
      (Part.isTold_iff _ fun v hv _ => readMap_eq_ok_iff (h hv)).1 hextensions⟩
  · rintro ⟨hexclude, hignore, hextensions⟩
    exact ⟨(Part.isTold_iff _ fun v _ => hstrings v).2 hexclude,
      (Part.isTold_iff _ fun v _ => hstrings v).2 hignore,
      (Part.isTold_iff _ fun v hv _ => readMap_eq_ok_iff (h hv)).2 hextensions, by simp⟩

/-- The paths of the tools are told part by part. -/
theorem isTold_toolParts_iff {given : List (String × Value)} {t : ToolPaths} :
    (∀ part ∈ toolParts, part.IsTold .default t (given.lookup part.key)) ↔ t.IsGiven given := by
  have hpath : ∀ (v : Value) (path : Path), readPath v = .ok path ↔ ReadsPath v path :=
    fun _ _ => readPath_eq_ok_iff
  simp only [toolParts, List.forall_mem_cons]
  constructor
  · rintro ⟨hcscope, hgtags, hhtags, hdoxygen, -⟩
    exact ⟨(Part.isTold_iff _ fun v _ => hpath v).1 hcscope,
      (Part.isTold_iff _ fun v _ => hpath v).1 hgtags,
      (Part.isTold_iff _ fun v _ => hpath v).1 hhtags,
      (Part.isTold_iff _ fun v _ => hpath v).1 hdoxygen⟩
  · rintro ⟨hcscope, hgtags, hhtags, hdoxygen⟩
    exact ⟨(Part.isTold_iff _ fun v _ => hpath v).2 hcscope,
      (Part.isTold_iff _ fun v _ => hpath v).2 hgtags,
      (Part.isTold_iff _ fun v _ => hpath v).2 hhtags,
      (Part.isTold_iff _ fun v _ => hpath v).2 hdoxygen, by simp⟩

/-- The settings of a table are those that it describes. -/
theorem ofTable_eq_ok_iff (h : (Value.table entries).DistinctKeys) :
    ofTable entries = .ok config ↔ config.IsDescribedBy entries := by
  have hnodup : (entries.map (·.1)).Nodup := nodup_of_tableOf? h rfl
  have hvalue : ∀ key v, entries.lookup key = some v → v.DistinctKeys :=
    fun _ _ => distinctKeys_of_lookup h
  have hsurvey : (Part.group "what" surveyParts .default (·.survey)
      fun survey c => { c with survey }).IsTold .default config (entries.lookup "what") ↔
      ∃ given, Gives surveyKeys (entries.lookup "what") given ∧ config.survey.IsGiven given := by
    refine (areParts_surveyParts.isTold_group_iff (by decide) rfl (hvalue "what")).trans ?_
    exact exists_congr fun given => and_congr_right fun hgives =>
      isTold_surveyParts_iff (hgives.distinctKeys (hvalue "what"))
  have htools : (Part.group "tools" toolParts .default (·.tools)
      fun tools c => { c with tools }).IsTold .default config (entries.lookup "tools") ↔
      ∃ given, Gives toolKeys (entries.lookup "tools") given ∧ config.tools.IsGiven given := by
    refine (areParts_toolParts.isTold_group_iff (by decide) rfl (hvalue "tools")).trans ?_
    exact exists_congr fun given => and_congr_right fun _ => isTold_toolParts_iff
  rw [ofTable, configFields_eq, areParts_configParts.readTable_eq_ok_iff hnodup]
  constructor
  · rintro ⟨hkeys, hparts⟩
    exact ⟨hkeys, hsurvey.1 (hparts _ (by simp [configParts])),
      htools.1 (hparts _ (by simp [configParts]))⟩
  · rintro ⟨hkeys, hwhat, htool⟩
    refine ⟨hkeys, ?_⟩
    simp only [configParts, List.forall_mem_cons]
    exact ⟨hsurvey.2 hwhat, htools.2 htool, by simp⟩

end Describes

end Config

end SourceSurvey
