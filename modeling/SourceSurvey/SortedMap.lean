/-!
# Maps with sorted keys

A finite map from strings, kept as the list of its entries in strictly increasing order of the keys.
The order of strings is that of their code points, which is also the order of their UTF-8 bytes.
Since the order is part of the type, a map has one representation only: two maps that answer every
look-up alike are equal (`ext_get?`).

The one operation that changes a map is `alter`, which gives a key a new value computed from the old
one; `get?_alter` says what it does to the look-ups.
-/

set_option autoImplicit false

namespace SourceSurvey

/-- A finite map from strings whose entries are in strictly increasing order of the keys. -/
structure SortedMap (α : Type) where
  /-- The entries in order. -/
  entries : List (String × α)
  /-- The keys increase strictly. -/
  sorted : entries.Pairwise (fun a b => a.1 < b.1)
  deriving DecidableEq

namespace SortedMap

variable {α : Type}

/-- The map without entries. -/
def empty : SortedMap α := ⟨[], .nil⟩

instance : EmptyCollection (SortedMap α) := ⟨empty⟩

instance : Inhabited (SortedMap α) := ⟨empty⟩

/-- The value of a key. -/
def get? (map : SortedMap α) (key : String) : Option α :=
  map.entries.lookup key

/-- The keys in order. -/
def keys (map : SortedMap α) : List String :=
  map.entries.map (·.1)

/-- The values in the order of their keys. -/
def values (map : SortedMap α) : List α :=
  map.entries.map (·.2)

/-- Whether the map has a key. -/
def contains (map : SortedMap α) (key : String) : Bool :=
  (map.get? key).isSome

/-- Whether the map has no entries. -/
def isEmpty (map : SortedMap α) : Bool :=
  map.entries.isEmpty

/-! ## Changing one key -/

/-- Gives `key` the value `f` of its old value in a sorted list of entries. -/
def alterEntries (key : String) (f : Option α → α) : List (String × α) → List (String × α)
  | [] => [(key, f none)]
  | (k, v) :: rest =>
    if key < k then (key, f none) :: (k, v) :: rest
    else if key = k then (k, f (some v)) :: rest
    else (k, v) :: alterEntries key f rest

/-- Changing a key adds no other. -/
theorem mem_alterEntries {key : String} {f : Option α → α} {entries : List (String × α)}
    {e : String × α} (h : e ∈ alterEntries key f entries) :
    e.1 = key ∨ ∃ e' ∈ entries, e'.1 = e.1 := by
  fun_induction alterEntries key f entries with
  | case1 => simp_all
  | case2 => grind
  | case3 => grind
  | case4 => grind

/-- Changing a key keeps the entries sorted. -/
theorem pairwise_alterEntries {key : String} {f : Option α → α} {entries : List (String × α)}
    (h : entries.Pairwise (fun a b => a.1 < b.1)) :
    (alterEntries key f entries).Pairwise (fun a b => a.1 < b.1) := by
  fun_induction alterEntries key f entries with
  | case1 => simp
  | case2 k v rest hlt =>
    refine List.pairwise_cons.2 ⟨fun e he => ?_, h⟩
    rcases List.mem_cons.1 he with rfl | he
    · exact hlt
    · exact String.lt_trans hlt ((List.pairwise_cons.1 h).1 e he)
  | case3 v rest hlt =>
    exact List.pairwise_cons.2 ⟨(List.pairwise_cons.1 h).1, (List.pairwise_cons.1 h).2⟩
  | case4 k v rest hlt hne ih =>
    have hk : k < key := by
      rcases Std.lt_trichotomy key k with h1 | h1 | h1
      · exact absurd h1 hlt
      · exact absurd h1 hne
      · exact h1
    refine List.pairwise_cons.2 ⟨fun e he => ?_, ih (List.pairwise_cons.1 h).2⟩
    rcases mem_alterEntries he with h1 | ⟨e', he', h1⟩
    · exact h1 ▸ hk
    · exact h1 ▸ (List.pairwise_cons.1 h).1 e' he'

/-- Gives `key` the value `f` of its old value; all other keys keep theirs. -/
def alter (map : SortedMap α) (key : String) (f : Option α → α) : SortedMap α :=
  ⟨alterEntries key f map.entries, pairwise_alterEntries map.sorted⟩

/-- Gives `key` a value. -/
def insert (map : SortedMap α) (key : String) (value : α) : SortedMap α :=
  map.alter key fun _ => value

/-- The map of a list of entries; of two entries with one key the later counts. -/
def ofList (entries : List (String × α)) : SortedMap α :=
  entries.foldl (fun map e => map.insert e.1 e.2) empty

/-! ## Look-ups -/

@[simp]
theorem get?_empty (key : String) : (empty : SortedMap α).get? key = none := rfl

theorem lookup_cons_ite (k j : String) (v : α) (rest : List (String × α)) :
    ((j, v) :: rest).lookup k = if k = j then some v else rest.lookup k := by
  rw [List.lookup_cons]
  by_cases h : k = j
  · rw [if_pos h, h, beq_self_eq_true]
  · rw [if_neg h, beq_eq_false_iff_ne.2 h]

/-- Changing a key changes the value of that key only. The entries are sorted, so that the search
for the key stops at the right place. -/
theorem lookup_alterEntries (key : String) (f : Option α → α) {entries : List (String × α)}
    (h : entries.Pairwise (fun a b => a.1 < b.1)) (k : String) :
    (alterEntries key f entries).lookup k
      = if k = key then some (f (entries.lookup key)) else entries.lookup k := by
  induction entries with
  | nil => rw [alterEntries, lookup_cons_ite]; simp
  | cons e rest ih =>
    obtain ⟨j, v⟩ := e
    obtain ⟨hj, hrest⟩ := List.pairwise_cons.1 h
    rw [alterEntries]
    split
    · rename_i hlt
      -- A key before the first one is before all of them, so it is not there yet.
      have hnone : ((j, v) :: rest).lookup key = none := by
        rw [List.lookup_eq_none_iff]
        intro p hp
        rcases List.mem_cons.1 hp with rfl | hp
        · simpa using fun heq => String.lt_irrefl _ (heq ▸ hlt)
        · simpa using fun heq => String.lt_irrefl _ (heq ▸ String.lt_trans hlt (hj p hp))
      rw [hnone, lookup_cons_ite]
    · split
      · rename_i heq
        subst heq
        simp only [lookup_cons_ite]
        split <;> simp
      · rename_i hne
        rw [lookup_cons_ite, ih hrest, lookup_cons_ite, lookup_cons_ite]
        by_cases hk : k = key
        · subst hk; simp [hne]
        · simp [hk]

/-- Changing a key changes what is looked up for that key only. -/
theorem get?_alter (map : SortedMap α) (key : String) (f : Option α → α) (k : String) :
    (map.alter key f).get? k = if k = key then some (f (map.get? key)) else map.get? k :=
  lookup_alterEntries key f map.sorted k

/-- An inserted value is found, and all others as before. -/
theorem get?_insert (map : SortedMap α) (key : String) (value : α) (k : String) :
    (map.insert key value).get? k = if k = key then some value else map.get? k :=
  get?_alter map key _ k

/-- Changing the values of distinct keys one after the other changes each of them once. -/
theorem get?_foldl_alter {β : Type} (f : β → Option α → α) {entries : List (String × β)}
    (h : (entries.map (·.1)).Nodup) (map : SortedMap α) (key : String) :
    (entries.foldl (fun map e => map.alter e.1 (f e.2)) map).get? key =
      match entries.lookup key with
      | some value => some (f value (map.get? key))
      | none => map.get? key := by
  induction entries generalizing map with
  | nil => rfl
  | cons e rest ih =>
    obtain ⟨hfresh, hrest⟩ := List.nodup_cons.1 h
    rw [List.foldl_cons, ih hrest, get?_alter, lookup_cons_ite]
    by_cases hkey : key = e.1
    -- The key comes once, so what follows leaves its value alone.
    · have hnone : rest.lookup key = none := by
        rw [List.lookup_eq_none_iff]
        intro p hp
        have hne : key ≠ p.1 := fun heq => hfresh (List.mem_map.2 ⟨p, hp, heq.symm.trans hkey⟩)
        simpa using hne
      rw [if_pos hkey, if_pos hkey, hnone, hkey]
    · rw [if_neg hkey, if_neg hkey]

/-- The map of entries with distinct keys answers as the list of the entries. -/
theorem get?_ofList {entries : List (String × α)} (h : (entries.map (·.1)).Nodup) (key : String) :
    (ofList entries).get? key = entries.lookup key := by
  refine (get?_foldl_alter (fun value _ => value) h empty key).trans ?_
  rw [get?_empty]
  cases entries.lookup key <;> rfl

/-- The entries are what can be looked up. -/
theorem get?_eq_some_iff {map : SortedMap α} {key : String} {value : α} :
    map.get? key = some value ↔ (key, value) ∈ map.entries := by
  obtain ⟨entries, h⟩ := map
  show entries.lookup key = some value ↔ (key, value) ∈ entries
  induction entries with
  | nil => simp
  | cons e rest ih =>
    obtain ⟨j, v⟩ := e
    obtain ⟨hj, hrest⟩ := List.pairwise_cons.1 h
    rw [lookup_cons_ite]
    by_cases hk : key = j
    · subst hk
      have : (key, value) ∉ rest := fun hw => String.lt_irrefl _ (hj (key, value) hw)
      simp [this, eq_comm]
    · simp [hk, ih hrest]

/-- A map is determined by its look-ups. -/
theorem ext_get? {m n : SortedMap α} (h : ∀ key, m.get? key = n.get? key) : m = n := by
  obtain ⟨entries, hs⟩ := m
  obtain ⟨entries', hs'⟩ := n
  -- With the same look-ups the two lists have the same entries, and both are sorted.
  have hmem : ∀ e, e ∈ entries ↔ e ∈ entries' := fun ⟨key, value⟩ => by
    have hleft := @get?_eq_some_iff _ ⟨entries, hs⟩ key value
    have hright := @get?_eq_some_iff _ ⟨entries', hs'⟩ key value
    rw [← hleft, h, hright]
  congr
  induction entries generalizing entries' with
  | nil =>
    cases entries' with
    | nil => rfl
    | cons e _ => exact absurd ((hmem e).2 (by simp)) (by simp)
  | cons e rest ih =>
    cases entries' with
    | nil => exact absurd ((hmem e).1 (by simp)) (by simp)
    | cons e' rest' =>
      obtain ⟨he, hrest⟩ := List.pairwise_cons.1 hs
      obtain ⟨he', hrest'⟩ := List.pairwise_cons.1 hs'
      -- Each list begins with the least of these entries.
      have heq : e = e' := by
        rcases List.mem_cons.1 ((hmem e).1 (by simp)) with h1 | h1
        · exact h1
        · rcases List.mem_cons.1 ((hmem e').2 (by simp)) with h2 | h2
          · exact h2.symm
          · exact absurd (he _ h2) (String.lt_asymm (he' _ h1))
      subst heq
      -- Neither rest has that entry again, so they have the same entries as well.
      have hrec : ∀ x, x ∈ rest ↔ x ∈ rest' := fun x => by
        constructor
        · intro hx
          rcases List.mem_cons.1 ((hmem x).1 (by simp [hx])) with h1 | h1
          · exact absurd (he x hx) (h1 ▸ String.lt_irrefl _)
          · exact h1
        · intro hx
          rcases List.mem_cons.1 ((hmem x).2 (by simp [hx])) with h1 | h1
          · exact absurd (he' x hx) (h1 ▸ String.lt_irrefl _)
          · exact h1
      rw [ih hrest rest' hrest' (fun key => Option.ext fun value => by
        rw [get?_eq_some_iff, get?_eq_some_iff]; exact hrec _) hrec]

/-! ## Keys and values -/

/-- Each key has one entry. -/
theorem nodup_keys (map : SortedMap α) : map.keys.Nodup := by
  unfold keys List.Nodup
  rw [List.pairwise_map]
  refine map.sorted.imp ?_
  intro a b hlt heq
  rw [heq] at hlt
  exact String.lt_irrefl _ hlt

/-- The entries of a map give the map. -/
theorem ofList_entries (map : SortedMap α) : ofList map.entries = map :=
  ext_get? fun key => get?_ofList map.nodup_keys key

/-- A key has a value. -/
theorem mem_keys_iff {map : SortedMap α} {key : String} :
    key ∈ map.keys ↔ ∃ value, map.get? key = some value := by
  simp only [get?_eq_some_iff, keys, List.mem_map, Prod.exists, exists_and_right, exists_eq_right]

/-- A value has a key. -/
theorem mem_values_iff {map : SortedMap α} {value : α} :
    value ∈ map.values ↔ ∃ key, map.get? key = some value := by
  simp only [get?_eq_some_iff, values, List.mem_map, Prod.exists, exists_eq_right]

theorem get?_eq_none_iff {map : SortedMap α} {key : String} :
    map.get? key = none ↔ key ∉ map.keys := by
  rw [mem_keys_iff, ← Option.isSome_iff_exists, Option.not_isSome_iff_eq_none]

theorem contains_iff {map : SortedMap α} {key : String} :
    map.contains key = true ↔ key ∈ map.keys := by
  rw [contains, Option.isSome_iff_exists, mem_keys_iff]

/-- A key that is changed is there afterwards. -/
theorem mem_keys_alter {map : SortedMap α} {key k : String} {f : Option α → α} :
    k ∈ (map.alter key f).keys ↔ k = key ∨ k ∈ map.keys := by
  rw [mem_keys_iff, mem_keys_iff, get?_alter]
  by_cases h : k = key <;> simp [h]

/-- Changing a key makes one new value at most. -/
theorem eq_or_mem_of_mem_values_alter {map : SortedMap α} {key : String} {f : Option α → α}
    {value : α} (h : value ∈ (map.alter key f).values) :
    value = f (map.get? key) ∨ value ∈ map.values := by
  obtain ⟨k, hk⟩ := mem_values_iff.1 h
  rw [get?_alter] at hk
  split at hk
  · exact .inl (Option.some.inj hk).symm
  · exact .inr (mem_values_iff.2 ⟨k, hk⟩)

end SortedMap

end SourceSurvey
