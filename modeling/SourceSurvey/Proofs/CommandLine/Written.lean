import Mathlib.Data.List.Forall2
import Mathlib.Data.List.TakeWhile
import SourceSurvey.CommandLine.Index
import SourceSurvey.CommandLine.What
import SourceSurvey.Proofs.Text.Utf8

/-!
# Reading undoes writing

A command line is written from uses of options (`Written`): each use by its long name or in a
cluster of letters, its value in the same argument or in the next. The same uses can be written in
many ways, and all of them are read back as these uses (`read_of_written`), if the rules of the
options are unambiguous and the uses allowed.

Before each argument the reader has checked all uses but perhaps the last, whose value is then
known: checking it gives the uses written so far. That is what each argument preserves (`Adds`), and
so what holds of a whole line (`Written.adds`).

What a survey or an indexing run is asked to do determines the uses up to their order and the
spelling of a format (`WhatArguments.AskedBy`, `IndexArguments.AskedBy`), and so the reading of
each command line written for it (`parse_of_written`).
-/

set_option autoImplicit false

namespace SourceSurvey.CommandLine

variable {κ : Type}

/-! ## How uses of options are written -/

/-- The byte of the letter of an option. -/
def letter (c : Char) : UInt8 := .ofNat c.toNat

/-- Whether a value can be an argument of its own. -/
def StandsAlone (value : List UInt8) : Prop := value = [minus] ∨ value.head? ≠ some minus

/-- Uses that share an argument, the text of it after its minus sign, and the arguments that belong
to it. Only the last use can have a value. -/
inductive Cluster (rules : List (OptionRule κ)) :
    List (Use κ) → List UInt8 → List (List UInt8) → Prop where
  | lastSwitch {rule : OptionRule κ} {c : Char} :
      rule ∈ rules → rule.short = some c → rule.action = .switch →
      Cluster rules [⟨rule.key, []⟩] [letter c] []
  | switch {rule : OptionRule κ} {c : Char} {uses : List (Use κ)} {text : List UInt8}
      {values : List (List UInt8)} :
      rule ∈ rules → rule.short = some c → rule.action = .switch → Cluster rules uses text values →
      Cluster rules (⟨rule.key, []⟩ :: uses) (letter c :: text) values
  | withEquals {rule : OptionRule κ} {c : Char} {value : List UInt8} :
      rule ∈ rules → rule.short = some c → rule.action.takesValue = true →
      Cluster rules [⟨rule.key, value⟩] (letter c :: equals :: value) []
  | attached {rule : OptionRule κ} {c : Char} {value : List UInt8} :
      rule ∈ rules → rule.short = some c → rule.action.takesValue = true →
      value ≠ [] → value.head? ≠ some equals →
      Cluster rules [⟨rule.key, value⟩] (letter c :: value) []
  | separate {rule : OptionRule κ} {c : Char} {value : List UInt8} :
      rule ∈ rules → rule.short = some c → rule.action.takesValue = true → StandsAlone value →
      Cluster rules [⟨rule.key, value⟩] [letter c] [value]

/-- Uses in some order and the arguments they are written as. -/
inductive Written (rules : List (OptionRule κ)) : List (Use κ) → List (List UInt8) → Prop where
  | nil : Written rules [] []
  | longSwitch {rule : OptionRule κ} {uses : List (Use κ)} {arguments : List (List UInt8)} :
      rule ∈ rules → rule.action = .switch → Written rules uses arguments →
      Written rules (⟨rule.key, []⟩ :: uses)
        ((minus :: minus :: Utf8.ofString rule.long) :: arguments)
  | longEquals {rule : OptionRule κ} {value : List UInt8} {uses : List (Use κ)}
      {arguments : List (List UInt8)} :
      rule ∈ rules → rule.action.takesValue = true → Written rules uses arguments →
      Written rules (⟨rule.key, value⟩ :: uses)
        ((minus :: minus :: (Utf8.ofString rule.long ++ equals :: value)) :: arguments)
  | longSeparate {rule : OptionRule κ} {value : List UInt8} {uses : List (Use κ)}
      {arguments : List (List UInt8)} :
      rule ∈ rules → rule.action.takesValue = true → StandsAlone value →
      Written rules uses arguments →
      Written rules (⟨rule.key, value⟩ :: uses)
        ((minus :: minus :: Utf8.ofString rule.long) :: value :: arguments)
  | short {cluster uses : List (Use κ)} {text : List UInt8} {values arguments : List (List UInt8)} :
      Cluster rules cluster text values → Written rules uses arguments →
      Written rules (cluster ++ uses) ((minus :: text) :: (values ++ arguments))

/-! ## Finding the option of a name -/

/-- No option can be taken for another. -/
structure Unambiguous (rules : List (OptionRule κ)) : Prop where
  long_inj : ∀ rule ∈ rules, ∀ other ∈ rules, rule.long = other.long → rule = other
  short_inj : ∀ rule ∈ rules, ∀ other ∈ rules, rule.short = other.short → rule.short ≠ none →
    rule = other
  long_ne_empty : ∀ rule ∈ rules, rule.long ≠ ""
  equals_notMem : ∀ rule ∈ rules, '=' ∉ rule.long.toList
  short_ascii : ∀ rule ∈ rules, ∀ c ∈ rule.short, c.toNat < 128 ∧ c ≠ '-'

section Names

variable {rules : List (OptionRule κ)} {rule : OptionRule κ} {c : Char}

/-- A search finds what only one element can be. -/
theorem find?_of_unique {α : Type} {p : α → Bool} {x : α} {xs : List α} (hmem : x ∈ xs)
    (hx : p x = true) (hunique : ∀ y ∈ xs, p y = true → y = x) : xs.find? p = some x := by
  obtain ⟨y, hy⟩ := Option.isSome_iff_exists.1 (List.find?_isSome.2 ⟨x, hmem, hx⟩)
  rw [hy, hunique y (List.mem_of_find?_eq_some hy) (List.find?_some hy)]

/-- An option is found by its long name. -/
theorem findLong?_eq (h : Unambiguous rules) (hrule : rule ∈ rules) :
    findLong? rules (Utf8.ofString rule.long) = some rule := by
  refine find?_of_unique hrule (by simp) ?_
  intro other hother heq
  refine h.long_inj other hother rule hrule ?_
  exact String.toList_injective (Utf8.encode_injective (of_decide_eq_true heq))

/-- The byte of a short name has the number of its letter, which is ASCII. -/
theorem toNat_letter (h : Unambiguous rules) (hrule : rule ∈ rules) (hshort : rule.short = some c) :
    (letter c).toNat = c.toNat := by
  have hascii := (h.short_ascii rule hrule c hshort).1
  rw [letter, UInt8.toNat_ofNat', Nat.mod_eq_of_lt (by omega)]

/-- An option is found by the letter of its short name. -/
theorem findShort?_eq (h : Unambiguous rules) (hrule : rule ∈ rules) (hshort : rule.short = some c) :
    findShort? rules (letter c) = some rule := by
  have hletter := toNat_letter h hrule hshort
  refine find?_of_unique hrule (by simp [hshort, hletter]) ?_
  intro other hother hany
  refine h.short_inj other hother rule hrule ?_ ?_
  · cases hd : other.short with
    | none => simp [hd] at hany
    | some d =>
      have hsame : d.toNat = c.toNat := by simpa [hd, hletter] using hany
      rw [hshort, Char.toNat_inj.1 hsame]
  · intro hnone
    simp [hnone] at hany

/-- No short name is a minus sign, so a cluster is not taken for a long name. -/
theorem letter_ne_minus (h : Unambiguous rules) (hrule : rule ∈ rules)
    (hshort : rule.short = some c) : letter c ≠ minus := by
  intro heq
  have hminus := toNat_letter h hrule hshort
  rw [heq] at hminus
  exact (h.short_ascii rule hrule c hshort).2 (Char.toNat_inj.1 hminus.symm)

/-- The text of a cluster begins with a letter. -/
theorem Cluster.exists_cons (h : Unambiguous rules) {uses : List (Use κ)} {text : List UInt8}
    {values : List (List UInt8)} (hcluster : Cluster rules uses text values) :
    ∃ b rest, text = b :: rest ∧ b ≠ minus := by
  cases hcluster with
  | lastSwitch hrule hshort | switch hrule hshort | withEquals hrule hshort
  | attached hrule hshort | separate hrule hshort =>
    exact ⟨_, _, rfl, letter_ne_minus h hrule hshort⟩

/-- No long name is empty, so a long option is not taken for the two minus signs that end the
options. -/
theorem ofString_long_ne_nil (h : Unambiguous rules) (hrule : rule ∈ rules) :
    Utf8.ofString rule.long ≠ [] := by
  intro hnil
  refine h.long_ne_empty rule hrule ?_
  exact String.toList_injective (Utf8.encode_injective hnil)

/-- A long name holds no equals sign, so it ends where the value begins. -/
theorem ne_equals_of_mem (h : Unambiguous rules) (hrule : rule ∈ rules) :
    ∀ b ∈ Utf8.ofString rule.long, decide (b ≠ equals) = true := by
  intro b hb
  refine decide_eq_true ?_
  rintro rfl
  exact h.equals_notMem rule hrule ((Utf8.mem_encode_iff (by decide) (by decide)).1 hb)

end Names

/-! ## Uses that are allowed -/

variable [DecidableEq κ]

/-- The values of an option in the order of its uses. -/
def valuesOf (uses : List (Use κ)) (key : κ) : List (List UInt8) :=
  (uses.filter (·.key = key)).map (·.value)

/-- Whether an option can be used with each of some values in turn: each is possible, and there is
one at most unless the option may be repeated. -/
structure Action.Fits (action : Action) (values : List (List UInt8)) : Prop where
  once : action.isRepeatable = false → values.length ≤ 1
  valid : ∀ value ∈ values, action.problemWith value = none

/-- Whether the reader takes uses of options without complaint. -/
def Allowed (rules : List (OptionRule κ)) (uses : List (Use κ)) : Prop :=
  ∀ rule ∈ rules, rule.action.Fits (valuesOf uses rule.key)

/-- An option is used if it has values. -/
theorem isUsed_iff (uses : List (Use κ)) (key : κ) :
    isUsed uses key = true ↔ valuesOf uses key ≠ [] := by
  simp [isUsed, valuesOf, List.filter_eq_nil_iff]

/-- The value of an option that is used once is the first of its values. -/
theorem valueOf?_eq_head? (uses : List (Use κ)) (key : κ) :
    valueOf? uses key = (valuesOf uses key).head? := by
  rw [valueOf?, valuesOf, List.head?_map, List.head?_filter]

section Reading

variable {rules : List (OptionRule κ)} {rule : OptionRule κ} {state : State κ} {value : List UInt8}
  {done later : List (Use κ)}

/-- The values of an option before one of its uses, at it and after it. -/
theorem valuesOf_append_cons (done later : List (Use κ)) (key : κ) (value : List UInt8) :
    valuesOf (done ++ ⟨key, value⟩ :: later) key
      = valuesOf done key ++ value :: valuesOf later key := by
  simp [valuesOf]

/-- A use among allowed ones is noted without complaint. -/
theorem note_eq (hrule : rule ∈ rules) (hallowed : Allowed rules (done ++ ⟨rule.key, value⟩ :: later))
    (pending : Option (OptionRule κ × Option (List UInt8))) :
    (⟨done, pending⟩ : State κ).note rule value = .ok ⟨done ++ [⟨rule.key, value⟩], none⟩ := by
  have hvalues := valuesOf_append_cons done later rule.key value
  have hvalid : rule.action.problemWith value = none :=
    (hallowed rule hrule).valid value (by rw [hvalues]; simp)
  have hfirst : (!rule.action.isRepeatable && done.any (·.key = rule.key)) = false := by
    cases hrepeatable : rule.action.isRepeatable with
    | true => rfl
    | false =>
      have honce := (hallowed rule hrule).once hrepeatable
      rw [hvalues, List.length_append, List.length_cons] at honce
      have hnone : valuesOf done rule.key = [] := List.length_eq_zero_iff.1 (by omega)
      have hused := (isUsed_iff done rule.key).not_left.2 hnone
      simpa [isUsed] using hused
  simp only [State.note, hfirst, hvalid, Bool.false_eq_true, if_false]

theorem settle_none (done : List (Use κ)) :
    (⟨done, none⟩ : State κ).settle = .ok ⟨done, none⟩ := rfl

/-- The last use is noted once its value is known. -/
theorem settle_value (hrule : rule ∈ rules)
    (hallowed : Allowed rules (done ++ ⟨rule.key, value⟩ :: later)) :
    (⟨done, some (rule, some value)⟩ : State κ).settle
      = .ok ⟨done ++ [⟨rule.key, value⟩], none⟩ :=
  note_eq hrule hallowed _

/-- A switch is noted at once. -/
theorem useSwitch_eq (hsettle : state.settle = .ok ⟨done, none⟩) (hrule : rule ∈ rules)
    (haction : rule.action = .switch) (hallowed : Allowed rules (done ++ ⟨rule.key, []⟩ :: later)) :
    state.useSwitch rule = .ok ⟨done ++ [⟨rule.key, []⟩], none⟩ := by
  rw [State.useSwitch, hsettle]
  simp only [haction]
  exact note_eq hrule hallowed none

/-- An option with its value in the same argument is noted at once. -/
theorem useOption_some (hsettle : state.settle = .ok ⟨done, none⟩) (hrule : rule ∈ rules)
    (hallowed : Allowed rules (done ++ ⟨rule.key, value⟩ :: later)) :
    state.useOption rule (some value) = .ok ⟨done ++ [⟨rule.key, value⟩], none⟩ := by
  rw [State.useOption, hsettle]
  exact note_eq hrule hallowed none

/-- An option without a value in its own argument waits for the next one. -/
theorem useOption_none (hsettle : state.settle = .ok ⟨done, none⟩) :
    state.useOption rule none = .ok ⟨done, some (rule, none)⟩ := by
  rw [State.useOption, hsettle]
  rfl

/-- A value that stands alone goes to the option that waits for one. -/
theorem readArguments_value (hvalue : StandsAlone value) (arguments : List (List UInt8)) :
    readArguments rules ⟨done, some (rule, none)⟩ (value :: arguments)
      = readArguments rules ⟨done, some (rule, some value)⟩ arguments := by
  have hplain : readArgument rules ⟨done, some (rule, none)⟩ value
      = .ok ⟨done, some (rule, some value)⟩ := by
    unfold readArgument
    split
    · rename_i b c rest
      rw [if_neg]
      · rfl
      · rintro rfl
        rcases hvalue with hminus | hhead
        · cases hminus
        · exact hhead rfl
    · rfl
  rw [readArguments, if_neg, hplain]
  · rfl
  · rintro rfl
    rcases hvalue with hminus | hhead
    · cases hminus
    · exact hhead rfl

/-! ## Clusters -/

/-- In a cluster, reading goes on behind the letter of a switch. -/
theorem readShort_switch (h : Unambiguous rules) (hrule : rule ∈ rules) {c : Char}
    (hshort : rule.short = some c) (haction : rule.action = .switch)
    (hsettle : state.settle = .ok ⟨done, none⟩)
    (hallowed : Allowed rules (done ++ ⟨rule.key, []⟩ :: later)) (text : List UInt8) :
    readShort rules state (letter c :: text)
      = readShort rules ⟨done ++ [⟨rule.key, []⟩], none⟩ text := by
  have htakes : rule.action.takesValue = false := by rw [haction]; rfl
  rw [readShort, findShort?_eq h hrule hshort]
  simp only [htakes, Bool.false_eq_true, if_false, useSwitch_eq hsettle hrule haction hallowed]

/-- In a cluster, what stands behind the letter of an option is its value. -/
theorem readShort_option (h : Unambiguous rules) (hrule : rule ∈ rules) {c : Char}
    (hshort : rule.short = some c) (htakes : rule.action.takesValue = true) (text : List UInt8) :
    readShort rules state (letter c :: text) = state.useOption rule (attachedValue text) := by
  rw [readShort, findShort?_eq h hrule hshort]
  simp only [htakes, if_true]

/-- An attached value is taken as it is if no equals sign comes before it. -/
theorem attachedValue_eq_self (hne : value ≠ []) (hhead : value.head? ≠ some equals) :
    attachedValue value = some value := by
  cases value with
  | nil => exact absurd rfl hne
  | cons b rest =>
    rw [attachedValue, if_neg]
    rintro rfl
    exact hhead rfl

/-- The argument of a cluster and those that belong to it add the uses in it. -/
theorem Cluster.exists_readArguments (h : Unambiguous rules) {uses : List (Use κ)}
    {text : List UInt8} {values : List (List UInt8)} (hcluster : Cluster rules uses text values)
    (hsettle : state.settle = .ok ⟨done, none⟩) (hallowed : Allowed rules (done ++ (uses ++ later))) :
    ∃ after : State κ, after.settle = .ok ⟨done ++ uses, none⟩ ∧
      ∀ arguments, (readShort rules state text >>= (readArguments rules · (values ++ arguments)))
        = readArguments rules after arguments := by
  -- The induction is on the cluster, letter by letter; every letter may change the state.
  induction hcluster generalizing state done with
  | lastSwitch hrule hshort haction =>
    refine ⟨_, settle_none _, fun arguments => ?_⟩
    rw [readShort_switch h hrule hshort haction hsettle hallowed]
    rfl
  | @switch rule _ uses text _ hrule hshort haction _ ih =>
    -- The switch is noted, so it counts among the uses before the rest of the cluster.
    have hallowed' : Allowed rules ((done ++ [⟨rule.key, []⟩]) ++ (uses ++ later)) := by
      rwa [List.append_assoc, List.singleton_append, ← List.cons_append]
    obtain ⟨after, hafter, hread⟩ := ih (settle_none _) hallowed'
    rw [List.append_assoc, List.singleton_append] at hafter
    refine ⟨after, hafter, fun arguments => ?_⟩
    rw [readShort_switch h hrule hshort haction hsettle hallowed]
    exact hread arguments
  -- A letter whose option takes a value ends the cluster; three ways to give that value.
  | withEquals hrule hshort htakes =>
    refine ⟨_, settle_none _, fun arguments => ?_⟩
    rw [readShort_option h hrule hshort htakes, attachedValue, if_pos rfl,
      useOption_some hsettle hrule hallowed]
    rfl
  | attached hrule hshort htakes hne hhead =>
    refine ⟨_, settle_none _, fun arguments => ?_⟩
    rw [readShort_option h hrule hshort htakes, attachedValue_eq_self hne hhead,
      useOption_some hsettle hrule hallowed]
    rfl
  -- The value is in the next argument and is checked later.
  | separate hrule hshort htakes hvalue =>
    refine ⟨_, settle_value hrule hallowed, fun arguments => ?_⟩
    rw [readShort_option h hrule hshort htakes, attachedValue, useOption_none hsettle]
    exact readArguments_value hvalue arguments

/-! ## Arguments -/

/-- The long name of a switch is read as its use. -/
theorem readLong_switch (h : Unambiguous rules) (hrule : rule ∈ rules)
    (haction : rule.action = .switch) :
    readLong rules state (Utf8.ofString rule.long) = state.useSwitch rule := by
  have hname := ne_equals_of_mem h hrule
  have htakes : rule.action.takesValue = false := by rw [haction]; rfl
  rw [readLong, List.takeWhile_eq_self_iff.2 hname, findLong?_eq h hrule,
    List.dropWhile_eq_nil_iff.2 hname]
  simp only [htakes, Bool.false_eq_true, if_false]

/-- A long name alone is read as the use of an option whose value comes next. -/
theorem readLong_option (h : Unambiguous rules) (hrule : rule ∈ rules)
    (htakes : rule.action.takesValue = true) :
    readLong rules state (Utf8.ofString rule.long) = state.useOption rule none := by
  have hname := ne_equals_of_mem h hrule
  rw [readLong, List.takeWhile_eq_self_iff.2 hname, findLong?_eq h hrule,
    List.dropWhile_eq_nil_iff.2 hname]
  simp only [htakes, if_true]

/-- What stands behind the equals sign is the value of a long option. -/
theorem readLong_equals (h : Unambiguous rules) (hrule : rule ∈ rules)
    (htakes : rule.action.takesValue = true) (value : List UInt8) :
    readLong rules state (Utf8.ofString rule.long ++ equals :: value)
      = state.useOption rule (some value) := by
  have hname := ne_equals_of_mem h hrule
  rw [readLong, List.takeWhile_append_of_pos hname, List.dropWhile_append_of_pos hname,
    List.takeWhile_cons_of_neg (by simp), List.dropWhile_cons_of_neg (by simp), List.append_nil,
    findLong?_eq h hrule]
  simp only [htakes, if_true]

/-- An argument that begins with two minus signs is read as a long option. -/
theorem readArguments_long {name : List UInt8} (hname : name ≠ []) (arguments : List (List UInt8)) :
    readArguments rules state ((minus :: minus :: name) :: arguments)
      = readLong rules state name >>= (readArguments rules · arguments) := by
  rw [readArguments, if_neg (by simpa using hname), readArgument, if_pos rfl, if_pos rfl]

/-- An argument that begins with one minus sign is read as a cluster. -/
theorem readArguments_short {b : UInt8} (hb : b ≠ minus) (rest : List UInt8)
    (arguments : List (List UInt8)) :
    readArguments rules state ((minus :: b :: rest) :: arguments)
      = readShort rules state (b :: rest) >>= (readArguments rules · arguments) := by
  rw [readArguments, if_neg (by simp [hb]), readArgument, if_pos rfl, if_neg hb]

/-- Arguments add some uses to those that were read before them, if all together are allowed. -/
def Adds (rules : List (OptionRule κ)) (arguments : List (List UInt8)) (uses : List (Use κ)) : Prop :=
  ∀ (state : State κ) (done : List (Use κ)), state.settle = .ok ⟨done, none⟩ →
    Allowed rules (done ++ uses) →
    ∃ after, readArguments rules state arguments = .ok after ∧
      after.settle = .ok ⟨done ++ uses, none⟩

/-- What is added first stands in front of what the arguments behind it add. -/
theorem Adds.of_first {all arguments : List (List UInt8)} {first uses : List (Use κ)}
    (h : Adds rules arguments uses)
    (hfirst : ∀ (state : State κ) (done : List (Use κ)), state.settle = .ok ⟨done, none⟩ →
      Allowed rules (done ++ (first ++ uses)) →
      ∃ middle, readArguments rules state all = readArguments rules middle arguments ∧
        middle.settle = .ok ⟨done ++ first, none⟩) :
    Adds rules all (first ++ uses) := by
  intro state done hsettle hallowed
  obtain ⟨middle, hread, hmiddle⟩ := hfirst state done hsettle hallowed
  rw [← List.append_assoc] at hallowed ⊢
  obtain ⟨after, hrest, hafter⟩ := h middle (done ++ first) hmiddle hallowed
  exact ⟨after, hread.trans hrest, hafter⟩

/-- What arguments are written from is what they add to the uses. -/
theorem Written.adds (h : Unambiguous rules) {uses : List (Use κ)} {arguments : List (List UInt8)}
    (hwritten : Written rules uses arguments) : Adds rules arguments uses := by
  -- Each way to write the first argument adds its uses and leaves a state that settles, as `Adds`
  -- asks.
  induction hwritten with
  | nil =>
    intro state done hsettle _
    refine ⟨state, rfl, ?_⟩
    rw [List.append_nil]
    exact hsettle
  | @longSwitch rule uses _ hrule haction _ ih =>
    show Adds rules _ ([⟨rule.key, []⟩] ++ uses)
    refine ih.of_first ?_
    intro state done hsettle hallowed
    refine ⟨_, ?_, settle_none _⟩
    rw [readArguments_long (ofString_long_ne_nil h hrule), readLong_switch h hrule haction,
      useSwitch_eq hsettle hrule haction hallowed]
    rfl
  | @longEquals rule value uses _ hrule htakes _ ih =>
    show Adds rules _ ([⟨rule.key, value⟩] ++ uses)
    refine ih.of_first ?_
    intro state done hsettle hallowed
    refine ⟨_, ?_, settle_none _⟩
    rw [readArguments_long (by simp), readLong_equals h hrule htakes,
      useOption_some hsettle hrule hallowed]
    rfl
  -- The value is checked with the next option or at the end of the line.
  | @longSeparate rule value uses _ hrule htakes hvalue _ ih =>
    show Adds rules _ ([⟨rule.key, value⟩] ++ uses)
    refine ih.of_first ?_
    intro state done hsettle hallowed
    refine ⟨_, ?_, settle_value hrule hallowed⟩
    rw [readArguments_long (ofString_long_ne_nil h hrule), readLong_option h hrule htakes,
      useOption_none hsettle]
    exact readArguments_value hvalue _
  | short hcluster _ ih =>
    refine ih.of_first ?_
    intro state done hsettle hallowed
    obtain ⟨middle, hmiddle, hread⟩ := hcluster.exists_readArguments h hsettle hallowed
    refine ⟨middle, ?_, hmiddle⟩
    obtain ⟨b, rest, rfl, hb⟩ := hcluster.exists_cons h
    rw [readArguments_short hb, hread]

/-- A command line is read as the uses that it is written from. -/
theorem read_of_written (h : Unambiguous rules) {uses : List (Use κ)} {arguments : List (List UInt8)}
    (hwritten : Written rules uses arguments) (hallowed : Allowed rules uses)
    (program : List UInt8) : read rules (program :: arguments) = .ok uses := by
  -- The reader begins with no uses and no option that waits.
  obtain ⟨after, hread, hafter⟩ := hwritten.adds h _ [] (settle_none []) hallowed
  rw [read, List.tail_cons, hread]
  show after.settle >>= _ = _
  rw [hafter]
  rfl

end Reading

/-! ## What the uses of options say -/

/-- The values of a switch that is used once or not at all. -/
def switchValues (isOn : Bool) : List (List UInt8) := if isOn then [[]] else []

/-- The values of an option that is used once with a text or not at all. -/
def textValues (text : Option String) : List (List UInt8) := (text.map Utf8.ofString).toList

/-- The values of an option that is used once with a path or not at all. -/
def pathValues (path : Option Path) : List (List UInt8) := (path.map Path.bytes).toList

/-- Whether a value is the name of a format in upper or lower case. -/
def Spells (format : Format) (value : List UInt8) : Prop :=
  ∃ name text, (name, format) ∈ prettyNames ∧ Action.lower text = Action.lower name ∧
    value = Utf8.ofString text

/-- What a survey is asked to do by uses of options: each switch that is on and each value that is
given is used once, the names of directories in their order. -/
structure WhatArguments.AskedBy (arguments : WhatArguments) (uses : List (Use WhatOption)) :
    Prop where
  where_ : valuesOf uses .where_ = switchValues arguments.showLocations
  exclude : valuesOf uses .exclude = arguments.exclude.map Utf8.ofString
  language : valuesOf uses .language = textValues arguments.language
  pretty : List.Forall₂ Spells arguments.pretty.toList (valuesOf uses .pretty)
  config : valuesOf uses .config = pathValues arguments.config
  verbose : valuesOf uses .verbose = switchValues arguments.verbose
  help : valuesOf uses .help = []
  version : valuesOf uses .version = []

/-- What indexing is asked to do by uses of options: each switch that is on and each value that is
given is used once. -/
structure IndexArguments.AskedBy (arguments : IndexArguments) (uses : List (Use IndexOption)) :
    Prop where
  kernel : valuesOf uses .kernel = switchValues arguments.kernel
  doxygen : valuesOf uses .doxygen = switchValues arguments.doxygen
  cscope : valuesOf uses .cscope = switchValues arguments.cscope
  web : valuesOf uses .web = switchValues arguments.web
  title : valuesOf uses .title = textValues arguments.title
  config : valuesOf uses .config = pathValues arguments.config
  verbose : valuesOf uses .verbose = switchValues arguments.verbose
  help : valuesOf uses .help = []
  version : valuesOf uses .version = []

section Values

variable {uses : List (Use κ)} {key : κ} {value : List UInt8}

/-- A switch is read as on exactly if it is asked for. -/
theorem isUsed_of_switchValues {isOn : Bool} (h : valuesOf uses key = switchValues isOn) :
    isUsed uses key = isOn := by
  rw [Bool.eq_iff_iff, isUsed_iff, h]
  cases isOn <;> decide

/-- The text of an option is read as it was written. -/
theorem textOf_textValues {text : Option String} (h : valuesOf uses key = textValues text) :
    (valueOf? uses key).map Utf8.toStringLossy = text := by
  rw [valueOf?_eq_head?, h]
  cases text <;> simp [textValues]

/-- The path of an option is read byte by byte as it was written. -/
theorem pathOf_pathValues {path : Option Path} (h : valuesOf uses key = pathValues path) :
    (valueOf? uses key).map Path.mk = path := by
  rw [valueOf?_eq_head?, h]
  cases path <;> simp [pathValues]

theorem fits_nil (action : Action) : action.Fits [] :=
  ⟨fun _ => Nat.zero_le 1, fun _ h => absurd h List.not_mem_nil⟩

theorem fits_singleton {action : Action} (h : action.problemWith value = none) :
    action.Fits [value] := by
  refine ⟨fun _ => Nat.le_refl 1, ?_⟩
  intro other hother
  rwa [List.mem_singleton.1 hother]

theorem fits_switchValues (isOn : Bool) : Action.switch.Fits (switchValues isOn) := by
  cases isOn with
  | false => exact fits_nil _
  | true => exact fits_singleton rfl

/-- Every text is a value of an option for texts. -/
theorem problemWith_text (isRepeatable : Bool) (text : String) :
    (Action.text isRepeatable).problemWith (Utf8.ofString text) = none := by
  simp [Action.problemWith, Utf8.ofString, Utf8.decode?_encode]

theorem fits_texts (texts : List String) : (Action.text true).Fits (texts.map Utf8.ofString) := by
  constructor
  · intro hrepeatable
    cases hrepeatable
  · intro value hvalue
    obtain ⟨text, -, rfl⟩ := List.mem_map.1 hvalue
    exact problemWith_text true text

theorem fits_textValues (isRepeatable : Bool) (text : Option String) :
    (Action.text isRepeatable).Fits (textValues text) := by
  cases text with
  | none => exact fits_nil _
  | some text => exact fits_singleton (problemWith_text isRepeatable text)

/-- Every path but the empty one is a value of an option for paths. -/
theorem fits_pathValues {path : Option Path} (hpath : path ≠ some ⟨[]⟩) :
    Action.path.Fits (pathValues path) := by
  cases path with
  | none => exact fits_nil _
  | some path =>
    refine fits_singleton (if_neg ?_)
    intro hempty
    exact hpath (congrArg some (congrArg Path.mk hempty))

/-- The name of a format is one of the choices, in upper or lower case. -/
theorem problemWith_of_spells {format : Format} (h : Spells format value) :
    (Action.choice (prettyNames.map (·.1))).problemWith value = none := by
  obtain ⟨name, text, hname, hlower, rfl⟩ := h
  have hany : (prettyNames.map (·.1)).any (fun name => Action.lower name = Action.lower text)
      = true :=
    List.any_eq_true.2 ⟨name, List.mem_map_of_mem hname, decide_eq_true hlower.symm⟩
  simp only [Action.problemWith, Utf8.toString?_ofString, hany, if_true]

/-- The values of an option for a format are none or a name of it. -/
theorem exists_of_forall₂_spells {format : Option Format} {values : List (List UInt8)}
    (h : List.Forall₂ Spells format.toList values) :
    (format = none ∧ values = []) ∨
      ∃ chosen value, format = some chosen ∧ values = [value] ∧ Spells chosen value := by
  cases format with
  | none => exact .inl ⟨rfl, List.forall₂_nil_left_iff.1 h⟩
  | some chosen =>
    obtain ⟨value, more, hvalue, hmore, rfl⟩ := List.forall₂_cons_left_iff.1 h
    rw [List.forall₂_nil_left_iff.1 hmore]
    exact .inr ⟨chosen, value, rfl, rfl, hvalue⟩

theorem fits_of_spells {format : Option Format} {values : List (List UInt8)}
    (h : List.Forall₂ Spells format.toList values) :
    (Action.choice (prettyNames.map (·.1))).Fits values := by
  rcases exists_of_forall₂_spells h with ⟨-, rfl⟩ | ⟨chosen, value, -, rfl, hspells⟩
  · exact fits_nil _
  · exact fits_singleton (problemWith_of_spells hspells)

/-- The name of a format is read as that format, since no two names differ by case alone. -/
theorem formatOf?_of_spells {format : Format} (h : Spells format value) :
    formatOf? (Utf8.toStringLossy value) = some format := by
  obtain ⟨name, text, hname, hlower, rfl⟩ := h
  -- Any spelling of a name finds the entry of that name, as it finds no other.
  have hdistinct : ∀ entry ∈ prettyNames, ∀ other ∈ prettyNames,
      Action.lower entry.1 = Action.lower other.1 → entry = other := by decide
  have hfind : prettyNames.find? (fun entry => Action.lower entry.1 = Action.lower text)
      = some (name, format) := by
    refine find?_of_unique hname (decide_eq_true hlower.symm) ?_
    intro entry hentry heq
    refine hdistinct entry hentry _ hname ?_
    rw [of_decide_eq_true heq, hlower]
  rw [formatOf?, Utf8.toStringLossy_ofString, hfind]
  rfl

end Values

/-! ## The two commands -/

/-- The options of a survey cannot be taken for each other. -/
theorem unambiguous_whatRules : Unambiguous whatRules :=
  ⟨by decide, by decide, by decide, by decide, by simp [whatRules]⟩

/-- The options of indexing cannot be taken for each other. -/
theorem unambiguous_indexRules : Unambiguous indexRules :=
  ⟨by decide, by decide, by decide, by decide, by simp [indexRules]⟩

section What

variable {arguments : WhatArguments} {uses : List (Use WhatOption)}

/-- What asks for a survey is taken without complaint. Each option is used as its rule allows. -/
theorem WhatArguments.AskedBy.allowed (h : arguments.AskedBy uses)
    (hconfig : arguments.config ≠ some ⟨[]⟩) : Allowed whatRules uses := by
  intro rule hrule
  simp only [whatRules, List.mem_cons, List.not_mem_nil, or_false] at hrule
  rcases hrule with rfl | rfl | rfl | rfl | rfl | rfl | rfl | rfl
  · rw [h.where_]; exact fits_switchValues _
  · rw [h.exclude]; exact fits_texts _
  · rw [h.language]; exact fits_textValues false _
  · exact fits_of_spells h.pretty
  · rw [h.config]; exact fits_pathValues hconfig
  · rw [h.verbose]; exact fits_switchValues _
  · rw [h.help]; exact fits_nil _
  · rw [h.version]; exact fits_nil _

/-- What is asked for in a survey is read off the uses again, option by option. -/
theorem WhatArguments.AskedBy.ofUses_eq (h : arguments.AskedBy uses) :
    WhatArguments.ofUses uses = arguments := by
  have hexclude : (uses.filter (·.key = .exclude)).map (fun use => Utf8.toStringLossy use.value)
      = arguments.exclude := by
    have hvalues := congrArg (List.map Utf8.toStringLossy) h.exclude
    rw [valuesOf, List.map_map, List.map_map] at hvalues
    refine hvalues.trans ?_
    exact (List.map_congr_left fun text _ => Utf8.toStringLossy_ofString text).trans
      (List.map_id _)
  have hpretty : ((valueOf? uses .pretty).bind fun value => formatOf? (Utf8.toStringLossy value))
      = arguments.pretty := by
    rw [valueOf?_eq_head?]
    rcases exists_of_forall₂_spells h.pretty with
      ⟨hformat, hvalues⟩ | ⟨chosen, value, hformat, hvalues, hspells⟩
    · rw [hformat, hvalues]
      rfl
    · rw [hformat, hvalues]
      exact formatOf?_of_spells hspells
  rw [WhatArguments.ofUses, isUsed_of_switchValues h.where_, isUsed_of_switchValues h.verbose,
    textOf_textValues h.language, pathOf_pathValues h.config, hpretty, hexclude]

end What

section Index

variable {arguments : IndexArguments} {uses : List (Use IndexOption)}

/-- What asks for indexing is taken without complaint. -/
theorem IndexArguments.AskedBy.allowed (h : arguments.AskedBy uses)
    (hconfig : arguments.config ≠ some ⟨[]⟩) : Allowed indexRules uses := by
  intro rule hrule
  simp only [indexRules, List.mem_cons, List.not_mem_nil, or_false] at hrule
  rcases hrule with rfl | rfl | rfl | rfl | rfl | rfl | rfl | rfl | rfl
  · rw [h.kernel]; exact fits_switchValues _
  · rw [h.doxygen]; exact fits_switchValues _
  · rw [h.cscope]; exact fits_switchValues _
  · rw [h.web]; exact fits_switchValues _
  · rw [h.title]; exact fits_textValues false _
  · rw [h.config]; exact fits_pathValues hconfig
  · rw [h.verbose]; exact fits_switchValues _
  · rw [h.help]; exact fits_nil _
  · rw [h.version]; exact fits_nil _

/-- What is asked for in indexing is read off the uses again. -/
theorem IndexArguments.AskedBy.ofUses_eq (h : arguments.AskedBy uses) :
    IndexArguments.ofUses uses = arguments := by
  rw [IndexArguments.ofUses, isUsed_of_switchValues h.kernel, isUsed_of_switchValues h.doxygen,
    isUsed_of_switchValues h.cscope, isUsed_of_switchValues h.web,
    isUsed_of_switchValues h.verbose, textOf_textValues h.title, pathOf_pathValues h.config]

end Index

/-- What is written on a command line is what is read from it, for a survey and for indexing:
whatever is asked for, in whatever order and in whichever of the legal ways it is written. -/
theorem parse_of_written :
    (∀ (arguments : WhatArguments) (uses : List (Use WhatOption)) (program : List UInt8)
      (written : List (List UInt8)),
      arguments.AskedBy uses → arguments.config ≠ some ⟨[]⟩ → Written whatRules uses written →
      WhatArguments.parse (program :: written) = .ok arguments) ∧
    (∀ (arguments : IndexArguments) (uses : List (Use IndexOption)) (program : List UInt8)
      (written : List (List UInt8)),
      arguments.AskedBy uses → arguments.config ≠ some ⟨[]⟩ → Written indexRules uses written →
      IndexArguments.parse (program :: written) = .ok arguments) := by
  constructor
  · intro arguments uses program written hasked hconfig hwritten
    have hread := read_of_written unambiguous_whatRules hwritten (hasked.allowed hconfig) program
    rw [WhatArguments.parse, hread]
    exact congrArg Except.ok hasked.ofUses_eq
  · intro arguments uses program written hasked hconfig hwritten
    have hread := read_of_written unambiguous_indexRules hwritten (hasked.allowed hconfig) program
    rw [IndexArguments.parse, hread]
    exact congrArg Except.ok hasked.ofUses_eq

/-! ## Values that look like options -/

/-- A survey with values that look like options, an empty value and a path that is not UTF-8. -/
def disguisedSurvey : WhatArguments where
  showLocations := true
  exclude := ["-x", "-"]
  language := some ""
  pretty := some .latex
  config := some ⟨[0xFF]⟩
  verbose := false

/-- The uses of options for `disguisedSurvey`, the format spelled in its own way. -/
def disguisedUses : List (Use WhatOption) :=
  [⟨.where_, []⟩, ⟨.exclude, Utf8.ofString "-x"⟩, ⟨.pretty, Utf8.ofString "laTEX"⟩,
   ⟨.exclude, Utf8.ofString "-"⟩, ⟨.language, []⟩, ⟨.config, [0xFF]⟩]

/-- A command line for `disguisedSurvey`. -/
def disguisedLine : List (List UInt8) :=
  ["-we-x", "--pretty", "laTEX", "-e", "-", "-l=", "--config"].map Utf8.ofString ++ [[0xFF]]

/-- The uses ask for the survey, each value in its own way. -/
theorem askedBy_disguisedUses : disguisedSurvey.AskedBy disguisedUses where
  where_ := by decide
  exclude := by decide
  language := by decide
  pretty := .cons ⟨"LaTeX", "laTEX", by decide, by decide, rfl⟩ .nil
  config := by decide
  verbose := by decide
  help := by decide
  version := by decide

theorem written_disguisedLine : Written whatRules disguisedUses disguisedLine := by
  have hwhere : ⟨.where_, "where", some 'w', .switch⟩ ∈ whatRules := by decide
  have hexclude : ⟨.exclude, "exclude", some 'e', .text true⟩ ∈ whatRules := by decide
  have hlanguage : ⟨.language, "language", some 'l', .text false⟩ ∈ whatRules := by decide
  have hpretty : ⟨.pretty, "pretty", some 'p', .choice (prettyNames.map (·.1))⟩ ∈ whatRules := by
    decide
  have hconfig : ⟨.config, "config", none, .path⟩ ∈ whatRules := by decide
  have hpath : StandsAlone [0xFF] := .inr (by decide)
  have hminus : StandsAlone [minus] := .inl rfl
  have hformat : StandsAlone (Utf8.ofString "laTEX") := .inr (by decide)
  have hattached : Utf8.ofString "-x" ≠ [] := by decide
  -- From the last argument to the first.
  have hline := Written.longSeparate hconfig rfl hpath .nil
  have hline := Written.short (@Cluster.withEquals _ _ _ _ [] hlanguage rfl rfl) hline
  have hline := Written.short (.separate hexclude rfl rfl hminus) hline
  have hline := Written.longSeparate hpretty rfl hformat hline
  have hline := Written.short (.switch hwhere rfl rfl
    (.attached hexclude rfl rfl hattached (by decide))) hline
  exact hline

/-- Both commands read a line on which a value looks like an option. -/
theorem parse_of_written_disguised :
    WhatArguments.parse (Utf8.ofString "what" :: disguisedLine) = .ok disguisedSurvey ∧
      IndexArguments.parse (["code-spelunk", "-kct-v"].map Utf8.ofString)
        = .ok ⟨true, false, true, false, some "-v", none, false⟩ := by
  constructor
  · exact parse_of_written.1 disguisedSurvey disguisedUses _ _ askedBy_disguisedUses (by decide)
      written_disguisedLine
  · refine parse_of_written.2 _
      [⟨.kernel, []⟩, ⟨.cscope, []⟩, ⟨.title, Utf8.ofString "-v"⟩] _ _ ?_ (by decide) ?_
    · constructor <;> decide
    · have hkernel : ⟨.kernel, "kernel", some 'k', .switch⟩ ∈ indexRules := by decide
      have hcscope : ⟨.cscope, "cscope", some 'c', .switch⟩ ∈ indexRules := by decide
      have htitle : ⟨.title, "title", some 't', .text false⟩ ∈ indexRules := by decide
      have hattached : Utf8.ofString "-v" ≠ [] := by decide
      exact Written.short (.switch hkernel rfl rfl (.switch hcscope rfl rfl
        (.attached htitle rfl rfl hattached (by decide)))) .nil

end SourceSurvey.CommandLine
