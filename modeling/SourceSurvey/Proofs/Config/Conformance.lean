import Mathlib
import SourceSurvey.Proofs.Config.Schema

/-!
# Documents that give settings

A document gives settings if it conforms to the schema: it has no unknown keys, and every value has
the type of its setting (`Schema.Conforms`). Then it gives the settings that it describes, no less
and no others; and a document that spells out the settings that differ from the default ones, with
or without others, gives these settings back (`Config.isDescribedBy_of_isSpelledOutBy`). For every
choice of settings there is a table that spells them out, if the paths of the tools are text
(`Config.isSpelledOutBy_spelledOut`).

The main statement is `Config.loadFile_schema`. A date or time counts as a table of strings there,
though it is written without any table (`Config.loadFile_schema_moment`).
-/

set_option autoImplicit false

namespace SourceSurvey

open Toml (Value)

namespace Schema

/-! ## Types of values -/

/-- The value is a string. -/
def IsString (v : Value) : Prop := ∃ text, v = .string text

/-- The value is an array of strings. -/
def IsStringArray (v : Value) : Prop := ∃ items, v = .array items ∧ ∀ item ∈ items, IsString item

/-- Every value of a table is a string. -/
def HaveStrings (entries : List (String × Value)) : Prop :=
  ∀ key v, entries.lookup key = some v → IsString v

/-- The value is a table of strings, or counts as one. -/
def IsStringTable (v : Value) : Prop := ∃ entries, tableOf? v = some entries ∧ HaveStrings entries

/-- A document conforms to the schema: its keys are those of the groups, and each group is a table
of settings or an array of the first settings, with values of their types. -/
structure Conforms (entries : List (String × Value)) : Prop where
  keys : ∀ e ∈ entries, e.1 ∈ ["what", "tools"]
  survey : ∃ given, Gives surveyKeys (entries.lookup "what") given ∧
    (∀ v, given.lookup "exclude" = some v → IsStringArray v) ∧
    (∀ v, given.lookup "ignore" = some v → IsStringArray v) ∧
    ∀ v, given.lookup "extensions" = some v → IsStringTable v
  tools : ∃ given, Gives toolKeys (entries.lookup "tools") given ∧ HaveStrings given

section Types

variable {v : Value}

/-- There is a path for strings only. -/
theorem exists_readsPath_iff : (∃ path, ReadsPath v path) ↔ IsString v := by
  constructor
  · rintro ⟨path, text, h, -⟩
    exact ⟨text, h⟩
  · rintro ⟨text, h⟩
    exact ⟨.ofString text, text, h, rfl⟩

/-- There is a list of texts for arrays of strings only. -/
theorem exists_readsStrings_iff : (∃ texts, ReadsStrings v texts) ↔ IsStringArray v := by
  constructor
  · rintro ⟨texts, rfl⟩
    refine ⟨_, rfl, ?_⟩
    rintro item hitem
    obtain ⟨text, -, rfl⟩ := List.mem_map.1 hitem
    exact ⟨text, rfl⟩
  · rintro ⟨items, rfl, hitems⟩
    have hrange : items ∈ Set.range (List.map Value.string) := by
      rw [Set.range_list_map]
      exact fun item hitem => (hitems item hitem).imp fun text h => h.symm
    obtain ⟨texts, rfl⟩ := hrange
    exact ⟨texts, rfl⟩

/-- The text of a string. -/
def textOf : Value → String
  | .string text => text
  | _ => ""

/-- There is a map for tables of strings only. -/
theorem exists_readsMap_iff (hv : v.DistinctKeys) : (∃ map, ReadsMap v map) ↔ IsStringTable v := by
  constructor
  · rintro ⟨map, entries, htable, hlookup⟩
    refine ⟨entries, htable, fun key v hkey => ?_⟩
    rw [hlookup] at hkey
    obtain ⟨text, -, rfl⟩ := Option.map_eq_some_iff.1 hkey
    exact ⟨text, rfl⟩
  · rintro ⟨entries, htable, hstrings⟩
    have hnodup := nodup_of_tableOf? hv htable
    have hkeys : ((entries.map fun e => (e.1, textOf e.2)).map (·.1)).Nodup := by
      rwa [List.map_map]
    -- The values are strings, so taking their texts and making strings of these loses nothing.
    refine ⟨SortedMap.ofList (entries.map fun e => (e.1, textOf e.2)), entries, htable, fun key => ?_⟩
    rw [SortedMap.get?_ofList hkeys, lookup_map_snd]
    cases hkey : entries.lookup key with
    | none => rfl
    | some v =>
      obtain ⟨text, rfl⟩ := hstrings key v hkey
      rfl

/-- There is a setting if nothing is given for it or what is given can be read. -/
theorem exists_isSetting_iff {β : Type} {Reads : Value → β → Prop} {default : β}
    {HasType : Value → Prop} {v? : Option Value}
    (h : ∀ v, v? = some v → ((∃ b, Reads v b) ↔ HasType v)) :
    (∃ b, IsSetting Reads default b v?) ↔ ∀ v, v? = some v → HasType v := by
  cases v? with
  -- If nothing is given the setting is the default, and there is nothing to have a type.
  | none => exact iff_of_true ⟨default, rfl⟩ fun v hv => by cases hv
  | some v =>
    refine (h v rfl).trans ⟨?_, fun htype => htype v rfl⟩
    rintro htype _ ⟨⟩
    exact htype

end Types

end Schema

open Schema

/-! ## Settings that are described -/

section Described

variable {given : List (String × Value)}

/-- Survey settings are described exactly if each of the three values is of its type. -/
theorem SurveySettings.exists_isGiven_iff
    (h : ∀ {key v}, given.lookup key = some v → v.DistinctKeys) :
    (∃ s : SurveySettings, s.IsGiven given) ↔
      (∀ v, given.lookup "exclude" = some v → IsStringArray v) ∧
      (∀ v, given.lookup "ignore" = some v → IsStringArray v) ∧
      ∀ v, given.lookup "extensions" = some v → IsStringTable v := by
  have hstrings : ∀ key, (∃ texts, IsSetting ReadsStrings [] texts (given.lookup key)) ↔
      ∀ v, given.lookup key = some v → IsStringArray v :=
    fun key => exists_isSetting_iff fun _ _ => exists_readsStrings_iff
  have hmap : (∃ map, IsSetting ReadsMap .empty map (given.lookup "extensions")) ↔
      ∀ v, given.lookup "extensions" = some v → IsStringTable v :=
    exists_isSetting_iff fun _ hv => exists_readsMap_iff (h hv)
  rw [← hstrings, ← hstrings, ← hmap]
  constructor
  · rintro ⟨s, hs⟩
    exact ⟨⟨_, hs.exclude⟩, ⟨_, hs.ignore⟩, ⟨_, hs.extensions⟩⟩
  · rintro ⟨⟨exclude, hexclude⟩, ⟨ignore, hignore⟩, ⟨extensions, hextensions⟩⟩
    exact ⟨⟨exclude, ignore, extensions⟩, hexclude, hignore, hextensions⟩

/-- Paths of tools are described exactly if all values are strings. -/
theorem ToolPaths.exists_isGiven_iff {v? : Option Value} (h : Gives toolKeys v? given) :
    (∃ t : ToolPaths, t.IsGiven given) ↔ HaveStrings given := by
  have hpath : ∀ key default, (∃ path, IsSetting ReadsPath default path (given.lookup key)) ↔
      ∀ v, given.lookup key = some v → IsString v :=
    fun key default => exists_isSetting_iff fun _ _ => exists_readsPath_iff
  constructor
  -- Only the four keys can be given, so it is enough to look at each.
  · rintro ⟨t, ht⟩ key v hkey
    have hmem : key ∈ toolKeys := h.mem_keys hkey
    simp only [toolKeys, List.mem_cons, List.not_mem_nil, or_false] at hmem
    rcases hmem with rfl | rfl | rfl | rfl
    · exact (hpath _ _).1 ⟨_, ht.cscope⟩ v hkey
    · exact (hpath _ _).1 ⟨_, ht.gtags⟩ v hkey
    · exact (hpath _ _).1 ⟨_, ht.htags⟩ v hkey
    · exact (hpath _ _).1 ⟨_, ht.doxygen⟩ v hkey
  · intro hstrings
    obtain ⟨cscope, hcscope⟩ := (hpath _ (.ofString "cscope")).2 (hstrings "cscope")
    obtain ⟨gtags, hgtags⟩ := (hpath _ (.ofString "gtags")).2 (hstrings "gtags")
    obtain ⟨htags, hhtags⟩ := (hpath _ (.ofString "htags")).2 (hstrings "htags")
    obtain ⟨doxygen, hdoxygen⟩ := (hpath _ (.ofString "doxygen")).2 (hstrings "doxygen")
    exact ⟨⟨cscope, gtags, htags, doxygen⟩, hcscope, hgtags, hhtags, hdoxygen⟩

/-- A document describes settings exactly if it conforms to the schema. -/
theorem Config.exists_isDescribedBy_iff {entries : List (String × Value)}
    (h : (Value.table entries).DistinctKeys) :
    (∃ config : Config, config.IsDescribedBy entries) ↔ Conforms entries := by
  have hsurvey : ∀ {given}, Gives surveyKeys (entries.lookup "what") given →
      ∀ {key v}, given.lookup key = some v → v.DistinctKeys :=
    fun hgives => hgives.distinctKeys fun _ => distinctKeys_of_lookup h
  -- The two groups have nothing in common, so each is described by itself.
  constructor
  · rintro ⟨config, hkeys, ⟨given, hgiven, hwhat⟩, ⟨given', hgiven', htools⟩⟩
    exact ⟨hkeys, ⟨given, hgiven, (SurveySettings.exists_isGiven_iff (hsurvey hgiven)).1 ⟨_, hwhat⟩⟩,
      ⟨given', hgiven', (ToolPaths.exists_isGiven_iff hgiven').1 ⟨_, htools⟩⟩⟩
  · rintro ⟨hkeys, ⟨given, hgiven, hwhat⟩, ⟨given', hgiven', htools⟩⟩
    obtain ⟨s, hs⟩ := (SurveySettings.exists_isGiven_iff (hsurvey hgiven)).2 hwhat
    obtain ⟨t, ht⟩ := (ToolPaths.exists_isGiven_iff hgiven').2 htools
    exact ⟨⟨s, t⟩, hkeys, ⟨given, hgiven, hs⟩, ⟨given', hgiven', ht⟩⟩

end Described

/-! ## Settings that are spelled out -/

/-- The settings of a survey as values. -/
def SurveySettings.spelledOut (s : SurveySettings) : List (String × Value) :=
  [("exclude", .array (s.exclude.map .string)), ("ignore", .array (s.ignore.map .string)),
    ("extensions", .table (s.extensions.entries.map fun e => (e.1, .string e.2)))]

/-- The programs of the indexing tools as values. -/
def ToolPaths.spelledOut (t : ToolPaths) : List (String × Value) :=
  [("cscope", .string t.cscope.display), ("gtags", .string t.gtags.display),
    ("htags", .string t.htags.display), ("doxygen", .string t.doxygen.display)]

/-- The paths of the programs are text, as the text of a document must be. -/
structure ToolPaths.AreTexts (t : ToolPaths) : Prop where
  cscope : Utf8.isText t.cscope.bytes = true
  gtags : Utf8.isText t.gtags.bytes = true
  htags : Utf8.isText t.htags.bytes = true
  doxygen : Utf8.isText t.doxygen.bytes = true

/-- A setting is written if it is chosen, and is not mentioned otherwise. -/
def Schema.IsWritten {β : Type} (Reads : Value → β → Prop) (b : β) (isChosen : Bool) :
    Option Value → Prop
  | none => isChosen = false
  | some v => isChosen = true ∧ Reads v b

/-- The settings of a survey under chosen keys are written. -/
structure SurveySettings.IsSpelledOutBy (s : SurveySettings) (chosen : String → Bool)
    (given : List (String × Value)) : Prop where
  exclude : IsWritten ReadsStrings s.exclude (chosen "exclude") (given.lookup "exclude")
  ignore : IsWritten ReadsStrings s.ignore (chosen "ignore") (given.lookup "ignore")
  extensions : IsWritten ReadsMap s.extensions (chosen "extensions") (given.lookup "extensions")

/-- The programs under chosen keys are written. -/
structure ToolPaths.IsSpelledOutBy (t : ToolPaths) (chosen : String → Bool)
    (given : List (String × Value)) : Prop where
  cscope : IsWritten ReadsPath t.cscope (chosen "cscope") (given.lookup "cscope")
  gtags : IsWritten ReadsPath t.gtags (chosen "gtags") (given.lookup "gtags")
  htags : IsWritten ReadsPath t.htags (chosen "htags") (given.lookup "htags")
  doxygen : IsWritten ReadsPath t.doxygen (chosen "doxygen") (given.lookup "doxygen")

namespace Config

/-- The settings are the default ones but for chosen keys. -/
structure IsDefaultUnless (config : Config) (chosen : String → Bool) : Prop where
  exclude : chosen "exclude" = false → config.survey.exclude = []
  ignore : chosen "ignore" = false → config.survey.ignore = []
  extensions : chosen "extensions" = false → config.survey.extensions = .empty
  cscope : chosen "cscope" = false → config.tools.cscope = .ofString "cscope"
  gtags : chosen "gtags" = false → config.tools.gtags = .ofString "gtags"
  htags : chosen "htags" = false → config.tools.htags = .ofString "htags"
  doxygen : chosen "doxygen" = false → config.tools.doxygen = .ofString "doxygen"

/-- A document spells out the settings of chosen keys and no others, in whatever order and form. -/
structure IsSpelledOutBy (config : Config) (chosen : String → Bool)
    (entries : List (String × Value)) : Prop where
  keys : ∀ e ∈ entries, e.1 ∈ ["what", "tools"]
  survey : ∃ given, Gives surveyKeys (entries.lookup "what") given ∧
    config.survey.IsSpelledOutBy chosen given
  tools : ∃ given, Gives toolKeys (entries.lookup "tools") given ∧
    config.tools.IsSpelledOutBy chosen given

/-- A document with a table for each group. -/
def spelledOut (config : Config) (chosen : String → Bool) : List (String × Value) :=
  [("what", .table (config.survey.spelledOut.filter (chosen ·.1))),
    ("tools", .table (config.tools.spelledOut.filter (chosen ·.1)))]

section SpelledOut

variable {config : Config} {chosen : String → Bool} {entries : List (String × Value)}

/-- Choosing some keys of a table leaves their values. -/
theorem lookup_filter (chosen : String → Bool) (given : List (String × Value)) (key : String) :
    (given.filter (chosen ·.1)).lookup key = if chosen key then given.lookup key else none := by
  induction given with
  | nil => simp
  | cons e rest ih =>
    obtain ⟨k, v⟩ := e
    rw [List.filter_cons, SortedMap.lookup_cons_ite]
    -- Leaving out an entry can only matter to a search for its key, which is not chosen then.
    by_cases hk : chosen k = true
    · rw [if_pos hk, SortedMap.lookup_cons_ite, ih]
      by_cases hkey : key = k
      · rw [if_pos hkey, hkey, if_pos hk, if_pos rfl]
      · rw [if_neg hkey, if_neg hkey]
    · rw [if_neg hk, ih]
      by_cases hkey : key = k
      · rw [hkey, if_neg hk, if_neg hk]
      · rw [if_neg hkey]

/-- A map is read back from the table of its entries. -/
theorem readsMap_entries (map : SortedMap String) :
    ReadsMap (.table (map.entries.map fun e => (e.1, .string e.2))) map :=
  ⟨_, rfl, lookup_map_snd Value.string map.entries⟩

/-- A path that is text is read back from the text. -/
theorem readsPath_display {path : Path} (h : Utf8.isText path.bytes = true) :
    ReadsPath (.string path.display) path :=
  ⟨_, rfl, (Path.ofString_display h).symm⟩

/-- A setting is written exactly if it is chosen. -/
theorem isWritten_of_chosen {β : Type} {Reads : Value → β → Prop} {b : β} {v : Value}
    {isChosen : Bool} (h : Reads v b) :
    IsWritten Reads b isChosen (if isChosen then some v else none) := by
  cases isChosen with
  | true => exact ⟨rfl, h⟩
  | false => rfl

/-- The chosen entries spell out the chosen survey settings. -/
theorem isSpelledOutBy_filter_survey (s : SurveySettings) (chosen : String → Bool) :
    s.IsSpelledOutBy chosen (s.spelledOut.filter (chosen ·.1)) := by
  constructor
  all_goals rw [lookup_filter]
  · exact isWritten_of_chosen rfl
  · exact isWritten_of_chosen rfl
  · exact isWritten_of_chosen (readsMap_entries _)

/-- The chosen entries spell out the chosen paths, which have to be text. -/
theorem isSpelledOutBy_filter_tools {t : ToolPaths} (h : t.AreTexts) (chosen : String → Bool) :
    t.IsSpelledOutBy chosen (t.spelledOut.filter (chosen ·.1)) := by
  constructor
  all_goals rw [lookup_filter]
  · exact isWritten_of_chosen (readsPath_display h.cscope)
  · exact isWritten_of_chosen (readsPath_display h.gtags)
  · exact isWritten_of_chosen (readsPath_display h.htags)
  · exact isWritten_of_chosen (readsPath_display h.doxygen)

/-- For every choice of settings there is a table that spells them out. -/
theorem isSpelledOutBy_spelledOut (htexts : config.tools.AreTexts) (chosen : String → Bool) :
    config.IsSpelledOutBy chosen (config.spelledOut chosen) := by
  have hkeys : ∀ (given : List (String × Value)), ∀ e ∈ given.filter (chosen ·.1),
      e.1 ∈ given.map (·.1) :=
    fun _ _ he => List.mem_map_of_mem (List.mem_filter.1 he).1
  exact ⟨by simp [spelledOut],
    ⟨_, .table (hkeys _), isSpelledOutBy_filter_survey config.survey chosen⟩,
    ⟨_, .table (hkeys _), isSpelledOutBy_filter_tools htexts chosen⟩⟩

/-- A setting that is written is read back, and one that is not mentioned is the default anyway. -/
theorem isSetting_of_isWritten {β : Type} {Reads : Value → β → Prop} {default b : β}
    {isChosen : Bool} {v? : Option Value} (h : IsWritten Reads b isChosen v?)
    (hdefault : isChosen = false → b = default) : IsSetting Reads default b v? := by
  cases v? with
  | none => exact hdefault h
  | some v => exact h.2

/-- A document that spells out all that differs from the default settings describes the settings. -/
theorem isDescribedBy_of_isSpelledOutBy (hdefault : config.IsDefaultUnless chosen)
    (h : config.IsSpelledOutBy chosen entries) : config.IsDescribedBy entries := by
  obtain ⟨hkeys, ⟨given, hgiven, hwhat⟩, ⟨given', hgiven', htools⟩⟩ := h
  refine ⟨hkeys, ⟨given, hgiven, ?_⟩, ⟨given', hgiven', ?_⟩⟩
  · exact ⟨isSetting_of_isWritten hwhat.exclude hdefault.exclude,
      isSetting_of_isWritten hwhat.ignore hdefault.ignore,
      isSetting_of_isWritten hwhat.extensions hdefault.extensions⟩
  · exact ⟨isSetting_of_isWritten htools.cscope hdefault.cscope,
      isSetting_of_isWritten htools.gtags hdefault.gtags,
      isSetting_of_isWritten htools.htags hdefault.htags,
      isSetting_of_isWritten htools.doxygen hdefault.doxygen⟩

end SpelledOut

/-! ## Loading -/

section Load

variable {fs : FileSystem} {path : Path} {text : String} {entries : List (String × Value)}

/-- What is loaded from a file that can be read as a document. -/
theorem loadFile_of_parse? (htext : fs.readText path = .ok text)
    (hentries : Toml.Document.parse? text = some entries) :
    loadFile fs path = (ofTable entries).mapError (.invalid path) := by
  rw [loadFile, htext]
  dsimp only
  rw [Config.parse, hentries]
  dsimp only
  cases ofTable entries <;> rfl

/-- Settings are loaded from a document exactly if it describes them. -/
theorem loadFile_eq_ok_iff (htext : fs.readText path = .ok text)
    (hentries : Toml.Document.parse? text = some entries) {config : Config} :
    loadFile fs path = .ok config ↔ config.IsDescribedBy entries := by
  rw [loadFile_of_parse? htext hentries,
    ← ofTable_eq_ok_iff (Toml.Document.distinctKeys_of_parse? hentries)]
  cases ofTable entries <;> simp [Except.mapError]

/-- A file that is written as a document gives settings exactly if it conforms to the schema, and
then those that it describes: every given setting has its value and every other one its default. If
it does not conform, the error names the file. Settings that are spelled out in a document are given
back, as long as those that are not spelled out are the default ones, and every choice of settings
can be spelled out if the paths of the tools are text. -/
theorem loadFile_schema (htext : fs.readText path = .ok text)
    (hentries : Toml.Document.parse? text = some entries) :
    ((∃ config, loadFile fs path = .ok config) ↔ Conforms entries) ∧
    (∀ config, loadFile fs path = .ok config ↔ config.IsDescribedBy entries) ∧
    (¬Conforms entries → ∃ fault, loadFile fs path = .error (.invalid path fault)) ∧
    ∀ config chosen,
      (config.IsDefaultUnless chosen → config.IsSpelledOutBy chosen entries →
        loadFile fs path = .ok config) ∧
      (config.tools.AreTexts → config.IsSpelledOutBy chosen (config.spelledOut chosen)) := by
  have hdistinct := Toml.Document.distinctKeys_of_parse? hentries
  have hok : ∀ config, loadFile fs path = .ok config ↔ config.IsDescribedBy entries :=
    fun _ => loadFile_eq_ok_iff htext hentries
  have hconforms : (∃ config, loadFile fs path = .ok config) ↔ Conforms entries :=
    (exists_congr hok).trans (exists_isDescribedBy_iff hdistinct)
  refine ⟨hconforms, hok, fun hnot => ?_, fun config chosen =>
    ⟨fun hdefault hspelled => ?_, fun htexts => isSpelledOutBy_spelledOut htexts chosen⟩⟩
  -- Whatever the fault is, it is reported with the path.
  · rw [loadFile_of_parse? htext hentries] at hconforms ⊢
    cases htable : ofTable entries with
    | error fault => exact ⟨fault, rfl⟩
    | ok config =>
      rw [htable] at hconforms
      exact absurd (hconforms.1 ⟨config, rfl⟩) hnot
  · exact (hok config).2 (isDescribedBy_of_isSpelledOutBy hdefault hspelled)

end Load

/-- Three documents: the first two settings of a survey in an array, the same with a list that is
not all strings, and a date. -/
def documentFiles : FileSystem :=
  let file (text : String) : Node := .file (.data (Utf8.ofString text)) .all
  ⟨.directory
    [(Utf8.ofString "listed", file "what = [[], ['b', 'a']]"),
      (Utf8.ofString "mixed", file "what = [[], ['b', []]]"),
      (Utf8.ofString "dated", file "what.extensions = 2024-01-01")] .all, []⟩

theorem readText_documentFiles_listed :
    documentFiles.readText (.ofString "/listed") = .ok "what = [[], ['b', 'a']]" := by cbv

theorem readText_documentFiles_mixed :
    documentFiles.readText (.ofString "/mixed") = .ok "what = [[], ['b', []]]" := by cbv

theorem readText_documentFiles_dated :
    documentFiles.readText (.ofString "/dated") = .ok "what.extensions = 2024-01-01" := by cbv

theorem parse?_listed : Toml.Document.parse? "what = [[], ['b', 'a']]" =
    some [("what", .array [.array [], .array [.string "b", .string "a"]])] := by cbv

theorem parse?_mixed : Toml.Document.parse? "what = [[], ['b', []]]" =
    some [("what", .array [.array [], .array [.string "b", .array []]])] := by cbv

theorem parse?_dated : Toml.Document.parse? "what.extensions = 2024-01-01" =
    some [("what", .table [("extensions", .moment "2024-01-01")])] := by cbv

/-- The lists are read in the order of the document, and a list that is not all strings is refused.
-/
theorem loadFile_schema_documents :
    loadFile documentFiles (.ofString "/listed") = .ok ⟨⟨[], ["b", "a"], .empty⟩, .default⟩ ∧
      ∃ fault, loadFile documentFiles (.ofString "/mixed") =
        .error (.invalid (.ofString "/mixed") fault) := by
  obtain ⟨-, -, -, hlisted⟩ := loadFile_schema readText_documentFiles_listed parse?_listed
  obtain ⟨-, -, hmixed, -⟩ := loadFile_schema readText_documentFiles_mixed parse?_mixed
  let chosen : String → Bool := fun key => key = "exclude" || key = "ignore"
  refine ⟨(hlisted _ chosen).1 ?default ?spelled, hmixed ?mixed⟩
  case default =>
    exact ⟨fun _ => rfl, by simp [chosen], fun _ => rfl, fun _ => rfl, fun _ => rfl, fun _ => rfl,
      fun _ => rfl⟩
  case spelled =>
    exact ⟨by simp, ⟨_, .array _, ⟨rfl, rfl⟩, ⟨rfl, rfl⟩, rfl⟩, ⟨_, .nothing, rfl, rfl, rfl, rfl⟩⟩
  case mixed =>
    rintro ⟨-, ⟨given, hgives, -, hignore, -⟩, -⟩
    cases hgives with
    | array items =>
      obtain ⟨items, hitems, hstrings⟩ := hignore _ rfl
      cases hitems
      obtain ⟨text, htext⟩ := hstrings (.array []) (by simp)
      cases htext

/-- A date is taken for a table of strings, though it is none. -/
theorem loadFile_schema_moment :
    ¬ ∀ (fs : FileSystem) (path : Path) (text : String) (entries : List (String × Value)),
      fs.readText path = .ok text → Toml.Document.parse? text = some entries →
      (∃ config, loadFile fs path = .ok config) →
      ∀ given v, Gives surveyKeys (entries.lookup "what") given →
        given.lookup "extensions" = some v → ∃ table, v = .table table := by
  intro h
  have hconforms : Conforms [("what", .table [("extensions", .moment "2024-01-01")])] := by
    refine ⟨by simp, ⟨_, .table (by decide), ?exclude, ?ignore, ?extensions⟩, ⟨_, .nothing, ?tools⟩⟩
    case exclude => rintro v ⟨⟩
    case ignore => rintro v ⟨⟩
    case tools => rintro key v ⟨⟩
    case extensions =>
      rintro v ⟨⟩
      refine ⟨_, rfl, fun key v hkey => ?_⟩
      rw [SortedMap.lookup_cons_ite] at hkey
      split at hkey
      · cases hkey
        exact ⟨_, rfl⟩
      · cases hkey
  obtain ⟨config, hconfig⟩ :=
    (exists_isDescribedBy_iff (Toml.Document.distinctKeys_of_parse? parse?_dated)).2 hconforms
  have hload := (loadFile_eq_ok_iff readText_documentFiles_dated parse?_dated).2 hconfig
  have hkeys : ∀ e ∈ [("extensions", Value.moment "2024-01-01")], e.1 ∈ surveyKeys := by decide
  obtain ⟨table, htable⟩ := h _ _ _ _ readText_documentFiles_dated parse?_dated ⟨config, hload⟩ _ _
    (.table hkeys) rfl
  cases htable

end Config

end SourceSurvey
