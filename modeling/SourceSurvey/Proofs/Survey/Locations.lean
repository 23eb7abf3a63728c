import SourceSurvey.Proofs.PathText
import SourceSurvey.Proofs.Report.Layout
import SourceSurvey.Proofs.Survey.Spelling

/-!
# Location keys stand for directories

A file is recorded under a text, the directory that it is shown in. The files of the root and those
further down are shown in differently written directories, for the slashes and dots at the end of
the root are left out only where nothing follows them. Where the root and all names are texts, a key
read as a path has the components of the root and then the names leading to the directory
(`Survey.components_directoryOf`), so it tells which directory it is.

The keys of a category and its directories thus stand one for one (`Survey.keysDirectories_scan`).
-/

set_option autoImplicit false

namespace SourceSurvey

/-! ## Keys and directories -/

namespace SortedMap.Tabulates

variable {α β : Type} [DecidableEq α] [DecidableEq β] {map : SortedMap Count} {files : Finset α}
variable {key : α → String}

/-- A map whose keys tell apart what `f` tells apart has as many entries as `f` has values. -/
theorem length_entries (h : map.Tabulates files key) {f : α → β}
    (hsame : ∀ e ∈ files, ∀ e' ∈ files, key e = key e' ↔ f e = f e') :
    map.entries.length = (files.image f).card := by
  have hkeys : map.entries.length = (files.image key).card := by
    rw [← h.toFinset_keys, List.toFinset_card_of_nodup map.nodup_keys, keys, List.length_map]
  -- Keys and values are the two sides of these pairs, and each side determines the other.
  have hfirst : Set.InjOn (Prod.fst : String × β → String)
      (files.image fun e => (key e, f e) : Finset (String × β)) := by
    intro x hx y hy hxy
    obtain ⟨e, he, rfl⟩ := Finset.mem_image.1 hx
    obtain ⟨e', he', rfl⟩ := Finset.mem_image.1 hy
    exact Prod.ext hxy ((hsame e he e' he').1 hxy)
  have hsecond : Set.InjOn (Prod.snd : String × β → β)
      (files.image fun e => (key e, f e) : Finset (String × β)) := by
    intro x hx y hy hxy
    obtain ⟨e, he, rfl⟩ := Finset.mem_image.1 hx
    obtain ⟨e', he', rfl⟩ := Finset.mem_image.1 hy
    exact Prod.ext ((hsame e he e' he').2 hxy) hxy
  have hcard := (Finset.card_image_of_injOn hfirst).trans (Finset.card_image_of_injOn hsecond).symm
  rw [Finset.image_image, Finset.image_image] at hcard
  exact hkeys.trans hcard

end SortedMap.Tabulates

namespace Survey

section Locations

variable (fs : FileSystem) (options : SurveyOptions) (classifier : Classifier) (root : Path)

/-- The files of a category that are shown in a directory. -/
def placedFiles (c : String) : Finset (List Name × Kind) :=
  {e ∈ openedFiles fs options classifier root | categoryOf classifier root e = c}

/-- The directory that an entry lies in, given by the names leading there. -/
def directoryPlace (e : List Name × Kind) : List Name := e.1.dropLast

/-- The root and the names of everything below it are texts. -/
structure HasTextNames : Prop where
  isText_root : Utf8.isText root.bytes = true
  isText_name : ∀ e ∈ fs.entriesBelow root, ∀ name ∈ e.1, Utf8.isText name = true

/-- The location keys of a category stand for the directories with files of it. -/
structure KeysDirectories (report : Report) (c : String) : Prop where
  /-- Files are recorded under one key exactly if they lie in one directory. -/
  key_eq_iff : ∀ e ∈ placedFiles fs options classifier root c,
    ∀ e' ∈ placedFiles fs options classifier root c,
      directoryOf root e = directoryOf root e' ↔ directoryPlace e = directoryPlace e'
  /-- Under the key of a file all files of its directory are counted, and no others. -/
  placeOf?_eq : ∀ e ∈ placedFiles fs options classifier root c,
    report.placeOf? c (directoryOf root e) =
      some (Count.ofNat {e' ∈ placedFiles fs options classifier root c |
        directoryPlace e' = directoryPlace e}.card)
  /-- Every key is that of a file. -/
  exists_of_key : ∀ d n, report.placeOf? c d = some n →
    ∃ e ∈ placedFiles fs options classifier root c, directoryOf root e = d
  /-- No key is empty. -/
  key_ne_empty : ∀ d n, report.placeOf? c d = some n → d ≠ ""
  /-- A key is a path with the components of the root and then the names leading to the
  directory. -/
  components_key : ∀ e ∈ placedFiles fs options classifier root c,
    (Path.ofString (directoryOf root e)).components =
      root.components ++ (directoryPlace e).map .name
  /-- There are as many rows of directories as there are directories. -/
  length_rows : (report.locationRows c).length =
    ((placedFiles fs options classifier root c).image directoryPlace).card

variable {fs options classifier root} {report : Report} {c : String} {e e' : List Name × Kind}

/-- A file that is shown in a directory is an entry of that directory. -/
theorem exists_concat_of_mem_placedFiles (hfs : fs.root.WellFormed)
    (he : e ∈ placedFiles fs options classifier root c) :
    e ∈ fs.entriesBelow root ∧ ∃ name, e.1 = directoryPlace e ++ [name] ∧
      ∀ x ∈ directoryPlace e ++ [name], ProperName x := by
  obtain ⟨hbelow, -⟩ :=
    mem_of_mem_countedFiles (openedFiles_subset (Finset.mem_filter.1 he).1)
  obtain ⟨hne, hproper⟩ := properNames_of_mem hfs hbelow
  have hsplit := List.dropLast_concat_getLast hne
  refine ⟨hbelow, e.1.getLast hne, hsplit.symm, ?_⟩
  rw [directoryPlace, hsplit]
  exact hproper

section Keys

variable (hfs : fs.root.WellFormed) (htexts : HasTextNames fs root) (hroot : root.bytes ≠ [])

include hfs hroot

/-- Files of one directory are shown in one directory. -/
theorem directoryOf_eq (he : e ∈ placedFiles fs options classifier root c)
    (he' : e' ∈ placedFiles fs options classifier root c)
    (hplace : directoryPlace e = directoryPlace e') : directoryOf root e = directoryOf root e' := by
  obtain ⟨-, name, hname, hproper⟩ := exists_concat_of_mem_placedFiles hfs he
  obtain ⟨-, name', hname', hproper'⟩ := exists_concat_of_mem_placedFiles hfs he'
  rw [directoryOf, directoryOf, hname, hname',
    Path.parentDisplay_descend_eq_iff hroot hproper hproper', hplace]

include htexts

theorem components_directoryOf (he : e ∈ placedFiles fs options classifier root c) :
    (Path.ofString (directoryOf root e)).components =
      root.components ++ (directoryPlace e).map .name := by
  obtain ⟨hbelow, name, hname, hproper⟩ := exists_concat_of_mem_placedFiles hfs he
  have htext : ∀ x ∈ directoryPlace e, Utf8.isText x = true :=
    fun x hx => htexts.isText_name e hbelow x (List.dropLast_subset _ hx)
  rw [directoryOf, hname]
  exact Path.components_parentDisplay_descend_concat htexts.isText_root hroot hproper htext

/-- Files are recorded under one key exactly if they lie in one directory. -/
theorem directoryOf_eq_iff (he : e ∈ placedFiles fs options classifier root c)
    (he' : e' ∈ placedFiles fs options classifier root c) :
    directoryOf root e = directoryOf root e' ↔ directoryPlace e = directoryPlace e' := by
  constructor
  · intro hkey
    -- A key tells the directory by its components.
    have hcomponents := components_directoryOf hfs htexts hroot he
    rw [hkey, components_directoryOf hfs htexts hroot he', List.append_cancel_left_eq] at hcomponents
    exact (List.map_injective_iff.2 (fun _ _ hname => Path.Component.name.inj hname) hcomponents).symm
  · exact directoryOf_eq hfs hroot he he'

theorem directoryOf_ne_empty (he : e ∈ placedFiles fs options classifier root c) :
    directoryOf root e ≠ "" := by
  intro hempty
  have hcomponents := components_directoryOf hfs htexts hroot he
  rw [hempty] at hcomponents
  -- The root has a component, and the empty path has none.
  have hfirst := Path.length_firstComponents hroot
  have hlength := congrArg List.length hcomponents
  have hnone : (Path.ofString "").components = [] := rfl
  rw [hnone, Path.components, List.length_nil, List.length_append, List.length_append] at hlength
  omega

end Keys

section Report

variable (hfs : fs.root.WellFormed) (h : scan fs options classifier root = .ok report)
variable (hc : c ≠ unknown)

include hfs h hc

/-- The files of a category are counted under their keys. -/
theorem placeOf?_eq_placedFiles (d : String) :
    report.placeOf? c d =
      if {e ∈ placedFiles fs options classifier root c | directoryOf root e = d} = ∅ then none
      else some (Count.ofNat
        {e ∈ placedFiles fs options classifier root c | directoryOf root e = d}.card) := by
  rw [placeOf?_scan hfs h hc, placedFiles, Finset.filter_filter]

theorem exists_of_placeOf? {d : String} {n : Count} (hkey : report.placeOf? c d = some n) :
    ∃ e ∈ placedFiles fs options classifier root c, directoryOf root e = d := by
  rw [placeOf?_eq_placedFiles hfs h hc] at hkey
  split at hkey
  · cases hkey
  · rename_i hne
    obtain ⟨e, he⟩ := Finset.nonempty_iff_ne_empty.2 hne
    exact ⟨e, Finset.mem_filter.1 he⟩

/-- If keys stand for directories, there are as many rows of directories as directories. -/
theorem length_locationRows
    (hkeys : ∀ e ∈ placedFiles fs options classifier root c,
      ∀ e' ∈ placedFiles fs options classifier root c,
        directoryOf root e = directoryOf root e' ↔ directoryPlace e = directoryPlace e') :
    (report.locationRows c).length =
      ((placedFiles fs options classifier root c).image directoryPlace).card := by
  rw [Report.locationRows_eq, Report.placeRows, List.length_map, Report.directoriesOf]
  cases hdirectories : report.locations.get? c with
  -- Without the category no file of it is in a directory.
  | none =>
    have hnone : placedFiles fs options classifier root c = ∅ := by
      rw [← Finset.not_nonempty_iff_eq_empty]
      intro hsome
      have hkey := (isSome_locations_scan hfs h c).2 ⟨hc, hsome⟩
      rw [hdirectories] at hkey
      cases hkey
    rw [hnone]
    rfl
  | some directories =>
    exact (tabulates_directories hfs h hdirectories).length_entries hkeys

end Report

/-- The location keys of a category stand one for one for the directories with files of it. Let
the root, however it is written, and the names of everything below it be texts. Then of the files of
a category other than `unknown` that can be opened two are recorded under one key exactly if they
lie in one directory; no key is empty; read as a path, a key has the components of the root followed
by the names leading to the directory; and there are as many rows of directories as there are
directories that hold such files. -/
theorem keysDirectories_scan {fs : FileSystem} {options : SurveyOptions} {classifier : Classifier}
    {root : Path} {report : Report} {c : String} (hfs : fs.root.WellFormed)
    (htexts : HasTextNames fs root) (h : scan fs options classifier root = .ok report)
    (hc : c ≠ unknown) : KeysDirectories fs options classifier root report c := by
  have hroot := bytes_ne_nil_of_canList (scan_isOk_iff.1 ⟨report, h⟩)
  have hkeys : ∀ e ∈ placedFiles fs options classifier root c,
      ∀ e' ∈ placedFiles fs options classifier root c,
        directoryOf root e = directoryOf root e' ↔ directoryPlace e = directoryPlace e' :=
    fun e he e' he' => directoryOf_eq_iff hfs htexts hroot he he'
  refine
    { key_eq_iff := hkeys
      placeOf?_eq := ?counted
      exists_of_key := fun d n hkey => exists_of_placeOf? hfs h hc hkey
      key_ne_empty := ?nonempty
      components_key := fun e he => components_directoryOf hfs htexts hroot he
      length_rows := length_locationRows hfs h hc hkeys }
  -- The files under the key of a file are those of its directory.
  case counted =>
    intro e he
    have hsame : {e' ∈ placedFiles fs options classifier root c |
          directoryOf root e' = directoryOf root e} =
        {e' ∈ placedFiles fs options classifier root c | directoryPlace e' = directoryPlace e} :=
      Finset.filter_congr fun e' he' => hkeys e' he' e he
    rw [placeOf?_eq_placedFiles hfs h hc, hsame, if_neg]
    exact Finset.ne_empty_of_mem (Finset.mem_filter.2 ⟨he, rfl⟩)
  case nonempty =>
    rintro d n hkey
    obtain ⟨e, he, rfl⟩ := exists_of_placeOf? hfs h hc hkey
    exact directoryOf_ne_empty hfs htexts hroot he

/-- A tree with three files in two directories. -/
def shelvedFiles : FileSystem :=
  let file : Node := .file (.data []) .all
  let inner : Node := .directory [(Utf8.ofString "b.c", file), (Utf8.ofString "c.c", file)] .all
  let lib : Node := .directory [(Utf8.ofString "a.c", file), (Utf8.ofString "x", inner)] .all
  ⟨.directory [(Utf8.ofString "lib", lib)] .all, []⟩

theorem wellFormed_shelvedFiles : shelvedFiles.root.WellFormed := by decide

theorem hasTextNames_shelvedFiles : HasTextNames shelvedFiles (.ofString "./lib//.") where
  isText_root := Utf8.isText_ofString _
  isText_name := by
    have hentries : shelvedFiles.entriesBelow (.ofString "./lib//.") =
        [([Utf8.ofString "a.c"], .file), ([Utf8.ofString "x"], .directory),
          ([Utf8.ofString "x", Utf8.ofString "b.c"], .file),
          ([Utf8.ofString "x", Utf8.ofString "c.c"], .file)] := by cbv
    rw [hentries]
    simp

theorem placedFiles_shelvedFiles :
    placedFiles shelvedFiles ⟨[], none, .empty⟩ .builtin (.ofString "./lib//.") "C" =
      {([Utf8.ofString "a.c"], .file), ([Utf8.ofString "x", Utf8.ofString "b.c"], .file),
        ([Utf8.ofString "x", Utf8.ofString "c.c"], .file)} := by cbv

/-- The slashes and the dot at the end of the root are in one of the two keys only. -/
theorem keysDirectories_scan_shelved :
    shelvedFiles.root.WellFormed ∧ HasTextNames shelvedFiles (.ofString "./lib//.") ∧
      "C" ≠ unknown ∧
      ∃ report, scan shelvedFiles ⟨[], none, .empty⟩ .builtin (.ofString "./lib//.") = .ok report ∧
        report.placeOf? "C" "./lib" = some (.ofNat 1) ∧
        report.placeOf? "C" "./lib//./x" = some (.ofNat 2) ∧
        (report.locationRows "C").length = 2 := by
  obtain ⟨report, hreport⟩ : ∃ report,
      scan shelvedFiles ⟨[], none, .empty⟩ .builtin (.ofString "./lib//.") = .ok report :=
    scan_isOk_iff.2 (by cbv)
  have hkeys := keysDirectories_scan wellFormed_shelvedFiles hasTextNames_shelvedFiles hreport
    (c := "C") (by decide)
  have hlib : directoryOf (.ofString "./lib//.") ([Utf8.ofString "a.c"], .file) = "./lib" := by cbv
  have hx : directoryOf (.ofString "./lib//.") ([Utf8.ofString "x", Utf8.ofString "b.c"], .file) =
      "./lib//./x" := by cbv
  have houter := hkeys.placeOf?_eq ([Utf8.ofString "a.c"], .file)
    (by simp [placedFiles_shelvedFiles])
  have hinner := hkeys.placeOf?_eq ([Utf8.ofString "x", Utf8.ofString "b.c"], .file)
    (by simp [placedFiles_shelvedFiles])
  have hrows := hkeys.length_rows
  rw [hlib, placedFiles_shelvedFiles] at houter
  rw [hx, placedFiles_shelvedFiles] at hinner
  rw [placedFiles_shelvedFiles] at hrows
  exact ⟨wellFormed_shelvedFiles, hasTextNames_shelvedFiles, by decide, report, hreport, houter,
    hinner, hrows⟩

end Locations

end Survey

end SourceSurvey
