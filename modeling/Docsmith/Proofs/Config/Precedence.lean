import Docsmith.Proofs.Config.Reload
import Docsmith.Proofs.Toml.Plain
/-!
# Configurations — which layer counts

Layers override each other setting by setting (`at?_foldl_overlay`): the project's
file counts before the user's own and that before the defaults. The settings are the
leaves of the tables that a configuration has, and nothing else is read
(`read?_congr`). A file that is named counts for itself as much as in either of the
two places.
-/


namespace Docsmith.Config

open Json (EveryObject)
open Ordered (HasDistinctKeys)

variable {t : FileTree} {here : Place} {environment : List (String × String)}
variable {fields others : List (String × Json)} {below above v w : Json} {path : List String}

/-! ## Values over each other -/

/-- What one layer sets, with what another one sets laid over it. -/
def topped : Option Json → Option Json → Option Json
  | some old, some value => some (overlay old value)
  | none, some value => some value
  | below, none => below

@[simp] theorem topped_none_left (above : Option Json) : topped none above = above := by
  cases above <;> rfl

@[simp] theorem topped_none_right (below : Option Json) : topped below none = below := by
  cases below <;> rfl

/-- Whatever a value has on the way along a path is a table. -/
def HasTablesOn : List String → Json → Prop
  | [], _ => True
  | name :: path, .object fields => ∀ v ∈ Ordered.find? name fields, HasTablesOn path v
  | _ :: _, _ => False

instance decidableHasTablesOn : ∀ path v, Decidable (HasTablesOn path v)
  | [], _ => .isTrue trivial
  | name :: path, .object fields =>
    have := decidableHasTablesOn path
    inferInstanceAs (Decidable (∀ v ∈ Ordered.find? name fields, HasTablesOn path v))
  | _ :: _, .null | _ :: _, .bool _ | _ :: _, .number _ | _ :: _, .string _ | _ :: _, .array _ =>
    .isFalse id

theorem hasTablesOn_cons {name : String} (h : HasTablesOn (name :: path) v) :
    ∃ fields, v = .object fields ∧ ∀ v ∈ Ordered.find? name fields, HasTablesOn path v := by
  cases v with
  | object fields => exact ⟨fields, rfl, h⟩
  | _ => exact h.elim

theorem find?_overlay (h : HasDistinctKeys others) (name : String) :
    Ordered.find? name (overlayFields fields others) =
      topped (Ordered.find? name fields) (Ordered.find? name others) := by
  rw [find?_overlayFields h]
  cases Ordered.find? name others with
  | none => rw [topped_none_right, Option.map_none, Option.none_or]
  | some value =>
    rw [Option.map_some, Option.some_or, laidOver]
    cases Ordered.find? name fields <;> rfl

theorem everyObject_of_find? {p : List (String × Json) → Prop} {name : String}
    (hdistinct : HasDistinctKeys fields) (h : EveryObject p (.object fields))
    (hv : v ∈ Ordered.find? name fields) : EveryObject p v :=
  Json.everyField_iff.1 h.2 _ ((Ordered.find?_eq_some hdistinct).1 hv)

theorem everyObject_at? (htables : HasTablesOn path v) (h : EveryObject HasDistinctKeys v)
    (hw : w ∈ v.at? path) : EveryObject HasDistinctKeys w := by
  induction path generalizing v with
  | nil =>
    cases hw
    exact h
  | cons name path ih =>
    obtain ⟨fields, rfl, htables⟩ := hasTablesOn_cons htables
    obtain ⟨inner, hinner, hw⟩ := Option.bind_eq_some_iff.1 hw
    exact ih (htables inner hinner) (everyObject_of_find? h.1 h hinner) hw

/-- **One value over another has at each path what the upper one has there, over
what the lower one has**, by induction on the path. -/
theorem at?_overlay (hbelow : HasTablesOn path below) (habove : HasTablesOn path above)
    (hdistinct : EveryObject HasDistinctKeys above) :
    (overlay below above).at? path = topped (below.at? path) (above.at? path) := by
  induction path generalizing below above with
  | nil => rfl
  | cons name path ih =>
    obtain ⟨fields, rfl, hbelow⟩ := hasTablesOn_cons hbelow
    obtain ⟨others, rfl, habove⟩ := hasTablesOn_cons habove
    rw [overlay, Json.at?, Json.at?, Json.at?, find?_overlay hdistinct.1]
    cases hold : Ordered.find? name fields with
    | none => simp only [topped_none_left, Option.bind_none]
    | some old => cases hvalue : Ordered.find? name others with
      | none => simp only [topped_none_right, Option.bind_none]
      | some value =>
        exact ih (hbelow old hold) (habove value hvalue)
          (everyObject_of_find? hdistinct.1 hdistinct hvalue)

theorem HasTablesOn.overlay (hbelow : HasTablesOn path below) (habove : HasTablesOn path above)
    (hdistinct : EveryObject HasDistinctKeys above) :
    HasTablesOn path (overlay below above) := by
  induction path generalizing below above with
  | nil => trivial
  | cons name path ih =>
    obtain ⟨fields, rfl, hbelow⟩ := hasTablesOn_cons hbelow
    obtain ⟨others, rfl, habove⟩ := hasTablesOn_cons habove
    intro v hv
    rw [find?_overlay hdistinct.1] at hv
    cases hold : Ordered.find? name fields with
    | none =>
      rw [hold, topped_none_left] at hv
      exact habove v hv
    | some old => cases hvalue : Ordered.find? name others with
      | none =>
        rw [hold, hvalue, topped_none_right] at hv
        exact hbelow v (hold.trans hv)
      | some inner =>
        rw [hold, hvalue] at hv
        cases hv
        exact ih (hbelow old hold) (habove inner hvalue)
          (everyObject_of_find? hdistinct.1 hdistinct hvalue)

/-- The same for any number of layers, by induction on them. -/
theorem at?_foldl_overlay {files : List Json} (hbelow : HasTablesOn path below)
    (hfiles : ∀ file ∈ files, HasTablesOn path file ∧ EveryObject HasDistinctKeys file) :
    (files.foldl overlay below).at? path =
        (files.map (Json.at? path)).foldl topped (below.at? path) ∧
      HasTablesOn path (files.foldl overlay below) := by
  induction files generalizing below with
  | nil => exact ⟨rfl, hbelow⟩
  | cons file files ih =>
    obtain ⟨⟨htables, hdistinct⟩, hfiles⟩ := List.forall_mem_cons.1 hfiles
    rw [List.map_cons, List.foldl_cons, List.foldl_cons, ← at?_overlay hbelow htables hdistinct]
    exact ih (hbelow.overlay htables hdistinct) hfiles

/-! ## The settings of a configuration -/

/-- The paths of the settings in a naming. -/
def namingLeaves : List (List String) :=
  [["prefix"], ["suffix"], ["extension"]]

/-- The paths of the output settings. -/
def outputLeaves : List (List String) :=
  (outputFields.filter (· ∉ ["mermaid_naming", "plantuml_naming"])).map ([·]) ++
    namingLeaves.map ("mermaid_naming" :: ·) ++ namingLeaves.map ("plantuml_naming" :: ·)

/-- The paths of a configuration's settings: below its tables, no tables
themselves. -/
def leaves : List (List String) :=
  ["llm_models"] :: outputLeaves.map ("output" :: ·) ++ sourcesFields.map (["analysis", ·])

/-- A value that has tables where a configuration has. -/
def HasTables (v : Json) : Prop :=
  ∀ path ∈ leaves, HasTablesOn path v

instance (v : Json) : Decidable (HasTables v) :=
  inferInstanceAs (Decidable (∀ path ∈ leaves, HasTablesOn path v))

/-- What is set where nothing is. -/
def defaults : Json :=
  value true {}

/-- A value with fields. -/
def isTable : Json → Bool
  | .object _ => true
  | _ => false

theorem hasTables_defaults : HasTables defaults := by
  decide +kernel

theorem not_isTable_defaults : ∀ path ∈ leaves, ∀ v ∈ defaults.at? path, isTable v = false := by
  decide +kernel

/-! ## The value that counts -/

/-- Which of a setting's values counts, of the default, the user's own and the
project's. -/
structure Prevails (unset own project settled : Option Json) : Prop where
  of_project : ∀ v ∈ project, (isTable v → ∀ w ∈ own, isTable w = false) → settled = some v
  of_tables : ∀ above below, project = some (.object above) → own = some (.object below) →
    ∃ merged, settled = some (.object merged) ∧
      ∀ key, Ordered.find? key merged = topped (Ordered.find? key below) (Ordered.find? key above)
  of_own : project = none → ∀ w ∈ own, settled = some w
  of_unset : project = none → own = none → settled = unset

theorem overlay_of_not_isTable (h : isTable above → isTable below = false) :
    overlay below above = above := by
  cases above with
  | object fields => cases below with
    | object base => exact absurd (h rfl) (Bool.noConfusion ·)
    | _ => rfl
  | _ => rfl

theorem topped_of_not_isTable {unset : Option Json} (hunset : ∀ v ∈ unset, isTable v = false)
    (v : Json) : topped unset (some v) = some v := by
  cases unset with
  | none => rfl
  | some old => exact congrArg some (overlay_of_not_isTable fun _ => hunset old rfl)

theorem prevails_topped {unset own project : Option Json} (hunset : ∀ v ∈ unset, isTable v = false)
    (hproject : ∀ v ∈ project, EveryObject HasDistinctKeys v) :
    Prevails unset own project (topped (topped unset own) project) where
  of_project := by
    rintro v rfl h
    cases own with
    | none => rw [topped_none_right, topped_of_not_isTable hunset]
    | some w =>
      rw [topped_of_not_isTable hunset]
      exact congrArg some (overlay_of_not_isTable fun hv => h hv w rfl)
  of_tables := by
    rintro above below rfl rfl
    rw [topped_of_not_isTable hunset, topped, overlay]
    exact ⟨_, rfl, find?_overlay (hproject _ rfl).1⟩
  of_own := by
    rintro rfl w rfl
    rw [topped_none_right, topped_of_not_isTable hunset]
  of_unset := by
    rintro rfl rfl
    rw [topped_none_right, topped_none_right]

/-! ## Files -/

/-- What a file of settings sets, if there is one: a document with tables where a
configuration has tables. -/
inductive Holds (t : FileTree) (here : Place) : Option String → Option Json → Prop
  | unnamed : Holds t here none none
  | missing {path : String} (h : t.read? here path = none) : Holds t here (some path) none
  | document {path text : String} {v : Json} (hread : t.readText? here path = some text)
      (hparse : Toml.parse? text = some v) (htables : HasTables v) :
      Holds t here (some path) (some v)

variable {file own project : Option String} {set : Option Json}

theorem Holds.hasTables (h : Holds t here file set) : ∀ v ∈ set, HasTables v := by
  rintro v rfl
  cases h with
  | document _ _ htables => exact htables

theorem Holds.isPlain (h : Holds t here file set) :
    ∀ v ∈ set, Toml.IsPlain v ∧ ∃ fields, v = .object fields := by
  rintro v rfl
  cases h with
  | document _ hparse _ => exact Toml.isPlain_of_parse? hparse

theorem Holds.layers (h : Holds t here file set) :
    ((file.map (layersAt t here false)).getD []).map Layer.settings? = set.toList.map some := by
  cases h with
  | unnamed => rfl
  | missing h => rw [Option.map_some, Option.getD_some, layersAt, h]; rfl
  | @document _ text _ hread hparse htables =>
    obtain ⟨content, hcontent, htext⟩ := Option.bind_eq_some_iff.1 hread
    obtain ⟨-, fields, rfl⟩ := Toml.isPlain_of_parse? hparse
    have hsettings : Layer.settings? ⟨false, some text⟩ = some (.object fields) := by
      rw [Layer.settings?, Option.bind_some, if_neg Bool.false_ne_true, hparse]
    rw [Option.map_some, Option.getD_some, layersAt, hcontent]
    simp only [htext, List.map_cons, List.map_nil, hsettings, Option.toList_some]

theorem isTable_of_settings? {l : Layer} (h : l.settings? = some v) : isTable v = true := by
  rw [Layer.settings?] at h
  split at h
  · cases h
    rfl
  · cases h

theorem isTable_foldl_overlay {files : List Json} (hbelow : isTable below = true)
    (h : ∀ file ∈ files, isTable file = true) : isTable (files.foldl overlay below) = true := by
  induction files generalizing below with
  | nil => exact hbelow
  | cons file files ih =>
    obtain ⟨hfile, hfiles⟩ := List.forall_mem_cons.1 h
    refine ih ?_ hfiles
    cases file with
    | object fields => cases below <;> rfl
    | _ => cases hfile

theorem overlay_empty (h : isTable v = true) : overlay v (.object []) = v := by
  cases v with
  | object fields => rfl
  | _ => cases h

/-- What comes of reading a layer. -/
def Layer.read (l : Layer) : Except Failure Json :=
  match l.settings? with
  | some settings => .ok settings
  | none => .error (unreadable "a configuration file cannot be parsed")

theorem stack_mapM (layers : List Layer) (environment : List (String × String)) :
    stack layers environment = (layers.mapM Layer.read).map fun files =>
      overlay (files.foldl overlay defaults) (ofEnvironment environment) :=
  rfl

/-- The settings of layers that can be read, one over the other. -/
theorem stack_eq (hunset : OverridesNothing environment) {layers : List Layer}
    {files : List Json} (hsettings : layers.map Layer.settings? = files.map some) :
    stack layers environment = .ok (files.foldl overlay defaults) := by
  have htables : ∀ file ∈ files, isTable file = true := by
    intro file hfile
    have hmem : some file ∈ layers.map Layer.settings? := hsettings ▸ List.mem_map_of_mem hfile
    obtain ⟨l, -, hl⟩ := List.mem_map.1 hmem
    exact isTable_of_settings? hl
  have hread : layers.mapM Layer.read = .ok files := by
    clear htables -- it would stand in the way of the induction
    induction layers generalizing files with
    | nil =>
      obtain rfl := List.map_eq_nil_iff.1 hsettings.symm
      rfl
    | cons l layers ih =>
      obtain ⟨file, files, rfl, hfile, hfiles⟩ := List.map_eq_cons_iff.1 hsettings.symm
      rw [List.mapM_cons, Layer.read, ← hfile, ih hfiles.symm]
      rfl
  have hdefaults : isTable defaults = true := rfl
  have hsettled := overlay_empty (isTable_foldl_overlay hdefaults htables)
  rw [stack_mapM, hread, ofEnvironment_eq hunset]
  exact congrArg Except.ok hsettled

theorem ofLayers_eq_ok_iff {layers : List Layer} {settings : Json} {c : Config}
    (h : stack layers environment = .ok settings) :
    ofLayers layers environment = .ok c ↔
      read? .layered settings = some c ∧ c.check = .ok () := by
  cases hread : read? .layered settings with
  | none =>
    rw [ofLayers_of_unread h hread]
    constructor
    · intro hloaded
      cases hloaded
    · rintro ⟨hsettings, -⟩
      cases hsettings
  | some d =>
    rw [ofLayers_of_read h hread]
    cases hcheck : d.check with
    | error e =>
      constructor
      · intro hloaded
        cases hloaded
      · rintro ⟨hsettings, haccepted⟩
        obtain rfl := Option.some.inj hsettings
        rw [hcheck] at haccepted
        cases haccepted
    | ok =>
      constructor
      · intro hloaded
        obtain rfl := Except.ok.inj hloaded
        exact ⟨rfl, hcheck⟩
      · rintro ⟨hsettings, -⟩
        exact congrArg Except.ok (Option.some.inj hsettings)

theorem hasTablesOn_of_holds {g p : Option Json} (hown : Holds t here own g)
    (hproject : Holds t here project p) (hpath : path ∈ leaves) :
    ∀ file ∈ g.toList ++ p.toList,
      HasTablesOn path file ∧ EveryObject HasDistinctKeys file := by
  refine List.forall_mem_append.2 ⟨fun file hfile => ?_, fun file hfile => ?_⟩
  · have hg := Option.mem_toList.1 hfile
    exact ⟨hown.hasTables file hg path hpath, (hown.isPlain file hg).1.2⟩
  · have hp := Option.mem_toList.1 hfile
    exact ⟨hproject.hasTables file hp path hpath, (hproject.isPlain file hp).1.2⟩

/-- A setting's value that counts is what was set last. -/
theorem prevails_of_holds {g p : Option Json} (hown : Holds t here own g)
    (hproject : Holds t here project p) (hpath : path ∈ leaves) :
    Prevails (defaults.at? path) (g.bind (Json.at? path)) (p.bind (Json.at? path))
      (((g.toList ++ p.toList).foldl overlay defaults).at? path) := by
  have hsettled := (at?_foldl_overlay (hasTables_defaults path hpath)
    (hasTablesOn_of_holds hown hproject hpath)).1
  have htopped : ((g.toList ++ p.toList).map (Json.at? path)).foldl topped (defaults.at? path) =
      topped (topped (defaults.at? path) (g.bind (Json.at? path))) (p.bind (Json.at? path)) := by
    cases g <;> cases p <;> simp
  rw [hsettled, htopped]
  refine prevails_topped (not_isTable_defaults path hpath) fun v hv => ?_
  obtain ⟨file, hfile, hv⟩ := Option.bind_eq_some_iff.1 hv
  exact everyObject_at? (hproject.hasTables file hfile path hpath)
    (hproject.isPlain file hfile).1.2 hv

/-! ## What is read -/

/-- Two values have tables on some paths and the same at their ends. -/
def Agree (paths : List (List String)) (v w : Json) : Prop :=
  ∀ path ∈ paths, HasTablesOn path v ∧ HasTablesOn path w ∧ v.at? path = w.at? path

/-- The table at a name, empty where there is none. -/
def tableAt (name : String) (v : Json) : Json :=
  (v.get? name).getD (.object [])

theorem at?_tableAt {name key : String} (h : HasTablesOn (name :: key :: path) v) :
    HasTablesOn (key :: path) (tableAt name v) ∧
      (tableAt name v).at? (key :: path) = v.at? (name :: key :: path) := by
  obtain ⟨fields, rfl, h⟩ := hasTablesOn_cons h
  rw [tableAt, Json.get?, Json.at?]
  cases hinner : Ordered.find? name fields with
  | none => exact ⟨fun v hv => (nomatch hv), rfl⟩
  | some inner => exact ⟨h inner hinner, rfl⟩

theorem Agree.tableAt {paths : List (List String)} (name : String) (hpaths : [] ∉ paths)
    (h : Agree (paths.map (name :: ·)) v w) :
    Agree paths (tableAt name v) (tableAt name w) := by
  intro path hpath
  obtain ⟨hv, hw, heq⟩ := h _ (List.mem_map_of_mem hpath)
  cases path with
  | nil => exact absurd hpath hpaths
  | cons key path =>
    obtain ⟨hvTables, hvAt⟩ := at?_tableAt hv
    obtain ⟨hwTables, hwAt⟩ := at?_tableAt hw
    exact ⟨hvTables, hwTables, (hvAt.trans heq).trans hwAt.symm⟩

theorem Agree.find? (names : List String) (hnames : names ≠ [])
    (h : Agree (names.map ([·])) v w) :
    ∃ fields others, v = .object fields ∧ w = .object others ∧
      ∀ name ∈ names, Ordered.find? name fields = Ordered.find? name others := by
  obtain ⟨first, hfirst⟩ := List.exists_mem_of_ne_nil names hnames
  obtain ⟨hv, hw, -⟩ := h _ (List.mem_map_of_mem hfirst)
  obtain ⟨fields, rfl, -⟩ := hasTablesOn_cons hv
  obtain ⟨others, rfl, -⟩ := hasTablesOn_cons hw
  refine ⟨fields, others, rfl, rfl, fun name hname => ?_⟩
  have hend (fields : List (String × Json)) :
      (Json.object fields).at? [name] = Ordered.find? name fields := by
    rw [Json.at?]
    cases Ordered.find? name fields <;> rfl
  rw [← hend, ← hend]
  exact (h _ (List.mem_map_of_mem hname)).2.2

theorem Agree.mono {paths more : List (List String)} (h : Agree more v w)
    (hsub : ∀ path ∈ paths, path ∈ more) : Agree paths v w :=
  fun path hpath => h path (hsub path hpath)

/-- An absent table is as good as an empty one. -/
theorem field?_tableAt {α : Type} {name : String} {read : Json → Option α} {unset : α}
    (h : read (.object []) = some unset) :
    field? (Ordered.find? · fields) name read (some unset) =
      read (tableAt name (.object fields)) := by
  rw [field?, tableAt, Json.get?]
  cases Ordered.find? name fields with
  | none => exact h.symm
  | some value => rfl

theorem naming?_congr (h : Agree namingLeaves v w) :
    naming? .layered v = naming? .layered w := by
  obtain ⟨fields, others, rfl, rfl, hfind⟩ :=
    Agree.find? ["prefix", "suffix", "extension"] (by decide) h
  simp only [List.forall_mem_cons] at hfind
  simp only [naming?, finder?, some_bind, field?, hfind]

theorem output?_congr (h : Agree outputLeaves v w) :
    output? .layered v = output? .layered w := by
  have hplain : Agree ((outputFields.filter (· ∉ ["mermaid_naming", "plantuml_naming"])).map ([·]))
      v w := h.mono fun path hpath => List.mem_append_left _ (List.mem_append_left _ hpath)
  have hmermaid := naming?_congr <| Agree.tableAt "mermaid_naming" (by decide) <|
    h.mono fun path hpath => List.mem_append_left _ (List.mem_append_right _ hpath)
  have hplantUml := naming?_congr <| Agree.tableAt "plantuml_naming" (by decide) <|
    h.mono fun path hpath => List.mem_append_right _ hpath
  have hnaming : naming? .layered (.object []) = some {} := rfl
  -- the other settings stand in the table itself
  obtain ⟨fields, others, rfl, rfl, hfind⟩ := hplain.find? _ (by decide)
  have hnames : outputFields.filter (· ∉ ["mermaid_naming", "plantuml_naming"]) =
      ["output_directory", "generate_unit_tests", "generate_mermaid", "generate_plantuml",
        "mermaid_output_path", "plantuml_output_path", "target_coverage", "stage_timeout_secs",
        "concurrency", "collision_policy"] := by
    decide
  rw [hnames] at hfind
  simp only [List.forall_mem_cons] at hfind
  simp only [output?, finder?, some_bind, field?_tableAt hnaming, hmermaid, hplantUml]
  simp only [field?, hfind]

theorem sources?_congr (h : Agree (sourcesFields.map ([·])) v w) :
    sources? .layered v = sources? .layered w := by
  obtain ⟨fields, others, rfl, rfl, hfind⟩ := h.find? _ (by decide)
  simp only [sourcesFields, List.forall_mem_cons] at hfind
  simp only [sources?, finder?, some_bind, field?, hfind]

/-- **Nothing but the settings is read.** -/
theorem read?_congr (h : Agree leaves v w) : read? .layered v = read? .layered w := by
  have hmodels : Agree (["llm_models"].map ([·])) v w := h.mono (by decide)
  have houtput := output?_congr <| Agree.tableAt "output" (by decide) <|
    h.mono fun path hpath => List.mem_append_left _ (List.mem_cons_of_mem _ hpath)
  have hsources : Agree ((sourcesFields.map ([·])).map ("analysis" :: ·)) v w :=
    h.mono fun path hpath => List.mem_append_right _ hpath
  have hsources := sources?_congr (hsources.tableAt "analysis" (by decide))
  have hnoOutput : output? .layered (.object []) = some {} := rfl
  have hnoSources : sources? .layered (.object []) = some {} := rfl
  obtain ⟨fields, others, rfl, rfl, hfind⟩ := hmodels.find? _ (by decide)
  simp only [read?, finder?, some_bind, field?_tableAt hnoOutput, field?_tableAt hnoSources,
    houtput, hsources]
  simp only [field?, hfind _ (List.mem_singleton_self _)]

/-! ## Files in either place -/

theorem read?_of_not_isPresent {name : String} (h : t.isPresent here name = false) :
    t.read? here name = none := by
  rw [FileTree.isPresent] at h
  unfold FileTree.read?
  split
  · next heq =>
    rw [heq] at h
    cases h
  · rfl

theorem layersAt_of_not_isPresent {name : String} (h : t.isPresent here name = false)
    (isJson : Bool) : layersAt t here isJson name = [] := by
  rw [layersAt, read?_of_not_isPresent h]

/-- **The project's value of a setting counts, before the user's own and the
default**, and what is made of the values is what is loaded. A file gives the same in
the user's place, in the project's and when it is named. -/
theorem loadFiles_layered (t : FileTree) (here : Place) (environment : List (String × String)) :
    (∀ own project g p, OverridesNothing environment → Holds t here own g →
      Holds t here (some project) p →
      ∃ settings, stack (fileLayers t here own project) environment = .ok settings ∧
        HasTables settings ∧
        (∀ path ∈ leaves, Prevails (defaults.at? path) (g.bind (Json.at? path))
          (p.bind (Json.at? path)) (settings.at? path)) ∧
        ∀ c, loadFiles t here environment own project = .ok c ↔
          read? .layered settings = some c ∧ c.check = .ok ()) ∧
    ∀ file missing, t.isPresent here file = true → isJsonPath file = false →
      t.isPresent here missing = false →
      loadFiles t here environment none file = loadFile t here environment file ∧
        loadFiles t here environment (some file) missing = loadFile t here environment file := by
  constructor
  · intro own project g p hunset hown hproject
    have hlayers : (fileLayers t here own project).map Layer.settings? =
        (g.toList ++ p.toList).map some := by
      -- the project's file is a layer like the user's own
      rw [fileLayers, List.map_append, List.map_append, hown.layers, ← hproject.layers]
      rfl
    have hstack := stack_eq hunset hlayers
    refine ⟨_, hstack, fun path hpath => ?_,
      fun path hpath => prevails_of_holds hown hproject hpath, fun c => ofLayers_eq_ok_iff hstack⟩
    exact (at?_foldl_overlay (hasTables_defaults path hpath)
      (hasTablesOn_of_holds hown hproject hpath)).2
  · intro file missing hfile hjson hmissing
    rw [loadFile, if_pos hfile, hjson, loadFiles, loadFiles, fileLayers, fileLayers,
      layersAt_of_not_isPresent hmissing]
    exact ⟨rfl, congrArg (ofLayers · environment) (List.append_nil _)⟩

/-- A file of a user's own and one of a project. -/
def twoFiles : FileTree :=
  ⟨[(["global.toml"], .file
      "[output]
generate_plantuml = true
target_coverage = 0.5
".toUTF8),
    (["project.toml"], .file "[output]
target_coverage = 0.9
".toUTF8)]⟩

theorem twoFiles_layered :
    (∃ settings,
      stack (fileLayers twoFiles [] (some "global.toml") "project.toml") [("HOME", "/home")] =
        .ok settings ∧
      (settings.at? ["output", "generate_plantuml"]).bind bool? = some true ∧
      (settings.at? ["output", "target_coverage"]).bind (float? .double) =
        some (Decimal.Format.double.ofDecimal false 9 (-1))) ∧
    loadFiles twoFiles [] [("HOME", "/home")] none "project.toml" =
      loadFile twoFiles [] [("HOME", "/home")] "project.toml" := by
  obtain ⟨hlayered, hplaces⟩ := loadFiles_layered twoFiles [] [("HOME", "/home")]
  have hunset : OverridesNothing [("HOME", "/home")] :=
    List.forall_mem_singleton.2 (by decide +kernel)
  obtain ⟨g, hg, hgTables, hplantUml⟩ : ∃ g ∈ ((twoFiles.readText? [] "global.toml").bind
      Toml.parse?), HasTables g ∧
        (g.at? ["output", "generate_plantuml"]).bind bool? = some true := by
    decide +kernel
  obtain ⟨p, hp, hpTables, hcoverage, hplantUmlUnset⟩ :
      ∃ p ∈ ((twoFiles.readText? [] "project.toml").bind Toml.parse?), HasTables p ∧
        (p.at? ["output", "target_coverage"]).bind (float? .double) =
          some (Decimal.Format.double.ofDecimal false 9 (-1)) ∧
        p.at? ["output", "generate_plantuml"] = none := by
    decide +kernel
  obtain ⟨globalText, hglobal, hg⟩ := Option.bind_eq_some_iff.1 hg
  obtain ⟨projectText, hproject, hp⟩ := Option.bind_eq_some_iff.1 hp
  obtain ⟨settings, hstack, -, hprevails, -⟩ := hlayered (some "global.toml") "project.toml" g p
    hunset (.document hglobal hg hgTables) (.document hproject hp hpTables)
  obtain ⟨v, hv, hvTrue⟩ := Option.bind_eq_some_iff.1 hplantUml
  obtain ⟨w, hw, hwNumber⟩ := Option.bind_eq_some_iff.1 hcoverage
  have hown := (hprevails ["output", "generate_plantuml"] (by decide)).of_own hplantUmlUnset v hv
  have hnoTable : isTable w = false := by
    cases w with
    | object fields => cases hwNumber
    | _ => rfl
  have hcounts := (hprevails ["output", "target_coverage"] (by decide)).of_project w hw
    fun htable => absurd htable (Bool.eq_false_iff.1 hnoTable)
  refine ⟨⟨settings, hstack, ?_, ?_⟩, ?_⟩
  · rw [hown, Option.bind_some, hvTrue]
  · rw [hcounts, Option.bind_some, hwNumber]
  · exact (hplaces "project.toml" "missing.toml" (by decide +kernel) (by decide +kernel)
      (by decide +kernel)).1

end Docsmith.Config
