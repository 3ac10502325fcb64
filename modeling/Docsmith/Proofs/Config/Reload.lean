import Docsmith.Config.Load
import Docsmith.Config.Render
import Docsmith.Failure
import Docsmith.Proofs.Config.Merged
import Docsmith.Proofs.Json.RoundTrip
import Docsmith.Proofs.Toml.Documents
/-!
# Configurations — a rendered one is loaded again

A configuration that was rendered as JSON or TOML and is loaded again is what it
was, but for the keys, which are not rendered. What stands between the two is how
deep a reader goes: free fields nest as deep as they like.
-/


namespace Docsmith.Config

open Json (Number reread numbers)

variable {c : Config} {t : FileTree} {here : Place} {environment : List (String × String)}
variable {showUnset : Bool}

/-! ## One file and no variables -/

/-- No variable overrides a setting. -/
def OverridesNothing (environment : List (String × String)) : Prop :=
  ∀ entry ∈ environment, levels? entry.1 = none

theorem ofEnvironment_eq (h : OverridesNothing environment) :
    ofEnvironment environment = .object [] := by
  have hfold : ∀ settings, environment.foldl overlayVariable settings = settings := by
    induction environment with
    | nil => exact fun settings => rfl
    | cons entry environment ih =>
      obtain ⟨hentry, hothers⟩ := List.forall_mem_cons.1 h
      intro settings
      rw [List.foldl_cons, overlayVariable, hentry]
      exact ih hothers settings
  exact hfold _

theorem ofLayers_of_none {l : Layer} (h : l.settings? = none) :
    ofLayers [l] environment =
      .error (unreadable "a configuration file cannot be parsed") := by
  rw [ofLayers, stack, List.mapM_cons, h]
  rfl

/-- Settings that can be read make a configuration if it is acceptable. -/
theorem ofLayers_of_read {layers : List Layer} {settings : Json}
    (h : stack layers environment = .ok settings) (hread : read? .layered settings = some c) :
    ofLayers layers environment = c.check.map fun _ => c := by
  simp only [ofLayers, h, bind, Except.bind, hread]

theorem ofLayers_of_unread {layers : List Layer} {settings : Json}
    (h : stack layers environment = .ok settings) (hread : read? .layered settings = none) :
    ofLayers layers environment = .error (unreadable "a setting has the wrong type") := by
  simp only [ofLayers, h, bind, Except.bind, hread]

theorem ofLayers_of_some (hunset : OverridesNothing environment) {l : Layer}
    {fields : List (String × Json)} (hsettings : l.settings? = some (.object fields))
    (hread : read? .layered (overlay (({} : Config).value true) (.object fields)) = some c) :
    ofLayers [l] environment = c.check.map fun _ => c := by
  have hstack : stack [l] environment =
      .ok (overlay (({} : Config).value true) (.object fields)) := by
    rw [stack, List.mapM_cons, hsettings, ofEnvironment_eq hunset]
    simp only [value, overlay, overlayFields]
    rfl
  exact ofLayers_of_read hstack hread

theorem checkBackends_withoutKeys (seen : List String) (backends : List Backend) :
    checkBackends seen (backends.map fun b => { b with apiKey := none }) =
      checkBackends seen backends := by
  induction backends generalizing seen with
  | nil => rfl
  | cons b backends ih =>
    rw [List.map_cons, checkBackends, checkBackends, ih]
    rfl

/-- Keys are not looked at. -/
theorem check_withoutKeys (c : Config) : c.withoutKeys.check = c.check := by
  rw [check, check, withoutKeys, checkBackends_withoutKeys]

/-- A file with a text is one layer. -/
theorem loadFile_of_readText {path text : String} (h : t.readText? here path = some text) :
    loadFile t here environment path =
      ofLayers [⟨isJsonPath path, some text⟩] environment := by
  obtain ⟨content, hread, htext⟩ := Option.bind_eq_some_iff.1 h
  have hpresent : t.isPresent here path = true := by
    rw [FileTree.isPresent]
    unfold FileTree.read? at hread
    split at hread
    · next heq => rw [heq]
    · cases hread
  rw [loadFile, if_pos hpresent, layersAt, hread]
  simp only [htext]

/-! ## What stands in a configuration -/

theorem numbers_textList (items : List String) : numbers (textList items) = [] := by
  rw [textList, numbers, Json.itemNumbers_eq, List.flatMap_map]
  exact List.flatMap_eq_nil_iff.2 fun _ _ => rfl

theorem numbers_namingValue (n : Diagram.Naming) : numbers (namingValue showUnset n) = [] := by
  cases hafter : n.after <;> cases hextension : n.extension <;> cases showUnset <;>
    simp [namingValue, optionalField, numbers, Json.fieldNumbers, hafter, hextension]

theorem numbers_output (o : Output) :
    numbers (o.value showUnset) =
      [.float o.targetCoverage, .whole o.stageTimeoutSecs, .whole o.concurrency] := by
  cases hmermaid : o.mermaidPath <;> cases hplantUml : o.plantUmlPath <;>
    simp [Output.value, optionalField, numbers, Json.fieldNumbers, numbers_namingValue, Json.ofNat,
      hmermaid, hplantUml]

theorem numbers_sources (s : Sources) :
    numbers (s.value showUnset) =
      (s.maxThreads.toList.map fun n => .whole n) ++ [.whole s.maxFileSize] := by
  cases hthreads : s.maxThreads <;> cases showUnset <;>
    simp [Sources.value, optionalField, numbers, Json.fieldNumbers, numbers_textList, Json.ofNat,
      hthreads]

theorem numbers_backend (b : Backend) :
    numbers b.value =
      [.whole b.maxTokens, .single b.temperature, .whole b.timeoutSeconds, .whole b.maxRetries] ++
        numbers (.object b.extra) := by
  simp [Backend.value, numbers, Json.fieldNumbers, Json.ofNat]

theorem numbers_value (c : Config) :
    numbers (c.value showUnset) =
      (c.backends.flatMap fun b => numbers b.value) ++ numbers (c.output.value showUnset) ++
        numbers (c.sources.value showUnset) := by
  rw [value, numbers, Json.fieldNumbers, Json.fieldNumbers, Json.fieldNumbers, Json.fieldNumbers,
    numbers, Json.itemNumbers_eq, List.flatMap_map, List.append_nil, List.append_assoc]

theorem isPlain_textList (items : List String) : Toml.IsPlain (textList items) :=
  Toml.isPlain_array.2 (List.forall_mem_map.2 fun _ _ => Toml.isPlain_string _)

theorem isPlain_naming (n : Diagram.Naming) : Toml.IsPlain (namingValue false n) := by
  cases hafter : n.after <;> cases hextension : n.extension <;>
    simp [namingValue, optionalField, Toml.isPlain_object, Ordered.HasDistinctKeys, hafter,
      hextension]

theorem isPlain_output (o : Output) : Toml.IsPlain (o.value false) := by
  cases hmermaid : o.mermaidPath <;> cases hplantUml : o.plantUmlPath <;>
    simp [Output.value, optionalField, Toml.isPlain_object, Ordered.HasDistinctKeys,
      isPlain_naming, Json.ofNat, hmermaid, hplantUml]

theorem isPlain_sources (s : Sources) : Toml.IsPlain (s.value false) := by
  cases hthreads : s.maxThreads <;>
    simp [Sources.value, optionalField, Toml.isPlain_object, Ordered.HasDistinctKeys,
      isPlain_textList, Json.ofNat, hthreads]

theorem isPlain_backend {b : Backend} (h : Toml.IsPlain (.object b.extra)) :
    Toml.IsPlain b.value := by
  refine Toml.isPlain_object.2 ⟨by simp [Ordered.HasDistinctKeys], ?_⟩
  simp [Json.ofNat, h]

/-- Only free fields can hold a `null` where unset fields are left out, and no object of
a configuration has a name twice. -/
theorem isPlain_value (htyped : c.IsTyped)
    (hnull : ∀ b ∈ c.backends, Toml.hasNull (.object b.extra) = false) :
    Toml.IsPlain (c.value false) := by
  have hbackends : Toml.IsPlain (.array (c.backends.map (·.value))) :=
    Toml.isPlain_array.2 (List.forall_mem_map.2 fun b hb => isPlain_backend
      ⟨hnull b hb, (htyped.backends b hb).extra.ordered.imp fun _ h => h.hasDistinctKeys⟩)
  simp [value, Toml.isPlain_object, Ordered.HasDistinctKeys, hbackends, isPlain_output,
    isPlain_sources]

/-! ## Numbers of an accepted configuration -/

/-- A whole number has sixty-four bits, and another one is finite. -/
def IsHeld : Number → Prop
  | .whole n => Json.IsWord n
  | .float x => x.isFinite = true
  | .single x => x.isFinite = true

theorem isHeld_ofNat {bits n : Nat} (hbits : bits ≤ 64) (h : n < 2 ^ bits) : IsHeld (.whole n) := by
  have hpow : 2 ^ bits ≤ 2 ^ 64 := Nat.pow_le_pow_right (by decide) hbits
  constructor <;> omega

theorem isHeld_of_isFreeNumber {n : Number} (h : IsFreeNumber n) : IsHeld n := by
  cases n with
  | whole n => exact h
  | float x => exact h
  | single x => exact h.elim

theorem isFinite_of_between {low high : Nat} {x : Decimal.Binary} (h : x.between low high = true) :
    x.isFinite = true := by
  cases x with
  | finite negative m e => rfl
  | _ => cases h

theorem Backend.isFinite_of_check {b : Backend} (h : b.check = .ok ()) :
    b.temperature.isFinite = true := by
  unfold check at h
  split_ifs at h with _ htemperature
  all_goals first
    | exact isFinite_of_between (by simpa using htemperature)
    | cases h

theorem check_of_mem_backends {seen : List String} {backends : List Backend}
    (h : checkBackends seen backends = .ok ()) : ∀ b ∈ backends, b.check = .ok () := by
  induction backends generalizing seen with
  | nil => simp
  | cons b backends ih =>
    rw [checkBackends] at h
    obtain ⟨_, hb, hrest⟩ := bind_eq_ok.1 h
    split_ifs at hrest
    · cases hrest
    · exact List.forall_mem_cons.2 ⟨hb, ih hrest⟩

theorem isFinite_targetCoverage_of_check {o : Output} (h : o.check = .ok ()) :
    o.targetCoverage.isFinite = true := by
  unfold Output.check at h
  split_ifs at h with hcoverage
  all_goals first
    | exact isFinite_of_between (by simpa using hcoverage)
    | cases h

/-- The numbers of an accepted configuration can be written. -/
theorem isHeld_of_mem_numbers (htyped : c.IsTyped) (hcheck : c.check = .ok ()) :
    ∀ n ∈ numbers (c.value showUnset), IsHeld n := by
  rw [check] at hcheck
  obtain ⟨_, hbackends, hrest⟩ := bind_eq_ok.1 hcheck
  obtain ⟨_, houtput, -⟩ := bind_eq_ok.1 hrest
  have hbackend : ∀ b ∈ c.backends, ∀ n ∈ numbers b.value, IsHeld n := by
    intro b hb
    have hb' := htyped.backends b hb
    rw [numbers_backend, List.forall_mem_append]
    refine ⟨?_, fun n hn => isHeld_of_isFreeNumber (hb'.extra.numbers n hn)⟩
    simp only [List.forall_mem_cons, List.not_mem_nil, false_imp_iff, implies_true, and_true]
    exact ⟨isHeld_ofNat (by decide) hb'.maxTokens,
      Backend.isFinite_of_check (check_of_mem_backends hbackends b hb),
      isHeld_ofNat (Nat.le_refl 64) hb'.timeoutSeconds,
      isHeld_ofNat (Nat.le_refl 64) hb'.maxRetries⟩
  rw [numbers_value, numbers_output, numbers_sources, List.forall_mem_append,
    List.forall_mem_append, List.forall_mem_append, List.forall_mem_map, List.forall_mem_singleton]
  refine ⟨⟨?_, ?_⟩, ?_, isHeld_ofNat (Nat.le_refl 64) htyped.maxFileSize⟩
  · intro n hn
    obtain ⟨b, hb, hn⟩ := List.mem_flatMap.1 hn
    exact hbackend b hb n hn
  · simp only [List.forall_mem_cons, List.not_mem_nil, false_imp_iff, implies_true, and_true]
    exact ⟨isFinite_targetCoverage_of_check houtput,
      isHeld_ofNat (Nat.le_refl 64) htyped.stageTimeoutSecs,
      isHeld_ofNat (Nat.le_refl 64) htyped.concurrency⟩
  · exact fun n hn => isHeld_ofNat (Nat.le_refl 64) (htyped.maxThreads n (by simpa using hn))

/-- What is read of the JSON text of a number. -/
def jsonNumber? (n : Number) : Option Number :=
  ((Json.number? n.write).filter fun (_, rest) => rest.isEmpty).map (·.1)

/-- What is read of the TOML text of a number. -/
def tomlNumber? (n : Number) : Option Number :=
  Toml.Number.read? (Toml.numberText n)

/-- The floating-point numbers of a value are read back from their texts: one of
sixty-four bits exactly, and one of thirty-two bits once what was read is rounded. -/
def FloatsReturn (read? : Number → Option Number) (v : Json) : Prop :=
  (∀ x, .float x ∈ numbers v → read? (.float x) = some (.float x)) ∧
    ∀ x, .single x ∈ numbers v → ∃ y, read? (.single x) = some (.float y) ∧ y.roundTo .single = x

/-- The numbers of a value, once they were read from their texts. -/
theorem recovered_of_floatsReturn {read? : Number → Option Number} {v : Json}
    (hwhole : ∀ n, .whole n ∈ numbers v → read? (.whole n) = some (.whole n))
    (hfloats : FloatsReturn read? v) :
    (∀ n ∈ numbers v, read? n = some ((read? n).getD n)) ∧
      Recovered (fun n => (read? n).getD n) v := by
  have hread : ∀ n ∈ numbers v, ∃ m, read? n = some m ∧ Recovers n m := by
    intro n hn
    cases n with
    | whole n => exact ⟨_, hwhole n hn, rfl⟩
    | float x => exact ⟨_, hfloats.1 x hn, rfl⟩
    | single x =>
      obtain ⟨y, hy, hround⟩ := hfloats.2 x hn
      exact ⟨_, hy, y, rfl, hround⟩
  constructor
  · intro n hn
    obtain ⟨m, hm, -⟩ := hread n hn
    rw [hm, Option.getD_some]
  · intro n hn
    obtain ⟨m, hm, hrecovers⟩ := hread n hn
    simpa only [hm, Option.getD_some] using hrecovers

/-! ## Loading what was rendered -/

/-- A layer that holds a written configuration makes that configuration. -/
theorem ofLayers_reread {num : Number → Number} {fits : Prop} [Decidable fits] {l : Layer}
    (htyped : c.IsTyped) (hcheck : c.check = .ok ()) (hunset : OverridesNothing environment)
    (hrecovered : Recovered num (c.value showUnset))
    (hparse : l.content.bind (if l.isJson then Json.parse? else Toml.parse?) =
      if fits then some (reread num (c.value showUnset)) else none) :
    ofLayers [l] environment =
      if fits then .ok c.withoutKeys
      else .error (unreadable "a configuration file cannot be parsed") := by
  by_cases hfits : fits
  · rw [if_pos hfits] at hparse ⊢
    obtain ⟨fields, hfields⟩ : ∃ fields, reread num (c.value showUnset) = .object fields :=
      ⟨_, rfl⟩
    have hread := read?_overlay htyped hrecovered
    rw [hfields] at hparse hread
    have hsettings : l.settings? = some (.object fields) := by rw [Layer.settings?, hparse]
    rw [ofLayers_of_some hunset hsettings hread, check_withoutKeys, hcheck]
    rfl
  · rw [if_neg hfits] at hparse ⊢
    refine ofLayers_of_none ?_
    rw [Layer.settings?, hparse]

/-- What comes of loading a file that has a text, wherever it is. -/
def LoadsAs (environment : List (String × String)) (isJson : Bool) (text : String)
    (outcome : Except Failure Config) : Prop :=
  ∀ (t : FileTree) (here : Place) (path : String), isJsonPath path = isJson →
    t.readText? here path = some text → loadFile t here environment path = outcome

/-- **A configuration that was rendered as JSON is loaded again** exactly if it nests no
deeper than the reader goes. -/
theorem loadsAs_json (htyped : c.IsTyped) (hcheck : c.check = .ok ())
    (hunset : OverridesNothing environment) (hfloats : FloatsReturn jsonNumber? (c.value true)) :
    LoadsAs environment true (c.value true).pretty
      (if Json.nesting (c.value true) ≤ Json.maxDepth then .ok c.withoutKeys
        else .error (unreadable "a configuration file cannot be parsed")) := by
  have hwhole : ∀ n, .whole n ∈ numbers (c.value true) →
      jsonNumber? (.whole n) = some (.whole n) := by
    intro n hn
    have hword : Json.IsWord n := isHeld_of_mem_numbers htyped hcheck _ hn
    rw [jsonNumber?, Json.Number.write, Json.number?_whole hword]
    rfl
  obtain ⟨hread, hrecovered⟩ := recovered_of_floatsReturn hwhole hfloats
  have hnumbers : Json.NumbersRead (fun n => (jsonNumber? n).getD n) (c.value true) := by
    intro n hn
    obtain ⟨⟨m, rest⟩, hnumber, hm⟩ := Option.map_eq_some_iff.1 (hread n hn)
    obtain ⟨hnumber, hrest⟩ := Option.filter_eq_some_iff.1 hnumber
    obtain rfl : rest = [] := List.isEmpty_iff.1 hrest
    exact hnumber.trans (congrArg (fun m => some (m, [])) hm)
  intro t here path hpath htext
  rw [loadFile_of_readText htext]
  refine ofLayers_reread htyped hcheck hunset hrecovered ?_
  rw [hpath, if_pos rfl, Option.bind_some]
  exact Json.parse?_pretty hnumbers

/-- **A configuration that was rendered as TOML is loaded again** exactly if its lines
fit the reader. -/
theorem loadsAs_toml (htyped : c.IsTyped) (hcheck : c.check = .ok ())
    (hunset : OverridesNothing environment) (hfloats : FloatsReturn tomlNumber? (c.value false))
    (hnull : ∀ b ∈ c.backends, Toml.hasNull (.object b.extra) = false)
    (hintegers : ∀ n, .whole n ∈ numbers (c.value false) → Toml.IsInteger n) :
    LoadsAs environment false (String.ofList (Toml.documentText (c.value false)))
      (if Toml.Fits (c.value false) then .ok c.withoutKeys
        else .error (unreadable "a configuration file cannot be parsed")) := by
  have hwhole : ∀ n, .whole n ∈ numbers (c.value false) →
      tomlNumber? (.whole n) = some (.whole n) :=
    fun n hn => Toml.Number.read?_signed (hintegers n hn)
  obtain ⟨hread, hrecovered⟩ := recovered_of_floatsReturn hwhole hfloats
  have hreadable : Toml.IsReadable (fun n => (tomlNumber? n).getD n) (c.value false) := by
    refine ⟨isPlain_value htyped hnull, fun n hn => ⟨?_, hread n hn⟩⟩
    have hheld := isHeld_of_mem_numbers htyped hcheck n hn
    refine Toml.isNumeral_numberText ?_ ?_
    all_goals
      rintro x rfl
      exact hheld
  intro t here path hpath htext
  rw [loadFile_of_readText htext]
  refine ofLayers_reread htyped hcheck hunset hrecovered ?_
  rw [hpath, if_neg Bool.false_ne_true, Option.bind_some]
  exact Toml.parse?_documentText hreadable

/-- **What was rendered is loaded again, without keys**, unless free fields nest deeper
than a reader goes. TOML has no `null` and no whole numbers of more than sixty-three
bits. -/
theorem reload_render (htyped : c.IsTyped) (hcheck : c.check = .ok ())
    (hunset : OverridesNothing environment) :
    (FloatsReturn jsonNumber? (c.value true) →
      ∃ text, c.render .json = .ok text ∧
        LoadsAs environment true text
          (if Json.nesting (c.value true) ≤ Json.maxDepth then .ok c.withoutKeys
            else .error (unreadable "a configuration file cannot be parsed"))) ∧
      (FloatsReturn tomlNumber? (c.value false) →
        (∀ b ∈ c.backends, Toml.hasNull (.object b.extra) = false) →
        (∀ n, .whole n ∈ numbers (c.value false) → Toml.IsInteger n) →
        ∃ text, c.render .toml = .ok text ∧
          LoadsAs environment false text
            (if Toml.Fits (c.value false) then .ok c.withoutKeys
              else .error (unreadable "a configuration file cannot be parsed"))) := by
  refine ⟨fun hfloats => ⟨_, rfl, loadsAs_json htyped hcheck hunset hfloats⟩,
    fun hfloats hnull hintegers =>
      ⟨_, ?_, loadsAs_toml htyped hcheck hunset hfloats hnull hintegers⟩⟩
  rw [render, Toml.render?_eq (isPlain_value htyped hnull).noNull]

/-- A configuration file and nothing else. -/
def only (isJson : Bool) (text : String) : FileTree :=
  ⟨[([if isJson then "config.json" else "config.toml"], .file text.toUTF8)]⟩

theorem readText?_only (isJson : Bool) (text : String) :
    (only isJson text).readText? [] (if isJson then "config.json" else "config.toml") =
      some text := by
  have hread : (only isJson text).read? [] (if isJson then "config.json" else "config.toml") =
      some text.toUTF8 := by
    cases isJson <;> rfl
  rw [FileTree.readText?, hread, Option.bind_some]
  exact dif_pos text.isValidUTF8

theorem LoadsAs.only {isJson : Bool} {text : String} {outcome : Except Failure Config}
    (h : LoadsAs environment isJson text outcome) :
    loadFile (only isJson text) [] environment (if isJson then "config.json" else "config.toml") =
      outcome :=
  h _ _ _ (by cases isJson <;> decide +kernel) (readText?_only isJson text)

/-- One backend. -/
def single (apiKey : Option String) (extra : List (String × Json)) : Config :=
  { backends := [{ name := "local", apiKey, extra }] }

theorem isTyped_default : ({} : Config).IsTyped :=
  ⟨List.forall_mem_nil _, by decide +kernel, by decide, by decide, by decide, by decide⟩

theorem isTyped_single {apiKey : Option String} {extra : List (String × Json)} (h : IsFree extra) :
    (single apiKey extra).IsTyped :=
  ⟨List.forall_mem_singleton.2 ⟨by change 4096 < _; decide, by change 30 < _; decide,
    by change 2 < _; decide, h⟩, isTyped_default.targetCoverage, isTyped_default.stageTimeoutSecs,
    isTyped_default.concurrency, isTyped_default.maxThreads, isTyped_default.maxFileSize⟩

theorem check_single (apiKey : Option String) (extra : List (String × Json)) :
    (single apiKey extra).check = .ok () := by
  have hdefault : (single none []).check = .ok () := rfl
  exact Eq.trans rfl hdefault

theorem numbers_single (apiKey : Option String) (extra : List (String × Json)) :
    numbers ((single apiKey extra).value showUnset) =
      [.whole 4096, .single (Decimal.Format.single.ofDecimal false 7 (-1)), .whole 30, .whole 2] ++
        numbers (.object extra) ++
        [.float (Decimal.Format.double.ofDecimal false 8 (-1)), .whole 180, .whole 4,
          .whole 1048576] := by
  rw [numbers_value, numbers_output, numbers_sources]
  simp [single, numbers_backend]

theorem floatsReturn_single {read? : Number → Option Number} {apiKey : Option String}
    {extra : List (String × Json)}
    (hextra : ∀ n ∈ numbers (.object extra), ∃ k, n = .whole k)
    (hcoverage : read? (.float (Decimal.Format.double.ofDecimal false 8 (-1))) =
      some (.float (Decimal.Format.double.ofDecimal false 8 (-1))))
    (htemperature : read? (.single (Decimal.Format.single.ofDecimal false 7 (-1))) =
      some (.float (Decimal.Format.double.ofDecimal false 7 (-1)))) :
    FloatsReturn read? ((single apiKey extra).value showUnset) := by
  have hnumbers : ∀ n ∈ numbers ((single apiKey extra).value showUnset), (∃ k, n = .whole k) ∨
      n = .float (Decimal.Format.double.ofDecimal false 8 (-1)) ∨
      n = .single (Decimal.Format.single.ofDecimal false 7 (-1)) := by
    simp only [numbers_single, List.forall_mem_append]
    refine ⟨⟨?_, fun n hn => .inl (hextra n hn)⟩, ?_⟩ <;> simp
  constructor
  · intro x hx
    rcases hnumbers _ hx with ⟨k, hk⟩ | hk | hk
    · cases hk
    · rw [hk, hcoverage]
    · cases hk
  · intro x hx
    rcases hnumbers _ hx with ⟨k, hk⟩ | hk | hk
    · cases hk
    · cases hk
    · rw [hk, htemperature]
      cases hk
      exact ⟨_, rfl, by decide +kernel⟩

/-- A key and free fields. -/
def sample : Config :=
  single (some "secret") [("seed", .ofNat 7), ("stop", .array [.string "END", .bool false])]

theorem sample_reloads :
    (∃ text, sample.render .json = .ok text ∧
      loadFile (only true text) [] [("HOME", "/home")] "config.json" = .ok sample.withoutKeys) ∧
    ∃ text, sample.render .toml = .ok text ∧
      loadFile (only false text) [] [("HOME", "/home")] "config.toml" = .ok sample.withoutKeys := by
  have hfree : IsFree [("seed", .ofNat 7), ("stop", .array [.string "END", .bool false])] := by
    refine ⟨⟨by decide, trivial, ⟨trivial, trivial, trivial⟩, trivial⟩, fun n hn => ?_⟩
    obtain rfl := List.mem_singleton.1 hn
    exact ⟨by decide, by decide⟩
  have hextra : ∀ n ∈ numbers
      (.object [("seed", .ofNat 7), ("stop", .array [.string "END", .bool false])]),
      ∃ k, n = .whole k := fun n hn => ⟨7, List.mem_singleton.1 hn⟩
  have hunset : OverridesNothing [("HOME", "/home")] :=
    List.forall_mem_singleton.2 (by decide +kernel)
  have hintegers : ∀ n, .whole n ∈ numbers (sample.value false) → Toml.IsInteger n := by
    intro n hn
    rw [sample, numbers_single] at hn
    simp [numbers, Json.fieldNumbers, Json.itemNumbers, Json.ofNat] at hn
    constructor <;> omega
  obtain ⟨hjson, htoml⟩ := reload_render (isTyped_single hfree)
    (check_single (some "secret") _) hunset
  obtain ⟨jsonText, hjsonText, hjsonLoads⟩ :=
    hjson (floatsReturn_single hextra (by decide +kernel) (by decide +kernel))
  obtain ⟨tomlText, htomlText, htomlLoads⟩ :=
    htoml (floatsReturn_single hextra (by decide +kernel) (by decide +kernel))
      (by decide +kernel) hintegers
  rw [if_pos (by decide +kernel)] at hjsonLoads htomlLoads
  exact ⟨⟨jsonText, hjsonText, hjsonLoads.only⟩, tomlText, htomlText, htomlLoads.only⟩

/-- Arrays in each other. -/
def nested : Nat → Json
  | 0 => .array []
  | n + 1 => .array [nested n]

theorem everyObject_nested (p : List (String × Json) → Prop) (n : Nat) :
    Json.EveryObject p (nested n) := by
  induction n with
  | zero => trivial
  | succ n ih => exact ⟨ih, trivial⟩

theorem numbers_nested (n : Nat) : numbers (nested n) = [] := by
  induction n with
  | zero => rfl
  | succ n ih => simp [nested, numbers, Json.itemNumbers, ih]

/-- A free field that nests deep. -/
def deep : Config :=
  single none [("deep", nested 199)]

theorem deep_not_reloaded :
    deep.IsTyped ∧ deep.check = .ok () ∧ FloatsReturn jsonNumber? (deep.value true) ∧
      FloatsReturn tomlNumber? (deep.value false) ∧
      (∀ b ∈ deep.backends, Toml.hasNull (.object b.extra) = false) ∧
      (∀ n, .whole n ∈ numbers (deep.value false) → Toml.IsInteger n) ∧
      (∃ text, deep.render .json = .ok text ∧
        loadFile (only true text) [] [] "config.json" =
          .error (unreadable "a configuration file cannot be parsed")) ∧
      ∃ text, deep.render .toml = .ok text ∧
        loadFile (only false text) [] [] "config.toml" =
          .error (unreadable "a configuration file cannot be parsed") := by
  have hextra : numbers (.object [("deep", nested 199)]) = [] := by
    simp [numbers, Json.fieldNumbers, numbers_nested]
  have hfree : IsFree [("deep", nested 199)] :=
    ⟨⟨by decide, everyObject_nested _ _, trivial⟩, by simp [hextra]⟩
  have hjson : FloatsReturn jsonNumber? (deep.value true) :=
    floatsReturn_single (by simp [hextra]) (by decide +kernel) (by decide +kernel)
  have htoml : FloatsReturn tomlNumber? (deep.value false) :=
    floatsReturn_single (by simp [hextra]) (by decide +kernel) (by decide +kernel)
  have hnull : ∀ b ∈ deep.backends, Toml.hasNull (.object b.extra) = false := by decide +kernel
  have hintegers : ∀ n, .whole n ∈ numbers (deep.value false) → Toml.IsInteger n := by
    intro n hn
    rw [deep, numbers_single, hextra] at hn
    simp at hn
    constructor <;> omega
  have htyped : deep.IsTyped := isTyped_single hfree
  have hjsonLoads := loadsAs_json htyped (check_single none _) (List.forall_mem_nil _) hjson
  have htomlLoads :=
    loadsAs_toml htyped (check_single none _) (List.forall_mem_nil _) htoml hnull hintegers
  rw [if_neg (by decide +kernel)] at hjsonLoads htomlLoads
  refine ⟨htyped, check_single _ _, hjson, htoml, hnull, hintegers, ⟨_, rfl, hjsonLoads.only⟩,
    _, ?_, htomlLoads.only⟩
  rw [render, Toml.render?_eq (isPlain_value htyped hnull).noNull]

end Docsmith.Config
