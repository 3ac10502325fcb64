import Docsmith.Config.Layers
import Docsmith.Proofs.Json.Parts
import Mathlib.Algebra.Order.Ring.Int
/-!
# Configurations — a value over the defaults

What is found in an object that was laid over another one, and what is read of a
configuration that was written and laid over the defaults.
-/


namespace Docsmith.Config

open Json (Number reread rereadFields numbers)

variable {base fields : List (String × Json)} {name : String} {num : Number → Number}

/-- The next part is read after one that could be. -/
theorem some_bind {α β : Type} (a : α) (next : α → Option β) : (some a >>= next) = next a :=
  rfl

/-! ## Objects over each other -/

/-- A field of an object that lies over another one. -/
def laidOver (base : List (String × Json)) (name : String) (value : Json) : Json :=
  match Ordered.find? name base with
  | some old => overlay old value
  | none => value

theorem laidOver_insert_of_ne {key : String} (h : name ≠ key) (value : Json) :
    laidOver (Ordered.insert key value base) name = laidOver base name := by
  funext above
  rw [laidOver, laidOver, Ordered.find?_insert, if_neg h]

/-- **Each field of the upper object lies over the lower one's**, by induction on
the upper fields. -/
theorem find?_overlayFields (h : Ordered.HasDistinctKeys fields) (name : String) :
    ∀ base, Ordered.find? name (overlayFields base fields) =
      ((Ordered.find? name fields).map (laidOver base name)).or (Ordered.find? name base) := by
  induction fields with
  | nil => exact fun base => rfl
  | cons field fields ih =>
    obtain ⟨key, value⟩ := field
    obtain ⟨hhead, htail⟩ := List.pairwise_cons.1 h
    intro base
    rw [overlayFields, ih htail, Ordered.find?_insert, Ordered.find?]
    by_cases hname : name = key
    · subst hname
      rw [Ordered.find?_eq_none.2 hhead, if_pos rfl, if_pos rfl]
      rfl
    · rw [if_neg hname, if_neg hname, laidOver_insert_of_ne hname]

theorem hasDistinctKeys_rereadFields (num : Number → Number) (h : Ordered.HasDistinctKeys fields) :
    Ordered.HasDistinctKeys (rereadFields num fields) := by
  rw [Json.rereadFields_eq]
  exact List.pairwise_map.2 h

/-- What is found under a name in written fields that were read and laid over
others. -/
def found? (num : Number → Number) (base fields : List (String × Json)) (name : String) :
    Option Json :=
  ((Ordered.find? name fields).map (laidOver base name ∘ reread num)).or (Ordered.find? name base)

theorem finder?_overlay (h : Ordered.HasDistinctKeys fields) (r : Reading) (names : List String) :
    finder? r names (overlay (.object base) (reread num (.object fields))) =
      some (found? num base fields) := by
  have hdistinct := hasDistinctKeys_rereadFields num h
  rw [reread, Json.ofFields, overlay, finder?]
  refine congrArg some (funext fun name => ?_)
  rw [find?_overlayFields (Ordered.isAscending_ofList _).hasDistinctKeys,
    Ordered.find?_ofList hdistinct, Json.rereadFields_eq, Ordered.find?_map, Option.map_map, found?]

/-- What is found under a name in written fields that were read as they stand. -/
theorem finder?_reread (h : Ordered.HasDistinctKeys fields) (r : Reading) (names : List String) :
    finder? r names (reread num (.object fields)) =
      some fun name => (Ordered.find? name fields).map (reread num) := by
  have hdistinct := hasDistinctKeys_rereadFields num h
  rw [reread, Json.ofFields, finder?]
  refine congrArg some (funext fun name => ?_)
  rw [Ordered.find?_ofList hdistinct, Json.rereadFields_eq, Ordered.find?_map]

/-! ## What was written is read -/

/-- The number that was read for another one: the same, or one that it is when
rounded to thirty-two bits. -/
def Recovers : Number → Number → Prop
  | .single x, m => ∃ y, m = .float y ∧ y.roundTo .single = x
  | n, m => m = n

/-- Every number of a value is recovered. -/
def Recovered (num : Number → Number) (v : Json) : Prop :=
  ∀ n ∈ numbers v, Recovers n (num n)

theorem Recovered.field (h : Recovered num (.object fields)) (name : String) (v : Json)
    (hv : (name, v) ∈ fields) : Recovered num v := by
  intro n hn
  refine h n ?_
  rw [numbers, Json.fieldNumbers_eq]
  exact List.mem_flatMap_of_mem hv hn

theorem Recovered.item {v : Json} {items : List Json} (h : Recovered num (.array items))
    (hv : v ∈ items) : Recovered num v := by
  intro n hn
  refine h n ?_
  rw [numbers, Json.itemNumbers_eq]
  exact List.mem_flatMap_of_mem hv hn

theorem Recovered.nat {n : Nat} (h : Recovered num (.ofNat n)) :
    reread num (.ofNat n) = .ofNat n := by
  have : num (.whole n) = .whole n := h _ (List.mem_singleton_self _)
  rw [Json.ofNat, reread, this]

theorem nat?_ofNat {bits n : Nat} (h : n < 2 ^ bits) : nat? bits (.ofNat n) = some n := by
  have hlt : (n : Int) < Int.pow 2 bits := by
    change (n : Int) < (2 : Int) ^ bits
    exact_mod_cast h
  have hfits : (0 ≤ (n : Int) && decide ((n : Int) < Int.pow 2 bits)) = true := by
    rw [Bool.and_eq_true, decide_eq_true_eq, decide_eq_true_eq]
    exact ⟨Int.natCast_nonneg n, hlt⟩
  rw [Json.ofNat, nat?, if_pos hfits, Int.toNat_natCast]

theorem optional?_ofNat {bits n : Nat} (h : n < 2 ^ bits) :
    optional? (nat? bits) (.ofNat n) = some (some n) :=
  congrArg (Option.map some) (nat?_ofNat h)

theorem rereadItems_map_string (num : Number → Number) (items : List String) :
    Json.rereadItems num (items.map .string) = items.map .string := by
  rw [Json.rereadItems_eq, List.map_map]
  rfl

theorem reread_textList (num : Number → Number) (items : List String) :
    reread num (textList items) = textList items := by
  rw [textList, reread, rereadItems_map_string]

theorem list?_textList (items : List String) : list? text? (textList items) = some items := by
  rw [textList, list?]
  induction items with
  | nil => rfl
  | cons item items ih => rw [List.map_cons, List.mapM_cons, ih]; rfl

theorem overlay_ofNat (below : Json) (n : Nat) : overlay below (.ofNat n) = .ofNat n :=
  rfl

theorem overlay_textList (below : Json) (items : List String) :
    overlay below (textList items) = textList items :=
  rfl

theorem naming?_overlay (showUnset : Bool) (n : Diagram.Naming) :
    naming? .layered (overlay (namingValue true {}) (reread num (namingValue showUnset n))) =
      some n := by
  rw [naming?, namingValue, namingValue, finder?_overlay]
  · obtain ⟨before, after, extension⟩ := n
    cases after <;> cases extension <;> cases showUnset <;>
      simp [field?, found?, Ordered.find?, optionalField, laidOver, overlay, optional?, text?]
  · cases n.after <;> cases n.extension <;> cases showUnset <;>
      simp [Ordered.HasDistinctKeys, optionalField]


theorem sources?_overlay {showUnset : Bool} {s : Sources} (h : Recovered num (s.value showUnset))
    (hthreads : ∀ n ∈ s.maxThreads, n < 2 ^ 64) (hsize : s.maxFileSize < 2 ^ 64) :
    sources? .layered (overlay (Sources.value true {}) (reread num (s.value showUnset))) =
      some s := by
  have hsizeRead := (h.field "max_file_size" (.ofNat s.maxFileSize) (by simp)).nat
  rw [sources?, Sources.value, Sources.value, finder?_overlay]
  · obtain ⟨includePrivate, maxThreads, languages, maxFileSize, includePatterns,
      excludePatterns⟩ := s
    cases maxThreads with
    | none =>
      cases showUnset <;>
        simp [field?, found?, Ordered.find?, optionalField, laidOver, overlay, optional?,
          bool?, reread_textList, overlay_textList, list?_textList, hsizeRead, overlay_ofNat,
          nat?_ofNat hsize]
    | some n =>
      have hread := (h.field "max_threads" (.ofNat n) (by simp [optionalField])).nat
      simp [field?, found?, Ordered.find?, optionalField, laidOver, overlay, bool?,
        reread_textList, overlay_textList, list?_textList, hsizeRead, overlay_ofNat,
        nat?_ofNat hsize, hread, optional?_ofNat (hthreads n rfl)]
  · cases s.maxThreads <;> cases showUnset <;>
      simp [Ordered.HasDistinctKeys, optionalField]

theorem collision?_name (r : Reading) (p : Collision) : collision? r (.string p.name) = some p := by
  cases p <;> rfl

theorem output?_overlay {showUnset : Bool} {o : Output} (h : Recovered num (o.value showUnset))
    (htimeout : o.stageTimeoutSecs < 2 ^ 64) (hconcurrency : o.concurrency < 2 ^ 64)
    (hcoverage : o.targetCoverage.roundTo .double = o.targetCoverage) :
    output? .layered (overlay (Output.value true {}) (reread num (o.value showUnset))) =
      some o := by
  have htimeoutRead :=
    (h.field "stage_timeout_secs" (.ofNat o.stageTimeoutSecs) (by simp)).nat
  have hconcurrencyRead :=
    (h.field "concurrency" (.ofNat o.concurrency) (by simp)).nat
  have hcoverageRead : reread num (.number (.float o.targetCoverage)) =
      .number (.float o.targetCoverage) :=
    congrArg Json.number (h.field "target_coverage" (.number (.float o.targetCoverage)) (by simp) _
      (List.mem_singleton_self _))
  rw [output?, Output.value, Output.value, finder?_overlay]
  · obtain ⟨directory, unitTests, mermaid, plantUml, mermaidNaming, plantUmlNaming, mermaidPath,
      plantUmlPath, targetCoverage, stageTimeoutSecs, concurrency, collision⟩ := o
    cases mermaidPath <;> cases plantUmlPath <;>
      simp [-Option.bind_eq_bind, some_bind, field?, found?, Ordered.find?, optionalField,
        laidOver, overlay, optional?, bool?, text?, htimeoutRead, hconcurrencyRead,
        hcoverageRead, overlay_ofNat, float?, hcoverage, naming?_overlay, nat?_ofNat htimeout,
        nat?_ofNat hconcurrency, collision?_name]
  · cases o.mermaidPath <;> cases o.plantUmlPath <;>
      simp [Ordered.HasDistinctKeys, optionalField]

/-- A number that free fields hold: a whole one of sixty-four bits, or a finite
one with a fraction. -/
def IsFreeNumber : Number → Prop
  | .whole n => -2 ^ 63 ≤ n ∧ n < 2 ^ 64
  | .float x => x.isFinite = true
  | .single _ => False

/-- Free fields: in order at every level, with numbers that they hold. -/
structure IsFree (extra : List (String × Json)) : Prop where
  ordered : Json.EveryObject Ordered.IsAscending (.object extra)
  numbers : ∀ n ∈ numbers (.object extra), IsFreeNumber n

theorem Recovers.eq_of_isFreeNumber {n m : Number} (h : Recovers n m) (hn : IsFreeNumber n) :
    m = n := by
  cases n with
  | whole n => exact h
  | float x => exact h
  | single x => exact hn.elim

theorem finiteItems_eq (items : List Json) : finiteItems items = items.map finite := by
  induction items with
  | nil => rfl
  | cons item items ih => rw [finiteItems, ih, List.map_cons]

theorem finiteFields_eq (fields : List (String × Json)) :
    finiteFields fields = fields.map fun field => (field.1, finite field.2) := by
  induction fields with
  | nil => rfl
  | cons field fields ih => rw [finiteFields, ih, List.map_cons]

/-- Free numbers are finite, so none becomes `null`. -/
theorem finite_of_isFreeNumber {v : Json} (h : ∀ n ∈ numbers v, IsFreeNumber n) : finite v = v := by
  induction v using Json.parts_induction with
  | null => rfl
  | bool b => rfl
  | string s => rfl
  | number n =>
    have hn := h n (List.mem_singleton_self n)
    cases n with
    | whole n => rfl
    | float x =>
      have hfinite : x.isFinite = true := hn
      rw [finite, if_pos hfinite]
    | single x => rfl
  | array items ih =>
    rw [numbers, Json.itemNumbers_eq] at h
    have hitems : items.map finite = items := by
      refine (List.map_congr_left fun item hitem => ?_).trans (List.map_id _)
      exact ih item hitem fun n hn => h n (List.mem_flatMap_of_mem hitem hn)
    rw [finite, finiteItems_eq, hitems]
  | object fields ih =>
    rw [numbers, Json.fieldNumbers_eq] at h
    have hfields : (fields.map fun field => (field.1, finite field.2)) = fields := by
      refine (List.map_congr_left fun field hfield => ?_).trans (List.map_id _)
      rw [ih field hfield fun n hn => h n (List.mem_flatMap_of_mem hfield hn)]
      rfl
    rw [finite, finiteFields_eq, hfields]

theorem fields?_extra {extra : List (String × Json)} (hfree : IsFree extra)
    (h : Recovered num (.object extra)) : fields? (reread num (.object extra)) = some extra := by
  have hfinite := finite_of_isFreeNumber hfree.numbers
  rw [Json.reread_of_isAscending hfree.ordered fun n hn =>
    (h n hn).eq_of_isFreeNumber (hfree.numbers n hn), fields?]
  rw [finite] at hfinite
  exact congrArg some (Json.object.inj hfinite)

/-- The numbers of a backend fit their fields. -/
structure Backend.IsTyped (b : Backend) : Prop where
  maxTokens : b.maxTokens < 2 ^ 32
  timeoutSeconds : b.timeoutSeconds < 2 ^ 64
  maxRetries : b.maxRetries < 2 ^ 64
  extra : IsFree b.extra

theorem backend?_reread {b : Backend} (htyped : b.IsTyped) (h : Recovered num b.value) :
    backend? .layered (reread num b.value) = some { b with apiKey := none } := by
  have htokens := (h.field "max_tokens" (.ofNat b.maxTokens) (by simp)).nat
  have htimeout := (h.field "timeout_seconds" (.ofNat b.timeoutSeconds) (by simp)).nat
  have hretries := (h.field "max_retries" (.ofNat b.maxRetries) (by simp)).nat
  have hextra := fields?_extra htyped.extra (h.field "extra" _ (by simp))
  obtain ⟨y, hy, htemperature⟩ : Recovers (.single b.temperature) (num (.single b.temperature)) :=
    h.field "temperature" (.number (.single b.temperature)) (by simp) _
      (List.mem_singleton_self _)
  have htemperatureRead : float? .single (reread num (.number (.single b.temperature))) =
      some b.temperature := by
    rw [reread, hy, float?, htemperature]
  rw [backend?, Backend.value, finder?_reread]
  · simp [-Option.bind_eq_bind, some_bind, field?, Ordered.find?, text?, htokens, htimeout,
      hretries, hextra, htemperatureRead, nat?_ofNat htyped.maxTokens,
      nat?_ofNat htyped.timeoutSeconds, nat?_ofNat htyped.maxRetries]
  · simp [Ordered.HasDistinctKeys]

/-- The numbers of a configuration fit their fields. -/
structure IsTyped (c : Config) : Prop where
  backends : ∀ b ∈ c.backends, b.IsTyped
  targetCoverage : c.output.targetCoverage.roundTo .double = c.output.targetCoverage
  stageTimeoutSecs : c.output.stageTimeoutSecs < 2 ^ 64
  concurrency : c.output.concurrency < 2 ^ 64
  maxThreads : ∀ n ∈ c.sources.maxThreads, n < 2 ^ 64
  maxFileSize : c.sources.maxFileSize < 2 ^ 64

theorem list?_backends {backends : List Backend} (htyped : ∀ b ∈ backends, b.IsTyped)
    (h : Recovered num (.array (backends.map (·.value)))) :
    list? (backend? .layered) (reread num (.array (backends.map (·.value)))) =
      some (backends.map fun b => { b with apiKey := none }) := by
  rw [reread, list?, Json.rereadItems_eq, List.map_map]
  induction backends with
  | nil => rfl
  | cons b backends ih =>
    obtain ⟨hb, hbackends⟩ := List.forall_mem_cons.1 htyped
    have hvalue : Recovered num b.value := h.item (by simp)
    rw [List.map_cons, List.mapM_cons, Function.comp, backend?_reread hb hvalue,
      ih hbackends fun n hn => h n (List.mem_append_right _ hn)]
    rfl

/-- A configuration without the keys of its backends. -/
def withoutKeys (c : Config) : Config :=
  { c with backends := c.backends.map fun b => { b with apiKey := none } }

/-- Items are not merged. -/
theorem overlay_array (below : Json) (items : List Json) :
    overlay below (reread num (.array items)) = reread num (.array items) :=
  rfl

/-- **What was written of a configuration is read from over the defaults**, but
for the keys. -/
theorem read?_overlay {showUnset : Bool} {c : Config} (htyped : c.IsTyped)
    (h : Recovered num (c.value showUnset)) :
    read? .layered (overlay (({} : Config).value true) (reread num (c.value showUnset))) =
      some c.withoutKeys := by
  have hbackends := list?_backends htyped.backends (h.field "llm_models" _ (by simp))
  have houtput := output?_overlay (h.field "output" (c.output.value showUnset) (by simp))
    htyped.stageTimeoutSecs htyped.concurrency htyped.targetCoverage
  have hsources := sources?_overlay (h.field "analysis" (c.sources.value showUnset) (by simp))
    htyped.maxThreads htyped.maxFileSize
  rw [read?, value, value, finder?_overlay]
  · simp [field?, found?, Ordered.find?, laidOver, overlay_array, hbackends, houtput, hsources,
      withoutKeys]
  · simp [Ordered.HasDistinctKeys]

end Docsmith.Config
