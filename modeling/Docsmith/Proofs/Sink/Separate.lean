import Docsmith.Proofs.Sink.Transcript
/-!
# Sinks — documents kept apart

A sink keeps documents apart if whether one of them can be written depends on
its path alone, and writing it changes nothing at the places of the others; the
same goes for directories (`Separates`). Then what stands at a place in the end
is what its own document has made of it, whatever else was written and in
whatever order (`Separates.does`), and two programs that start from one state
leave the same wherever they hand over the same (`Layout.Follows.agree`).
-/


namespace Docsmith.Sink

variable {σ κ ε : Type} {sink : Sink σ}

/-! ## What is handed over -/

namespace Deed

/-- The document that was handed over. -/
def draft? : Deed → Option Draft
  | .wrote d _ => some d
  | .made _ _ => none

/-- What was asked for, whatever the answer. -/
def order : Deed → Draft ⊕ String
  | .wrote d _ => .inl d
  | .made directory _ => .inr directory

/-- Only these documents and directories are asked for. -/
def Within (paths directories : List String) : Deed → Prop
  | .wrote d _ => d.path ∈ paths
  | .made directory _ => directory ∈ directories

end Deed

/-- The documents that were handed over, whatever became of them. -/
def handed (deeds : List Deed) : List Draft :=
  deeds.filterMap Deed.draft?

theorem handed_append (deeds more : List Deed) :
    handed (deeds ++ more) = handed deeds ++ handed more :=
  List.filterMap_append

theorem mem_handed {deeds : List Deed} {d : Draft} :
    d ∈ handed deeds ↔ ∃ result, .wrote d result ∈ deeds := by
  rw [handed, List.mem_filterMap]
  constructor
  · rintro ⟨deed, hdeed, hd⟩
    cases deed with
    | wrote draft result =>
      obtain rfl : draft = d := Option.some.inj hd
      exact ⟨result, hdeed⟩
    | made directory result => cases hd
  · rintro ⟨result, hdeed⟩
    exact ⟨_, hdeed, rfl⟩

/-- A document was handed over if it was asked for. -/
theorem mem_handed_iff_order {deeds : List Deed} {d : Draft} :
    d ∈ handed deeds ↔ .inl d ∈ deeds.map Deed.order := by
  rw [mem_handed, List.mem_map]
  constructor
  · rintro ⟨result, hdeed⟩
    exact ⟨_, hdeed, rfl⟩
  · rintro ⟨deed, hdeed, heq⟩
    cases deed with
    | wrote draft result =>
      obtain rfl : draft = d := Sum.inl.inj heq
      exact ⟨result, hdeed⟩
    | made directory result => cases heq

theorem map_order_zipWith {drafts : List Draft} {results : List (Except Failure String)}
    (h : results.length = drafts.length) :
    (List.zipWith Deed.wrote drafts results).map Deed.order = drafts.map .inl := by
  have hdrafts : drafts.map .inl = ((drafts.zip results).map Prod.fst).map
      (Sum.inl : Draft → Draft ⊕ String) := by
    rw [List.map_fst_zip (Nat.le_of_eq h.symm)]
  rw [hdrafts, ← List.map_uncurry_zip_eq_zipWith, List.map_map, List.map_map]
  rfl

theorem handed_zipWith {drafts : List Draft} {results : List (Except Failure String)}
    (h : results.length = drafts.length) :
    handed (List.zipWith Deed.wrote drafts results) = drafts := by
  induction drafts generalizing results with
  | nil =>
    obtain rfl := List.length_eq_zero_iff.1 h
    rfl
  | cons d drafts ih =>
    cases results with
    | nil => cases h
    | cons result results =>
      have hrest := ih (Nat.succ.inj h)
      exact congrArg (d :: ·) hrest

/-! ## Layouts -/

/-- Where documents are kept and how, which of them can be written, and which
directories can be made. -/
structure Layout (σ κ ε : Type) where
  place : String → κ
  entry : σ → κ → Option ε
  stored : String → ε
  writable : String → Prop
  makable : String → Prop

namespace Layout

/-- A document is written as its path has it, and at its own place only. -/
structure Writes (l : Layout σ κ ε) (path content : String) (s : σ)
    (result : Except Failure String) (t : σ) : Prop where
  answer : (∃ written, result = .ok written) ↔ l.writable path
  stored : l.writable path → l.entry t (l.place path) = some (l.stored content)
  kept : ∀ place, (l.writable path → l.place path ≠ place) → l.entry t place = l.entry s place

/-- A directory is made as its path has it, and makes no difference to documents. -/
structure Makes (l : Layout σ κ ε) (directory : String) (s : σ) (result : Except Failure Unit)
    (t : σ) : Prop where
  answer : result = .ok () ↔ l.makable directory
  kept : ∀ place, l.entry t place = l.entry s place

/-- What is done goes as the layout has it: everything is answered by its path, places of
documents that were not handed over are left alone, and where no two share a place each
of them is kept. -/
structure Follows (l : Layout σ κ ε) (s : σ) (deeds : List Deed) (u : σ) : Prop where
  wrote : ∀ {d result}, .wrote d result ∈ deeds →
    ((∃ written, result = .ok written) ↔ l.writable d.path)
  made : ∀ {directory result}, .made directory result ∈ deeds →
    (result = .ok () ↔ l.makable directory)
  kept : ∀ place, (∀ d ∈ handed deeds, l.writable d.path → l.place d.path ≠ place) →
    l.entry u place = l.entry s place
  stored : ((handed deeds).map fun d => l.place d.path).Nodup → ∀ d ∈ handed deeds,
    l.writable d.path → l.entry u (l.place d.path) = some (l.stored d.content)

variable {l : Layout σ κ ε} {s t u : σ} {deeds : List Deed}

theorem Follows.nil (l : Layout σ κ ε) (s : σ) : l.Follows s [] s :=
  ⟨nofun, nofun, fun _ _ => rfl, fun _ => nofun⟩

theorem Follows.cons_wrote {d : Draft} {result : Except Failure String}
    (hwrites : l.Writes d.path d.content s result t) (hrest : l.Follows t deeds u) :
    l.Follows s (.wrote d result :: deeds) u := by
  have hhanded : handed (.wrote d result :: deeds) = d :: handed deeds := rfl
  refine ⟨fun {d' result'} hdeed => ?_, fun {directory result'} hdeed => ?_, fun place hplace => ?_,
    fun hnodup d' hd' hwritable => ?_⟩
  · rcases List.mem_cons.1 hdeed with heq | hdeed
    · cases heq
      exact hwrites.answer
    · exact hrest.wrote hdeed
  · exact hrest.made ((List.mem_cons.1 hdeed).resolve_left nofun)
  · rw [hhanded, List.forall_mem_cons] at hplace
    rw [hrest.kept place hplace.2, hwrites.kept place hplace.1]
  · rw [hhanded, List.map_cons, List.nodup_cons] at hnodup
    rw [hhanded, List.mem_cons] at hd'
    rcases hd' with rfl | hd'
    · -- no later document has its place
      have hlater : ∀ other ∈ handed deeds, l.writable other.path →
          l.place other.path ≠ l.place d'.path := by
        intro other hother _ heq
        exact hnodup.1 (List.mem_map.2 ⟨other, hother, heq⟩)
      rw [hrest.kept _ hlater, hwrites.stored hwritable]
    · exact hrest.stored hnodup.2 d' hd' hwritable

theorem Follows.cons_made {directory : String} {result : Except Failure Unit}
    (hmakes : l.Makes directory s result t) (hrest : l.Follows t deeds u) :
    l.Follows s (.made directory result :: deeds) u := by
  refine ⟨fun {d result'} hdeed => ?_, fun {other result'} hdeed => ?_, fun place hplace => ?_,
    hrest.stored⟩
  · exact hrest.wrote ((List.mem_cons.1 hdeed).resolve_left nofun)
  · rcases List.mem_cons.1 hdeed with heq | hdeed
    · cases heq
      exact hmakes.answer
    · exact hrest.made hdeed
  · rw [hrest.kept place hplace, hmakes.kept place]

end Layout

/-! ## Sinks with a layout -/

/-- From states of which something is known to such states the sink goes as the layout
has it, as long as only these documents and directories are asked for. -/
structure Separates (sink : Sink σ) (l : Layout σ κ ε) (known : σ → Prop)
    (paths directories : List String) : Prop where
  write : ∀ {s t path content result}, known s → path ∈ paths →
    sink.write path content s = (result, t) → known t ∧ l.Writes path content s result t
  make : ∀ {s t directory result}, known s → directory ∈ directories →
    sink.ensureDirectory directory s = (result, t) → known t ∧ l.Makes directory s result t

namespace Separates

variable {l : Layout σ κ ε} {known : σ → Prop} {paths directories : List String}
variable {s u : σ} {deeds : List Deed}

/-- **What a sink with a layout does** goes as the layout has it. -/
theorem does (h : sink.Separates l known paths directories) (hdoes : sink.Does s deeds u)
    (hs : known s) (hwithin : ∀ deed ∈ deeds, deed.Within paths directories) :
    l.Follows s deeds u := by
  induction hdoes with
  | nil => exact .nil l _
  | wrote hw _ ih =>
    rw [List.forall_mem_cons] at hwithin
    obtain ⟨ht, hwrites⟩ := h.write hs hwithin.1 hw
    exact .cons_wrote hwrites (ih ht hwithin.2)
  | made hm _ ih =>
    rw [List.forall_mem_cons] at hwithin
    obtain ⟨ht, hmakes⟩ := h.make hs hwithin.1 hm
    exact .cons_made hmakes (ih ht hwithin.2)

end Separates

namespace Layout

variable {l : Layout σ κ ε} {s u u' : σ} {deeds deeds' : List Deed}

/-- **Where two programs hand over the same, they leave the same**, if they start from
one state and no two documents share a place. -/
theorem Follows.agree (h : l.Follows s deeds u) (h' : l.Follows s deeds' u')
    (hnodup : ((handed deeds).map fun d => l.place d.path).Nodup)
    (hnodup' : ((handed deeds').map fun d => l.place d.path).Nodup) {place : κ}
    (hsame : ∀ d, l.place d.path = place → (d ∈ handed deeds ↔ d ∈ handed deeds')) :
    l.entry u place = l.entry u' place := by
  by_cases hwritten : ∃ d ∈ handed deeds, l.writable d.path ∧ l.place d.path = place
  · obtain ⟨d, hd, hwritable, rfl⟩ := hwritten
    rw [h.stored hnodup d hd hwritable, h'.stored hnodup' d ((hsame d rfl).1 hd) hwritable]
  · -- then neither program writes anything there
    have hnone : ∀ d ∈ handed deeds, l.writable d.path → l.place d.path ≠ place :=
      fun d hd hwritable heq => hwritten ⟨d, hd, hwritable, heq⟩
    have hnone' : ∀ d ∈ handed deeds', l.writable d.path → l.place d.path ≠ place :=
      fun d hd hwritable heq => hwritten ⟨d, (hsame d heq).2 hd, hwritable, heq⟩
    rw [h.kept place hnone, h'.kept place hnone']

end Layout

end Docsmith.Sink
