import Docsmith.Sink.Basic
/-!
# Sinks — a transcript

A sink can keep a transcript: every document that it is handed, with its
text, every directory that it is asked for, and each answer. `Does` says
which states a sink goes through while it does what the transcript tells.
A program is *transcribed* if the transcript makes no difference to it and
something is known of what the transcript tells whenever the program ends
(`Transcribed`); such statements are put together along the program.
-/


namespace Docsmith.Sink

variable {σ α β : Type} {sink : Sink σ}

/-- Something that was asked of a sink, in full, and the answer. -/
inductive Deed where
  | wrote (draft : Draft) (result : Except Failure String)
  | made (directory : String) (result : Except Failure Unit)

namespace Deed

/-- Why it failed, if it did. -/
def failure? : Deed → Option Failure
  | .wrote _ result => failed? result
  | .made _ result => failed? result

/-- The answer about a directory. -/
def made? : Deed → Option (Except Failure Unit)
  | .wrote _ _ => none
  | .made _ result => some result

/-- It could not be done. -/
def Failed (deed : Deed) : Prop :=
  ∃ failure, deed.failure? = some failure

/-- A directory could not be made. -/
def Refused (deed : Deed) : Prop :=
  ∃ directory failure, deed = .made directory (.error failure)

instance (deed : Deed) : Decidable deed.Refused :=
  match deed with
  | .made _ (.error _) => isTrue ⟨_, _, rfl⟩
  | .made _ (.ok _) => isFalse nofun
  | .wrote _ _ => isFalse nofun

end Deed

/-- The sink with a transcript, in the order in which it is asked. -/
def recorded (sink : Sink σ) : Sink (List Deed × σ) where
  write path content s :=
    let (result, t) := sink.write path content s.2
    (result, s.1 ++ [.wrote ⟨path, content⟩ result], t)
  ensureDirectory path s :=
    let (result, t) := sink.ensureDirectory path s.2
    (result, s.1 ++ [.made path result], t)

/-- From one state to another the sink does these things. -/
inductive Does (sink : Sink σ) : σ → List Deed → σ → Prop
  | nil {s : σ} : Does sink s [] s
  | wrote {s t u : σ} {d : Draft} {result : Except Failure String} {deeds : List Deed} :
      sink.write d.path d.content s = (result, t) → Does sink t deeds u →
      Does sink s (.wrote d result :: deeds) u
  | made {s t u : σ} {directory : String} {result : Except Failure Unit} {deeds : List Deed} :
      sink.ensureDirectory directory s = (result, t) → Does sink t deeds u →
      Does sink s (.made directory result :: deeds) u

theorem Does.append {s t u : σ} {deeds more : List Deed} (h : sink.Does s deeds t)
    (hmore : sink.Does t more u) : sink.Does s (deeds ++ more) u := by
  induction h with
  | nil => exact hmore
  | wrote hw _ ih => exact .wrote hw (ih hmore)
  | made hm _ ih => exact .made hm (ih hmore)

/-- What a document was answered with is what the sink answers in some state. -/
theorem Does.exists_write {s u : σ} {deeds : List Deed} {d : Draft} {result : Except Failure String}
    (h : sink.Does s deeds u) (hdeed : .wrote d result ∈ deeds) :
    ∃ t, (sink.write d.path d.content t).1 = result := by
  induction h with
  | nil => cases hdeed
  | wrote hw _ ih =>
    rcases List.mem_cons.1 hdeed with heq | hmem
    · cases heq
      exact ⟨_, congrArg Prod.fst hw⟩
    · exact ih hmem
  | made _ _ ih =>
    rcases List.mem_cons.1 hdeed with heq | hmem
    · cases heq
    · exact ih hmem

/-- With a transcript the program does what it does without one, and what
the transcript tells fits the result. -/
def Transcribed (sink : Sink σ) (plain : σ → α × σ)
    (program : List Deed × σ → α × (List Deed × σ)) (fits : List Deed → α → Prop) : Prop :=
  ∀ past s, ∃ deeds, program (past, s) = ((plain s).1, past ++ deeds, (plain s).2) ∧
    sink.Does s deeds (plain s).2 ∧ fits deeds (plain s).1

/-- A program that asks nothing. -/
theorem transcribed_pure (sink : Sink σ) (a : α) :
    sink.Transcribed (fun s => (a, s)) (fun s => (a, s)) fun deeds b => deeds = [] ∧ b = a := by
  intro past s
  exact ⟨[], by rw [List.append_nil], .nil, rfl, rfl⟩

section

variable {plain : σ → α × σ} {program : List Deed × σ → α × (List Deed × σ)}
variable {fits : List Deed → α → Prop}

/-- One program after the other. -/
theorem Transcribed.bind {plainNext : α → σ → β × σ}
    {next : α → List Deed × σ → β × (List Deed × σ)} {fitsNext : α → List Deed → β → Prop}
    (hfirst : sink.Transcribed plain program fits)
    (hnext : ∀ a, sink.Transcribed (plainNext a) (next a) (fitsNext a)) :
    sink.Transcribed (fun s => plainNext (plain s).1 (plain s).2)
      (fun s => next (program s).1 (program s).2) fun deeds b =>
        ∃ first more a, deeds = first ++ more ∧ fits first a ∧ fitsNext a more b := by
  intro past s
  obtain ⟨first, hprogram, hdoes, hfits⟩ := hfirst past s
  obtain ⟨more, hnextEq, hdoesNext, hfitsNext⟩ := hnext (plain s).1 (past ++ first) (plain s).2
  refine ⟨first ++ more, ?_, hdoes.append hdoesNext, first, more, _, rfl, hfits, hfitsNext⟩
  dsimp only
  rw [hprogram, hnextEq, List.append_assoc]

/-- What is known of a transcript may be said in other words. -/
theorem Transcribed.imp {fits' : List Deed → α → Prop} (h : sink.Transcribed plain program fits)
    (himp : ∀ deeds a, fits deeds a → fits' deeds a) : sink.Transcribed plain program fits' := by
  intro past s
  obtain ⟨deeds, hprogram, hdoes, hfits⟩ := h past s
  exact ⟨deeds, hprogram, hdoes, himp deeds _ hfits⟩

/-- What is made of a program's result asks nothing more. -/
theorem Transcribed.map (h : sink.Transcribed plain program fits) (f : α → β) :
    sink.Transcribed (fun s => (f (plain s).1, (plain s).2))
      (fun s => (f (program s).1, (program s).2)) fun deeds b => ∃ a, fits deeds a ∧ b = f a := by
  have hbind := h.bind fun a => transcribed_pure sink (f a)
  refine hbind.imp fun deeds b hb => ?_
  obtain ⟨first, more, a, rfl, hfits, rfl, rfl⟩ := hb
  exact ⟨a, by rwa [List.append_nil], rfl⟩

end

/-- Writing one document. -/
theorem transcribed_write (sink : Sink σ) (d : Draft) :
    sink.Transcribed (sink.write d.path d.content) (sink.recorded.write d.path d.content)
      fun deeds result => deeds = [.wrote d result] := by
  intro past s
  exact ⟨[.wrote d (sink.write d.path d.content s).1], rfl, .wrote rfl .nil, rfl⟩

/-- Making one directory. -/
theorem transcribed_ensureDirectory (sink : Sink σ) (directory : String) :
    sink.Transcribed (sink.ensureDirectory directory) (sink.recorded.ensureDirectory directory)
      fun deeds result => deeds = [.made directory result] := by
  intro past s
  exact ⟨[.made directory (sink.ensureDirectory directory s).1], rfl, .made rfl .nil, rfl⟩

end Docsmith.Sink
