import Docsmith.Proofs.Sink.Ledger
import Docsmith.Proofs.Sink.Transcript
/-!
# Sinks — a record of what is asked

A sink can keep a record of what is asked of it and what it answers: the
paths of documents and directories, without the texts. A sink on disk that
overwrites answers with the path that it was asked for
(`answersAsked_disk`).
-/


namespace Docsmith

namespace Sink

variable {σ α : Type}

/-- Something that was asked of a sink, and the answer. -/
inductive Act where
  | wrote (path : String) (result : Except Failure String)
  | made (directory : String) (result : Except Failure Unit)

/-- What was asked and answered, without the text. -/
def Deed.act : Deed → Act
  | .wrote d result => .wrote d.path result
  | .made directory result => .made directory result

/-- The answer is no failure. -/
def Act.Succeeded : Act → Prop
  | .wrote _ result => ∃ path, result = .ok path
  | .made _ result => result = .ok ()

instance (act : Act) : Decidable act.Succeeded :=
  match act with
  | .wrote _ (.ok path) => isTrue ⟨path, rfl⟩
  | .wrote _ (.error _) => isFalse nofun
  | .made _ (.ok _) => isTrue rfl
  | .made _ (.error _) => isFalse nofun

/-- A document could not be written. -/
def Act.IsFailedWrite : Act → Prop
  | .wrote _ result => ∃ failure, result = .error failure
  | .made _ _ => False

instance (act : Act) : Decidable act.IsFailedWrite :=
  match act with
  | .wrote _ (.ok _) => isFalse nofun
  | .wrote _ (.error failure) => isTrue ⟨failure, rfl⟩
  | .made _ _ => isFalse nofun

/-- The path of a document that was written. -/
def Act.written? : Act → Option String
  | .wrote _ (.ok path) => some path
  | _ => none

/-- The sink with a record, in the order in which it is asked. -/
def logged (sink : Sink σ) : Sink (List Act × σ) where
  write path content s :=
    let (result, t) := sink.write path content s.2
    (result, s.1 ++ [.wrote path result], t)
  ensureDirectory path s :=
    let (result, t) := sink.ensureDirectory path s.2
    (result, s.1 ++ [.made path result], t)

/-- The paths of the documents that were written. -/
def written (log : List Act) : List String :=
  log.filterMap Act.written?

/-- The sink answers with the path that it is asked for, or it fails. -/
def AnswersAsked (sink : Sink σ) : Prop :=
  ∀ path content s p, (sink.write path content s).1 = .ok p → p = path

/-- A program that needs a directory: it does not start where the directory
cannot be made. -/
def afterDirectory (sink : Sink σ) (directory : String) (refuse : Failure → α)
    (program : σ → α × σ) (s : σ) : α × σ :=
  match sink.ensureDirectory directory s with
  | (.error f, s) => (refuse f, s)
  | (.ok (), s) => program s

end Sink

namespace Disk

open Config (Collision)

variable {policy : Collision} {here : Place} {c : Call} {w : Writer}

/-- A writer that runs keeps to its write. -/
theorem Writer.Serves.run (h : w.Serves policy c) (here : Place) (count : Nat) (d : Disk) :
    (w.run policy here count d).1.Serves policy c := by
  induction count generalizing w d with
  | zero => exact h
  | succ count ih =>
    rw [Writer.run]
    split
    · exact h
    · have hturn : Turn policy here w d (w.step policy here d).1 (w.step policy here d).2
          (w.note here d .carried) := carried_turn
      exact ih (hturn.serves h) (w.step policy here d).2

/-- **An overwriting sink answers with the path that it is asked for.** -/
theorem answersAsked_disk (here : Place) : (Sink.disk .overwrite here).AnswersAsked := by
  intro path content d p h
  have hserves := (Writer.Serves.start .overwrite ⟨path, content, d.nextToken⟩).run here
    d.patience d
  generalize hrun : (Writer.start .overwrite path content d.nextToken).run .overwrite here
    d.patience d = out at hserves
  obtain ⟨w, e⟩ := out
  have hwrite : (Sink.disk .overwrite here).write = Disk.write .overwrite here := rfl
  rw [hwrite, Disk.write, hrun] at h
  dsimp only at h
  cases hr : w.result? with
  | none =>
    rw [hr] at h
    cases h
  | some result =>
    rw [hr] at h
    obtain rfl : result = .ok p := h
    have hphase := hserves.phase
    rw [Writer.result?_eq_some.1 hr] at hphase
    exact hphase.eq_of_overwrite

end Disk

end Docsmith
