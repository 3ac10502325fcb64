import Docsmith.Proofs.Sink.Race
/-!
# Sinks — one writer after the other

The sink lets each writer finish before the next one begins. That is one of
the orders in which the writers of a race may take their steps
(`writeAll_eq_race`), so what holds of every race holds of the sink: the
tree, the reserved paths and the results are those of the race.
-/


namespace Docsmith

namespace Disk

open Config (Collision)

variable {policy : Collision} {here : Place} {w : Writer} {d e : Disk} {s : Race} {i : Nat}

/-- The disks have the same tree and the same reserved paths. -/
def Alike (d e : Disk) : Prop :=
  d.tree = e.tree ∧ d.reserved = e.reserved

/-- A step reads nothing else of a disk. -/
theorem Alike.step (h : Alike d e) (policy : Collision) (here : Place) (w : Writer) :
    (w.step policy here d).1 = (w.step policy here e).1 ∧
      Alike (w.step policy here d).2 (w.step policy here e).2 := by
  -- the two disks differ only in the number of writes, which no step reads
  obtain ⟨t, reserved, n⟩ := d
  obtain ⟨t', reserved', m⟩ := e
  obtain ⟨rfl, rfl⟩ : t = t' ∧ reserved = reserved' := h
  unfold Writer.step
  cases w.phase with
  | look k =>
    dsimp only
    split
    · exact ⟨rfl, rfl, rfl⟩
    · exact ⟨rfl, rfl, rfl⟩
  | reserve k =>
    dsimp only
    split
    · exact ⟨rfl, rfl, rfl⟩
    · exact ⟨rfl, rfl, rfl⟩
  | prepare target =>
    dsimp only
    split
    · exact ⟨rfl, rfl, rfl⟩
    · exact ⟨rfl, rfl, rfl⟩
  | stage target =>
    dsimp only
    split
    · exact ⟨rfl, rfl, rfl⟩
    · exact ⟨rfl, rfl, rfl⟩
  | publish target =>
    dsimp only
    split
    · exact ⟨rfl, rfl, rfl⟩
    · exact ⟨rfl, rfl, rfl⟩
  | discard target f =>
    dsimp only
    split
    · exact ⟨rfl, rfl, rfl⟩
    · exact ⟨rfl, rfl, rfl⟩
  | done result => exact ⟨rfl, rfl, rfl⟩

/-- A step that is carried out, in a race. -/
theorem Race.step_carried (policy : Collision) (here : Place) (hw : s.writers[i]? = some w) :
    (s.step policy here ⟨i, .carried⟩).writers = s.writers.set i (w.step policy here s.disk).1 ∧
      (s.step policy here ⟨i, .carried⟩).disk = (w.step policy here s.disk).2 := by
  rw [step, hw]
  exact ⟨rfl, rfl⟩

/-- **A writer that runs undisturbed** takes steps of the race. -/
theorem exists_run_of_writer (count : Nat) (hw : s.writers[i]? = some w) (hd : Alike s.disk d) :
    ∃ events, (s.run policy here events).writers =
        s.writers.set i (w.run policy here count d).1 ∧
      Alike (s.run policy here events).disk (w.run policy here count d).2 := by
  have hself : ∀ {s : Race} {w : Writer}, s.writers[i]? = some w →
      s.writers.set i w = s.writers := by
    intro s w hw
    obtain ⟨hlen, rfl⟩ := List.getElem?_eq_some_iff.1 hw
    exact List.set_getElem_self hlen
  induction count generalizing s w d with
  | zero => exact ⟨[], (hself hw).symm, hd⟩
  | succ count ih =>
    rw [Writer.run]
    split
    · exact ⟨[], (hself hw).symm, hd⟩
    · obtain ⟨hwriters, hdisk⟩ := Race.step_carried policy here hw
      obtain ⟨hsame, halike⟩ := hd.step policy here w
      obtain ⟨hlen, -⟩ := List.getElem?_eq_some_iff.1 hw
      have hnext : (s.step policy here ⟨i, .carried⟩).writers[i]? =
          some (w.step policy here d).1 := by
        rw [hwriters, List.getElem?_set_self hlen, hsame]
      obtain ⟨events, hw', hd'⟩ := ih hnext (d := (w.step policy here d).2) (by rwa [hdisk])
      refine ⟨⟨i, .carried⟩ :: events, ?_, hd'⟩
      rw [Race.run, List.foldl_cons, ← Race.run, hw', hwriters, List.set_set]

/-- The writes of documents, numbered from some number on. -/
def callsFrom (n : Nat) : List Draft → List Call
  | [] => []
  | x :: drafts => ⟨x.path, x.content, nextToken ⟨⟨[]⟩, [], n⟩⟩ :: callsFrom (n + 1) drafts

/-- The writer of a write before its first step. -/
def Call.writer (policy : Collision) (c : Call) : Writer :=
  Writer.start policy c.path c.content c.token

/-- What the sink answers for a writer that has run. -/
def answer (x : Draft) (w : Writer) : Except Failure String :=
  w.result?.getD (.error (.output ("No free name for " ++ x.path)))

/-- Documents written one after the other, behind writers that are done. -/
theorem exists_run_of_writeAll (here : Place) (drafts : List Draft) {before : List Writer}
    (hw : s.writers = before ++ (callsFrom d.begun drafts).map (Call.writer policy))
    (hd : Alike s.disk d) : ∃ events after,
      (s.run policy here events).writers = before ++ after ∧
      Alike (s.run policy here events).disk ((Sink.disk policy here).writeAll drafts d).2 ∧
      ((Sink.disk policy here).writeAll drafts d).1 = List.zipWith answer drafts after := by
  induction drafts generalizing s d before with
  | nil => exact ⟨[], [], by simpa [callsFrom] using hw, hd, rfl⟩
  | cons x drafts ih =>
    have hfirst : s.writers[before.length]? =
        some (Writer.start policy x.path x.content d.nextToken) := by
      rw [hw, List.getElem?_append_right (Nat.le_refl _), Nat.sub_self]
      rfl
    obtain ⟨first, hw', hd'⟩ :=
      exists_run_of_writer d.patience hfirst hd
    generalize hrun : (Writer.start policy x.path x.content d.nextToken).run policy here
      d.patience d = out at hw' hd'
    have hwrite : (Sink.disk policy here).write x.path x.content d =
        (answer x out.1, { out.2 with begun := d.begun + 1 }) := by
      rw [← hrun]
      rfl
    -- what the writer leaves behind is where the next one begins
    have hrest : (s.run policy here first).writers = (before ++ [out.1]) ++
        (callsFrom (d.begun + 1) drafts).map (Call.writer policy) := by
      rw [hw', hw, List.set_append_right _ _ (Nat.le_refl _), Nat.sub_self]
      simp [callsFrom]
    obtain ⟨events, after, hafter, hdisk, hresults⟩ :=
      ih (d := { out.2 with begun := d.begun + 1 }) hrest hd'
    have hsplit : s.run policy here (first ++ events) =
        (s.run policy here first).run policy here events := List.foldl_append
    rw [Sink.writeAll, hwrite]
    refine ⟨first ++ events, out.1 :: after, ?_, ?_, ?_⟩
    · rw [hsplit, hafter, List.append_assoc]
      rfl
    · rw [hsplit]
      exact hdisk
    · rw [List.zipWith_cons_cons, ← hresults]

/-- **Writing documents in turn is a race**, in which every writer finishes
before the next one begins. -/
theorem writeAll_eq_race (policy : Collision) (here : Place) (t : FileTree) (drafts : List Draft) :
    ∃ events,
      (race policy here t (callsFrom 0 drafts) events).tree =
          ((Sink.disk policy here).writeAll drafts ⟨t, [], 0⟩).2.tree ∧
        (race policy here t (callsFrom 0 drafts) events).disk.reserved =
          ((Sink.disk policy here).writeAll drafts ⟨t, [], 0⟩).2.reserved ∧
        ((Sink.disk policy here).writeAll drafts ⟨t, [], 0⟩).1 =
          List.zipWith answer drafts (race policy here t (callsFrom 0 drafts) events).writers := by
  have hstart : (Race.start policy t (callsFrom 0 drafts)).writers =
      [] ++ (callsFrom 0 drafts).map (Call.writer policy) := rfl
  obtain ⟨events, after, hafter, ⟨htree, hreserved⟩, hresults⟩ :=
    exists_run_of_writeAll (d := ⟨t, [], 0⟩) here drafts hstart ⟨rfl, rfl⟩
  exact ⟨events, htree, hreserved, by rw [hresults, hafter]; rfl⟩

end Disk

end Docsmith
