import Docsmith.Proofs.Generation.Course
import Docsmith.Proofs.Generation.Session
import Docsmith.Proofs.Sink.Sequence
import Mathlib.Logic.Relation
/-!
# Generation — the run among the schedules

A run in which no stage is given up goes as one of the schedules has it
(`Job.exists_schedule_eq_run`): the stages take their turns one after the
other, in the order in which they are ready, each has one request answered
after the other, and every write rests before the next thing is done. So what
holds of a run on every schedule holds of the run itself.
-/


namespace Docsmith

/-! ## A line served in its order -/

namespace Model.Line

variable {reply : Call → Except Failure String} {slots : Nat}

/-- Something happens in a line in which something is left. -/
def Goes (slots : Nat) (reply : Call → Except Failure String) (l l' : Line) : Prop :=
  l.isOver = false ∧ ∃ m, l' = l.step slots reply m

/-- The calls of the only request under way get their replies, one after the
other. -/
theorem goes_replies {index : Nat} {r : Request} {waiting : List (Nat × Request)}
    {arrived : List Arrival} (done rest : List Call) (h : r.calls = done ++ rest) :
    Relation.ReflTransGen (Goes slots reply)
      ⟨waiting, [⟨index, r, (done.map fun c => some (reply c)) ++ rest.map fun _ => none⟩], arrived⟩
      ⟨waiting, [⟨index, r, r.calls.map fun c => some (reply c)⟩], arrived⟩ := by
  induction rest generalizing done with
  | nil =>
    rw [h, List.append_nil, List.map_nil, List.append_nil]
  | cons c rest ih =>
    refine .head ⟨by simp [isOver], .reply 0 done.length, ?_⟩ (ih (done ++ [c]) (by simp [h]))
    have hcall : r.calls[done.length]? = some c := by rw [h]; simp
    simp [step, hcall]

/-- Requests are answered one after the other. -/
theorem goes_over (hslots : 0 < slots) (requests : List (Nat × Request)) (arrived : List Arrival) :
    Relation.ReflTransGen (Goes slots reply) ⟨requests, [], arrived⟩
      ⟨[], [], arrived ++ requests.map (answered reply)⟩ := by
  induction requests generalizing arrived with
  | nil => rw [List.map_nil, List.append_nil]
  | cons entry requests ih =>
    obtain ⟨index, r⟩ := entry
    refine .head (b := ⟨requests, [⟨index, r, r.calls.map fun _ => none⟩], arrived⟩)
      ⟨rfl, .begin, by simp [step, hslots]⟩ ((goes_replies [] r.calls rfl).trans ?_)
    refine .head ⟨by simp [isOver], .finish 0, rfl⟩ ?_
    have hnext := ih (arrived ++ [answered reply (index, r)])
    rw [List.append_assoc] at hnext
    simpa [step, answered, Request.run, List.all_map, List.filterMap_map, Function.comp_def] using
      hnext

end Model.Line

/-! ## A write by itself -/

namespace Disk

variable {here : Place} {w : Writer} {d e : Disk} {n count : Nat}

/-- What is written and made on disks with the same tree and the same reserved
paths is the same. -/
theorem Alike.run (h : Alike d e) (policy : Config.Collision) (here : Place) (count : Nat)
    (w : Writer) : (w.run policy here count d).1 = (w.run policy here count e).1 ∧
      Alike (w.run policy here count d).2 (w.run policy here count e).2 := by
  induction count generalizing w d e with
  | zero => exact ⟨rfl, h⟩
  | succ count ih =>
    rw [Writer.run, Writer.run]
    split
    · exact ⟨rfl, h⟩
    · obtain ⟨hsame, halike⟩ := h.step policy here w
      have hnext := ih halike (w.step policy here e).1
      dsimp only
      rw [hsame]
      exact hnext

theorem Alike.patience (h : Alike d e) : d.patience = e.patience := by
  rw [Disk.patience, Disk.patience, h.1, h.2]

/-- A write with the token that one disk would give, on the other one. -/
theorem Alike.write (h : Alike d e) (policy : Config.Collision) (here : Place)
    (path content : String) :
    (Disk.writeAs policy here path content e.nextToken d).1 =
        (Disk.write policy here path content e).1 ∧
      Alike ((Writer.start policy path content e.nextToken).run policy here d.patience d).2
        (Disk.write policy here path content e).2 := by
  obtain ⟨hsame, halike⟩ :=
    h.run policy here e.patience (Writer.start policy path content e.nextToken)
  unfold Disk.writeAs Disk.write
  rw [h.patience]
  dsimp only
  exact ⟨by rw [hsame], halike⟩

theorem tree_writeAs (policy : Config.Collision) (here : Place) (path content token : String)
    (d : Disk) : (Disk.writeAs policy here path content token d).2.tree =
      ((Writer.start policy path content token).run policy here d.patience d).2.tree := by
  unfold Disk.writeAs
  generalize (Writer.start policy path content token).run policy here d.patience d = out
  rfl

theorem begun_write (policy : Config.Collision) (here : Place) (path content : String) (d : Disk) :
    (Disk.write policy here path content d).2.begun = d.begun + 1 :=
  rfl

theorem Alike.ensureDirectory (h : Alike d e) (here : Place) (path : String) :
    (Disk.ensureDirectory here path d).1 = (Disk.ensureDirectory here path e).1 ∧
      Alike (Disk.ensureDirectory here path d).2 (Disk.ensureDirectory here path e).2 := by
  unfold Disk.ensureDirectory
  rw [h.1]
  split
  · exact ⟨rfl, rfl, h.2⟩
  · exact ⟨rfl, rfl, h.2⟩

theorem begun_ensureDirectory (here : Place) (path : String) (d : Disk) :
    (Disk.ensureDirectory here path d).2.begun = d.begun := by
  unfold Disk.ensureDirectory
  split
  · rfl
  · rfl

/-- How many steps a writer has left at most once it does not search any more. -/
def Phase.left? : Phase → Option Nat
  | .look _ | .reserve _ => none
  | .prepare _ => some 4
  | .stage _ => some 3
  | .publish _ => some 2
  | .discard _ _ => some 1
  | .done _ => some 0

theorem Writer.step_left (policy : Config.Collision) (here : Place) (d : Disk)
    (h : w.phase.left? = some (n + 1)) :
    ∃ m ≤ n, (w.step policy here d).1.phase.left? = some m := by
  unfold Writer.step
  cases hphase : w.phase with
  | look k => rw [hphase] at h; cases h
  | reserve k => rw [hphase] at h; cases h
  | done result => rw [hphase] at h; cases h
  | prepare target =>
    rw [hphase] at h
    cases h
    dsimp only
    split
    · exact ⟨3, Nat.le_refl 3, rfl⟩
    · exact ⟨0, Nat.zero_le 3, by rw [Writer.refused, hphase]; rfl⟩
  | stage target =>
    rw [hphase] at h
    cases h
    dsimp only
    split
    · exact ⟨2, Nat.le_refl 2, rfl⟩
    · exact ⟨1, by decide, by rw [Writer.refused, hphase]; rfl⟩
  | publish target =>
    rw [hphase] at h
    cases h
    dsimp only
    split
    · exact ⟨0, Nat.zero_le 1, rfl⟩
    · exact ⟨1, Nat.le_refl 1, by rw [Writer.refused, hphase]; rfl⟩
  | discard target f =>
    rw [hphase] at h
    cases h
    dsimp only
    split
    · exact ⟨0, Nat.le_refl 0, rfl⟩
    · exact ⟨0, Nat.le_refl 0, by rw [Writer.refused, hphase]; rfl⟩

theorem Writer.exists_result (h : w.phase.left? = some 0) : ∃ result, w.result? = some result := by
  unfold Writer.result?
  cases hphase : w.phase with
  | done result => exact ⟨result, rfl⟩
  | _ => rw [hphase] at h; cases h

/-- A writer that has time enough comes to rest. -/
theorem Writer.run_rests (policy : Config.Collision) (here : Place) (d : Disk)
    (h : w.phase.left? = some n) (hn : n ≤ count) :
    ∃ result, (w.run policy here count d).1.result? = some result := by
  induction count generalizing w d n with
  | zero =>
    obtain rfl : n = 0 := Nat.le_zero.1 hn
    exact Writer.exists_result h
  | succ count ih =>
    rw [Writer.run]
    split
    · next hrests => exact Option.isSome_iff_exists.1 hrests
    · next hmoves =>
      cases n with
      | zero => exact absurd (Option.isSome_iff_exists.2 (Writer.exists_result h)) hmoves
      | succ n =>
        obtain ⟨m, hm, hleft⟩ := w.step_left policy here d h
        exact ih _ hleft (by omega)

/-- **An overwriting writer comes to rest** in the time that the disk gives it. -/
theorem exists_result_of_overwrite (here : Place) (path content token : String) (d : Disk) :
    ∃ result, ((Writer.start .overwrite path content token).run .overwrite here d.patience
      d).1.result? = some result :=
  Writer.run_rests (n := 4) .overwrite here d rfl (by unfold Disk.patience; omega)

end Disk

namespace Sink

variable {σ : Type}

theorem recorded_write (sink : Sink σ) (path content : String) (past : List Deed) (s : σ) :
    sink.recorded.write path content (past, s) = ((sink.write path content s).1,
      past ++ [.wrote ⟨path, content⟩ (sink.write path content s).1],
      (sink.write path content s).2) :=
  rfl

theorem recorded_ensureDirectory (sink : Sink σ) (path : String) (past : List Deed) (s : σ) :
    sink.recorded.ensureDirectory path (past, s) = ((sink.ensureDirectory path s).1,
      past ++ [.made path (sink.ensureDirectory path s).1], (sink.ensureDirectory path s).2) :=
  rfl

end Sink

namespace Generation

open Disk Document Model Sink

variable {c : Setting} {stage n : Nat} {w : Worker} {d e : Disk} {log : List Act} {v : Writer}
variable {next : Except Failure String → Script} {here : Place}

/-! ## A stage by itself -/

/-- One turn of a stage that has the disk to itself: the stage, the disk and what
was asked of it, before and after. -/
def Worker.Goes (c : Setting) (stage : Nat) (x y : Worker × Disk × List Act) : Prop :=
  ∃ move, y = ((x.1.step c stage move x.2.1).1, (x.1.step c stage move x.2.1).2.1,
    x.2.2 ++ (x.1.step c stage move x.2.1).2.2)

/-- Some turns of a stage. -/
def Worker.Comes (c : Setting) (stage : Nat) : (x y : Worker × Disk × List Act) → Prop :=
  Relation.ReflTransGen (Worker.Goes c stage)

theorem Worker.Comes.of_step {w' : Worker} {d' : Disk} {acts : List Act} (move : Line.Move)
    (h : w.step c stage move d = (w', d', acts)) :
    Worker.Comes c stage (w, d, log) (w', d', log ++ acts) :=
  .single ⟨move, by rw [h]⟩

/-- A turn in which nothing is asked of the disk. -/
theorem Worker.Comes.of_quiet_step {w' : Worker} {d' : Disk} (move : Line.Move)
    (h : w.step c stage move d = (w', d', [])) :
    Worker.Comes c stage (w, d, log) (w', d', log) := by
  have hstep : Worker.Comes c stage (w, d, log) (w', d', log ++ []) := .of_step move h
  rwa [List.append_nil] at hstep

/-- A stage has its requests answered one after the other. -/
theorem Worker.comes_ask (hslots : 0 < c.slots) (requests : List (Nat × Request))
    (next : List Arrival → Script) :
    Worker.Comes c stage (⟨.ready (.ask requests next), n⟩, d, log)
      (⟨.ready (next (requests.map (answered c.reply))), n⟩, d, log) := by
  have hline : Worker.Comes c stage (⟨.asking ⟨requests, [], []⟩ next, n⟩, d, log)
      (⟨.asking ⟨[], [], requests.map (answered c.reply)⟩ next, n⟩, d, log) := by
    have hover : Relation.ReflTransGen (Line.Goes c.slots c.reply) ⟨requests, [], []⟩ _ :=
      Line.goes_over hslots requests []
    refine hover.lift (fun l : Line => ((⟨.asking l next, n⟩, d, log) : Worker × Disk × List Act)) ?_
    rintro l _ ⟨hover, m, rfl⟩
    refine ⟨m, ?_⟩
    unfold Worker.step
    dsimp only
    rw [hover, if_neg Bool.false_ne_true, List.append_nil]
  exact .trans (Comes.of_quiet_step .begin rfl) (.trans hline (Comes.of_quiet_step .begin rfl))

/-- A stage at a write lets it take its steps. -/
theorem Worker.comes_writing (count : Nat) : Worker.Comes c stage (⟨.writing v next, n⟩, d, log)
    (⟨.writing (v.run c.policy c.here count d).1 next, n⟩, (v.run c.policy c.here count d).2,
      log) := by
  induction count generalizing v d with
  | zero => exact .refl
  | succ count ih =>
    rw [Writer.run]
    split
    · exact .refl
    · next hmoves =>
      rw [Option.not_isSome_iff_eq_none] at hmoves
      have hstep : (⟨.writing v next, n⟩ : Worker).step c stage .begin d =
          (⟨.writing (v.step c.policy c.here d).1 next, n⟩, (v.step c.policy c.here d).2, []) := by
        unfold Worker.step
        dsimp only
        rw [hmoves]
      exact .trans (Comes.of_quiet_step .begin hstep) ih

/-- A stage writes a document. -/
theorem Worker.comes_write (hp : c.policy = .overwrite) (x : Draft) :
    Worker.Comes c stage (⟨.ready (.write x next), n⟩, d, log)
      (⟨.ready (next (Disk.writeAs .overwrite c.here x.path x.content (c.token stage n) d).1), n + 1⟩,
        ((Writer.start .overwrite x.path x.content (c.token stage n)).run .overwrite c.here
          d.patience d).2,
        log ++ [.wrote x.path
          (Disk.writeAs .overwrite c.here x.path x.content (c.token stage n) d).1]) := by
  refine .trans (Comes.of_quiet_step .begin rfl) (.trans (comes_writing d.patience) ?_)
  rw [hp]
  have hpath := ((Writer.Serves.start .overwrite ⟨x.path, x.content, c.token stage n⟩).run c.here
    d.patience d).path
  dsimp only at hpath
  obtain ⟨result, hresult⟩ :=
    exists_result_of_overwrite c.here x.path x.content (c.token stage n) d
  have hanswer : (Disk.writeAs .overwrite c.here x.path x.content (c.token stage n) d).1 = result := by
    unfold Disk.writeAs
    dsimp only
    rw [hresult]
    rfl
  rw [hanswer]
  refine Comes.of_step .begin ?_
  unfold Worker.step
  dsimp only
  rw [hresult, hpath]

/-- **A stage by itself does what its script does** on the disk with a transcript, if
its writes have the tokens that the disk gives. -/
theorem Script.comes (hp : c.policy = .overwrite) (hslots : 0 < c.slots) (stage : Nat)
    (script : Script) (n : Nat) (d e : Disk) (past : List Deed) (halike : Alike d e)
    (htoken : ∀ k, c.token stage (n + k) = nextToken ⟨⟨[]⟩, [], e.begun + k⟩) : ∃ n' d',
      Worker.Comes c stage (⟨.ready script, n⟩, d, past.map Deed.act)
        (⟨.ready (.rest
          (script.play (Sink.disk .overwrite c.here).recorded c.reply (past, e)).1), n'⟩, d',
          (script.play (Sink.disk .overwrite c.here).recorded c.reply (past, e)).2.1.map Deed.act) ∧
      Alike d' (script.play (Sink.disk .overwrite c.here).recorded c.reply (past, e)).2.2 := by
  induction script generalizing n d e past with
  | rest outcome => exact ⟨n, d, .refl, halike⟩
  | ask requests next ih =>
    obtain ⟨n', d', hcomes, hd⟩ := ih (requests.map (answered c.reply)) n d e past halike htoken
    exact ⟨n', d', (Worker.comes_ask hslots requests next).trans hcomes, hd⟩
  | make directory next ih =>
    obtain ⟨hsame, hnext⟩ := halike.ensureDirectory c.here directory
    obtain ⟨n', d', hcomes, hd⟩ := ih (Disk.ensureDirectory c.here directory e).1 n
      (Disk.ensureDirectory c.here directory d).2 (Disk.ensureDirectory c.here directory e).2
      (past ++ [.made directory (Disk.ensureDirectory c.here directory e).1]) hnext
      (by rwa [begun_ensureDirectory])
    have hmake : Worker.Comes c stage (⟨.ready (.make directory next), n⟩, d, past.map Deed.act)
        (⟨.ready (next (Disk.ensureDirectory c.here directory d).1), n⟩,
          (Disk.ensureDirectory c.here directory d).2,
          past.map Deed.act ++ [.made directory (Disk.ensureDirectory c.here directory d).1]) :=
      .of_step .begin rfl
    rw [List.map_append] at hcomes
    rw [hsame] at hmake
    have hsink : (Sink.disk .overwrite c.here).ensureDirectory = Disk.ensureDirectory c.here := rfl
    rw [Script.play, recorded_ensureDirectory, hsink]
    dsimp only
    exact ⟨n', d', hmake.trans hcomes, hd⟩
  | write x next ih =>
    have hfirst : c.token stage n = e.nextToken := htoken 0
    obtain ⟨hsame, hnext⟩ := halike.write .overwrite c.here x.path x.content
    have hwrite : Worker.Comes c stage (⟨.ready (.write x next), n⟩, d,
        past.map Deed.act) _ := Worker.comes_write hp x
    rw [hfirst, hsame] at hwrite
    -- the worker's disk does not count the writes, and nothing reads the count
    obtain ⟨n', d', hcomes, hd⟩ := ih (Disk.write .overwrite c.here x.path x.content e).1 (n + 1)
      ((Writer.start .overwrite x.path x.content e.nextToken).run .overwrite c.here d.patience d).2
      (Disk.write .overwrite c.here x.path x.content e).2
      (past ++ [.wrote x (Disk.write .overwrite c.here x.path x.content e).1])
      hnext (fun k => by
        have hlater := htoken (k + 1)
        rwa [Nat.add_comm k 1, ← Nat.add_assoc, ← Nat.add_assoc, ← begun_write .overwrite c.here
          x.path x.content] at hlater)
    have hsink : (Sink.disk .overwrite c.here).write = Disk.write .overwrite c.here := rfl
    rw [Script.play, recorded_write, hsink]
    rw [List.map_append] at hcomes
    dsimp only
    exact ⟨n', d', hwrite.trans hcomes, hd⟩

/-! ## Stages one after the other -/

/-- Turns of one stage as turns of the stages at work together. -/
theorem Session.exists_run_of_comes {x y : Worker × Disk × List Act}
    (h : Worker.Comes c stage x y) (workers : List Worker) (hw : workers[stage]? = some x.1) :
    ∃ events, Session.run c ⟨x.2.1, workers, x.2.2⟩ events =
      ⟨y.2.1, workers.set stage y.1, y.2.2⟩ := by
  induction h using Relation.ReflTransGen.head_induction_on generalizing workers with
  | refl =>
    obtain ⟨hlen, hself⟩ := List.getElem?_eq_some_iff.1 hw
    refine ⟨[], ?_⟩
    rw [← hself, List.set_getElem_self]
    rfl
  | @head x z hgo _ ih =>
    obtain ⟨move, rfl⟩ := hgo
    obtain ⟨hlen, -⟩ := List.getElem?_eq_some_iff.1 hw
    have hstep : Session.step c ⟨x.2.1, workers, x.2.2⟩ ⟨stage, move⟩ =
        ⟨(x.1.step c stage move x.2.1).2.1, workers.set stage (x.1.step c stage move x.2.1).1,
          x.2.2 ++ (x.1.step c stage move x.2.1).2.2⟩ := by
      simp only [Session.step, hw]
    obtain ⟨events, hrun⟩ := ih _ (List.getElem?_set_self hlen)
    refine ⟨⟨stage, move⟩ :: events, ?_⟩
    rw [List.set_set] at hrun
    rw [Session.run, List.foldl_cons, hstep]
    exact hrun

/-- A setting in which requests are answered one at a time. -/
def Setting.single (reply : Model.Call → Except Failure String) (here : Place)
    (token : (stage write : Nat) → String) : Setting :=
  ⟨reply, .overwrite, here, 1, token⟩

/-- A stage of a sink with a transcript, its script, and its number among the stages
at work together. -/
structure Cue where
  script : Script
  stage : Stage (List Deed × Disk)
  number : Nat

/-- The script does what the stage does, and the outcome has the stage's name. -/
structure Cue.Sound (reply : Model.Call → Except Failure String) (here : Place) (x : Cue) : Prop where
  play : ∀ s, x.script.play (Sink.disk .overwrite here).recorded reply s = x.stage.act s
  name : ∀ s, (x.stage.act s).1.stage = x.stage.name

/-- **Stages that act one after the other** on the disk with a transcript: some
schedule has them do so, once it is known which number the first write of each
stage has. -/
theorem exists_run_actAll {reply : Model.Call → Except Failure String} {order : List Cue}
    (hsound : ∀ x ∈ order, x.Sound reply here) (hnodup : (order.map (·.number)).Nodup)
    (past : List Deed) (e : Disk) : ∃ base : Nat → Nat,
      ∀ (token : Nat → Nat → String) (d : Disk) (workers : List Worker),
      (∀ x ∈ order, ∀ k, token x.number k = nextToken ⟨⟨[]⟩, [], base x.number + k⟩) →
      Alike d e → (∀ x ∈ order, workers[x.number]? = some ⟨.ready x.script, 0⟩) →
      ∃ events s, s = Session.run (.single reply here token) ⟨d, workers, past.map Deed.act⟩ events ∧
        Alike s.disk (Stage.actAll (order.map (·.stage)) (past, e)).2.2 ∧
        s.log = (Stage.actAll (order.map (·.stage)) (past, e)).2.1.map Deed.act ∧
        (∀ i ∉ order.map (·.number), s.workers[i]? = workers[i]?) ∧
        List.Forall₂ (fun x o => o.stage = x.stage.name ∧
          ∃ n, s.workers[x.number]? = some ⟨.ready (.rest o), n⟩) order
          (Stage.actAll (order.map (·.stage)) (past, e)).1 := by
  induction order generalizing past e with
  | nil => exact ⟨fun _ => 0, fun token d workers _ halike _ =>
      ⟨[], _, rfl, halike, rfl, fun _ _ => rfl, .nil⟩⟩
  | cons x order ih =>
    rw [List.map_cons, List.nodup_cons] at hnodup
    obtain ⟨base, hrest⟩ := ih (fun y hy => hsound y (List.mem_cons_of_mem x hy)) hnodup.2
      (x.stage.act (past, e)).2.1 (x.stage.act (past, e)).2.2
    have hother : ∀ y ∈ order, x.number ≠ y.number := fun y hy heq =>
      hnodup.1 (heq ▸ List.mem_map_of_mem (f := Cue.number) hy)
    refine ⟨fun i => if i = x.number then e.begun else base i,
      fun token d workers htoken halike hw => ?_⟩
    -- the first stage does its work, and the others have not begun
    obtain ⟨n, d', hcomes, hd'⟩ := Script.comes (c := .single reply here token) rfl Nat.one_pos
      x.number x.script 0 d e past halike fun k => by
        have hfirst := htoken x List.mem_cons_self k
        dsimp only at hfirst
        rw [if_pos rfl] at hfirst
        rwa [Nat.zero_add]
    rw [show (Setting.single reply here token).here = here from rfl,
      show (Setting.single reply here token).reply = reply from rfl,
      (hsound x List.mem_cons_self).play] at hcomes hd'
    have hx := hw x List.mem_cons_self
    obtain ⟨hlen, -⟩ := List.getElem?_eq_some_iff.1 hx
    obtain ⟨first, hfirst⟩ := Session.exists_run_of_comes hcomes workers hx
    -- the others find what it leaves
    obtain ⟨events, s, hrun, hdisk, hlog, hsame, houtcomes⟩ := hrest token d'
      (workers.set x.number ⟨.ready (.rest (x.stage.act (past, e)).1), n⟩)
      (fun y hy k => by
        have hlater := htoken y (List.mem_cons_of_mem x hy) k
        dsimp only at hlater
        rwa [if_neg (hother y hy).symm] at hlater)
      hd' (fun y hy => by
        rw [List.getElem?_set_ne (hother y hy)]
        exact hw y (List.mem_cons_of_mem x hy))
    refine ⟨first ++ events, s, ?_, hdisk, hlog, fun i hi => ?_, .cons ⟨?_, n, ?_⟩ houtcomes⟩
    · rw [Session.run_append]
      exact hrun.trans (congrArg (Session.run _ · events) hfirst.symm)
    · rw [List.map_cons, List.mem_cons, not_or] at hi
      rw [hsame i hi.2, List.getElem?_set_ne (Ne.symm hi.1)]
    · exact (hsound x List.mem_cons_self).name (past, e)
    · rw [hsame x.number hnodup.1, List.getElem?_set_self hlen]

/-- An outcome is found by the name of its stage. -/
theorem exists_find?_outcome {R : Cue → Outcome → Prop} {order : List Cue} {outcomes : List Outcome}
    (h : List.Forall₂ (fun x o => o.stage = x.stage.name ∧ R x o) order outcomes)
    (hnames : (order.map (·.stage.name)).Nodup) {x : Cue} (hx : x ∈ order) :
    ∃ o, outcomes.find? (·.stage == x.stage.name) = some o ∧ R x o := by
  induction h with
  | nil => cases hx
  | @cons y o order outcomes hfirst _ ih =>
    rw [List.map_cons, List.nodup_cons] at hnames
    rcases List.mem_cons.1 hx with rfl | hx
    · exact ⟨o, List.find?_cons_of_pos (by simp [hfirst.1]), hfirst.2⟩
    · have hne : o.stage ≠ x.stage.name := by
        rw [hfirst.1]
        exact fun heq => hnames.1 (heq ▸ List.mem_map_of_mem (f := fun y : Cue => y.stage.name) hx)
      rw [List.find?_cons_of_neg (by simpa using hne)]
      exact ih hnames.2 hx

/-! ## The run -/

namespace Job

variable {j : Job}

/-- A stage that is never given up does what its script does. -/
theorem act_elementStage {σ : Type} (h : j.Finishes) (sink : Sink σ) (s : σ) :
    j.elementScript.play sink j.reply s = (j.elementStage sink).act s := by
  unfold elementStage
  dsimp only
  split_ifs with hnone
  · rw [elementScript, if_pos hnone]
    rfl
  · have hsome : j.analysis.elements ≠ [] := List.isEmpty_iff.not.1 hnone
    refine (Stage.act_timed_of_not_late (j.does_elementScript hsome) (fun deeds outcome hruns => ?_)
      sink s).symm
    obtain ⟨results, hlength, rfl, -⟩ := pages_of_runs hsome hruns
    rw [List.length_zipWith, hlength, Nat.min_self]
    exact h.pages hsome

theorem act_testStage {σ : Type} (h : j.Finishes) (sink : Sink σ) (s : σ) :
    j.testScript.play sink j.reply s = (j.testStage sink).act s := by
  unfold testStage
  dsimp only
  split_ifs with hnone
  · rw [testScript, if_pos hnone]
    rfl
  · have hsome : j.output.unitTests = true := by simpa using hnone
    refine (Stage.act_timed_of_not_late (j.does_testScript hsome) (fun deeds outcome hruns => ?_)
      sink s).symm
    obtain ⟨result, rfl, -⟩ := testPage_of_runs hsome hruns
    exact h.tests hsome

theorem act_diagramStage {σ : Type} (h : j.Finishes) (sink : Sink σ) (s : σ) :
    j.diagramScript.play sink j.reply s = (j.diagramStage sink).act s := by
  unfold diagramStage
  dsimp only
  split_ifs with hnone
  · rw [diagramScript, if_pos hnone]
    rfl
  · have hsome : Diagram.Format.enabled j.output ≠ [] := List.isEmpty_iff.not.1 hnone
    refine (Stage.act_timed_of_not_late (j.does_diagramScript hsome) (fun deeds outcome hruns => ?_)
      sink s).symm
    obtain ⟨out, hdone, -⟩ := formats_of_runs hsome hruns
    exact fun hlate => h.diagrams ((hdone.late_iff.1 hlate).of_sublist (List.nil_sublist _))

/-- The stages with their scripts; the overview's stage has number zero. -/
def cues (j : Job) (sink : Sink (List Deed × Disk)) : List Cue :=
  [⟨j.elementScript, j.elementStage sink, 1⟩, ⟨j.testScript, j.testStage sink, 2⟩,
    ⟨j.diagramScript, j.diagramStage sink, 3⟩]

theorem names_cues (j : Job) (sink : Sink (List Deed × Disk)) :
    (j.cues sink).map (·.stage.name) = ["element documentation", "unit tests", "diagrams"] := by
  unfold cues elementStage testStage diagramStage
  simp only [List.map_cons, List.map_nil]
  split_ifs <;> rfl

theorem cues_sound (h : j.Finishes) :
    ∀ x ∈ j.cues (Sink.disk .overwrite here).recorded, x.Sound j.reply here := by
  have hname : ∀ x ∈ j.parts (Sink.disk .overwrite here), ∀ s, (x.stage.act s).1.stage =
      x.stage.name := by
    intro x hx s
    obtain ⟨hstage, -, hact, hfits⟩ := j.parts_sound (Sink.disk .overwrite here) x hx
    obtain ⟨deeds, heq, -, hdone⟩ := hact s.1 s.2
    rw [heq, hstage]
    exact hfits hdone
  intro x hx
  simp only [cues, List.mem_cons, List.not_mem_nil, or_false] at hx
  rcases hx with rfl | rfl | rfl
  · exact ⟨act_elementStage h _, hname _ List.mem_cons_self⟩
  · exact ⟨act_testStage h _, hname _ (List.mem_cons_of_mem _ List.mem_cons_self)⟩
  · exact ⟨act_diagramStage h _, hname _
      (List.mem_cons_of_mem _ (List.mem_cons_of_mem _ List.mem_cons_self))⟩

/-- A stage has a place of its own among those at work together. -/
theorem session_of_mem_cues {sink : Sink (List Deed × Disk)} {x : Cue} (h : x ∈ j.cues sink)
    (made : Disk) :
    x.number ≠ 0 ∧ (j.session made).workers[x.number]? = some ⟨.ready x.script, 0⟩ := by
  simp only [cues, List.mem_cons, List.not_mem_nil, or_false] at h
  rcases h with rfl | rfl | rfl
  · exact ⟨Nat.succ_ne_zero 0, rfl⟩
  · exact ⟨Nat.succ_ne_zero 1, rfl⟩
  · exact ⟨Nat.succ_ne_zero 2, rfl⟩

/-- Stages whose outcomes are found by their names have ended with them, in their
own order. -/
theorem outcomes?_of_cues {sink : Sink (List Deed × Disk)} {s : Session} {outcomes : List Outcome}
    (hlength : s.workers.length = 4)
    (hzero : s.workers[0]? = some ⟨.ready (.rest j.overview), 0⟩)
    (hfound : ∀ x ∈ j.cues sink, ∃ o, outcomes.find? (·.stage == x.stage.name) = some o ∧
      ∃ n, s.workers[x.number]? = some ⟨.ready (.rest o), n⟩) :
    s.outcomes? = some (j.overview :: (j.stages sink).filterMap fun stage =>
      outcomes.find? (·.stage == stage.name)) := by
  simp only [cues, List.mem_cons, List.not_mem_nil, or_false, forall_eq_or_imp, forall_eq] at hfound
  obtain ⟨⟨o₁, h₁, n₁, hw₁⟩, ⟨o₂, h₂, n₂, hw₂⟩, o₃, h₃, n₃, hw₃⟩ := hfound
  rw [Session.outcomes?_eq_some_iff]
  simp only [stages, List.filterMap_cons, h₁, h₂, h₃, List.filterMap_nil]
  refine List.ext_getElem? fun i => ?_
  rw [List.getElem?_map]
  rcases i with _ | _ | _ | _ | i
  · rw [hzero]; rfl
  · rw [hw₁]; rfl
  · rw [hw₂]; rfl
  · rw [hw₃]; rfl
  · rw [List.getElem?_eq_none_iff.2 (by omega)]
    rfl

/-- The stages of a run, one after the other, in the order in which they are
ready. -/
theorem exists_run_stages (h : j.Finishes) (made : Disk) {out : List Outcome × List Deed × Disk}
    (hout : Stage.run (j.stages (Sink.disk .overwrite here).recorded)
      ([.made j.output.directory (.ok ())], made) = out) :
    ∃ (token : Nat → Nat → String) (events : List Tick) (s : Session),
      s = (j.session made).run (.single j.reply here token) events ∧
      s.outcomes? = some (j.overview :: out.1) ∧ Alike s.disk out.2.2 ∧
      s.log = out.2.1.map Deed.act ∧
      token 0 0 = out.2.2.nextToken := by
  let cues := j.cues (Sink.disk .overwrite here).recorded
  let order := cues.mergeSort fun x y => x.stage.timeline.finish ≤ y.stage.timeline.finish
  have hperm : order.Perm cues := List.mergeSort_perm _ _
  have hready : order.map (·.stage) = (j.stages (Sink.disk .overwrite here).recorded).mergeSort
      fun a b => a.timeline.finish ≤ b.timeline.finish :=
    List.map_mergeSort fun x _ y _ => rfl
  have hnumbers : (order.map (·.number)).Nodup :=
    (hperm.map Cue.number).nodup_iff.2 (by decide : [1, 2, 3].Nodup)
  have hnames : (order.map (·.stage.name)).Nodup := by
    refine (hperm.map fun x : Cue => x.stage.name).nodup_iff.2 ?_
    rw [j.names_cues]
    decide
  obtain ⟨base, hacts⟩ := exists_run_actAll
    (fun x hx => cues_sound h x (hperm.mem_iff.1 hx)) hnumbers
    [.made j.output.directory (.ok ())] made
  rw [hready] at hacts
  unfold Stage.run at hout
  dsimp only at hout
  generalize Stage.actAll _ _ = acted at hacts hout
  subst hout
  -- the overview's token is the one that the disk gives after all other writes
  let token : Nat → Nat → String := fun stage write =>
    nextToken ⟨⟨[]⟩, [], (if stage = 0 then acted.2.2.begun else base stage) + write⟩
  have htoken : ∀ x ∈ order, ∀ k, token x.number k = nextToken ⟨⟨[]⟩, [], base x.number + k⟩ := by
    intro x hx k
    obtain ⟨hpos, -⟩ := session_of_mem_cues (hperm.mem_iff.1 hx) made
    simp [token, hpos]
  have hworkers : ∀ x ∈ order, (j.session made).workers[x.number]? = some ⟨.ready x.script, 0⟩ := by
    intro x hx
    exact (session_of_mem_cues (hperm.mem_iff.1 hx) made).2
  obtain ⟨events, s, hrun, hdisk, hlog, hsame, houtcomes⟩ :=
    hacts token made (j.session made).workers htoken ⟨rfl, rfl⟩ hworkers
  refine ⟨token, events, s, hrun, ?_, hdisk, hlog, rfl⟩
  have hzero : s.workers[0]? = some ⟨.ready (.rest j.overview), 0⟩ := by
    refine (hsame 0 fun hzero => ?_).trans rfl
    obtain ⟨x, hx, hnumber⟩ := List.mem_map.1 hzero
    exact (session_of_mem_cues (hperm.mem_iff.1 hx) made).1 hnumber
  refine outcomes?_of_cues (by rw [hrun, Session.length_run]; rfl) hzero fun x hx => ?_
  exact exists_find?_outcome houtcomes hnames (hperm.mem_iff.2 hx)

/-- **The run goes as one of the schedules has it**, if it overwrites and no stage
is given up: it answers the same, asks the same of the disk, and leaves the same
tree. -/
theorem exists_schedule_eq_run (hpolicy : j.output.collision = .overwrite) (h : j.Finishes)
    (d : Disk) :
    ∃ (m : Schedule) (e : Ending), j.follow here m d = some e ∧
      e.result = (j.run (Sink.disk .overwrite here) d).result ∧
      e.log = j.log (Sink.disk .overwrite here) d ∧
      e.disk.tree = (j.run (Sink.disk .overwrite here) d).state.tree := by
  -- a transcript makes no difference to the run
  obtain ⟨hresult, hstate, -, -⟩ := j.course_transcript (Sink.disk .overwrite here) d
  rw [← hresult, ← hstate, Job.log, transcript]
  have hsink : (Sink.disk .overwrite here).ensureDirectory = Disk.ensureDirectory here := rfl
  unfold follow Job.run
  rw [recorded_ensureDirectory, hsink]
  obtain ⟨made, disk⟩ := Disk.ensureDirectory here j.output.directory d
  cases made with
  | error f => exact ⟨⟨1, fun _ _ => "", []⟩, _, rfl, rfl, rfl, rfl⟩
  | ok _ =>
    dsimp only [List.nil_append]
    obtain ⟨outcomes, log, e, hout⟩ : ∃ outcomes log e,
        Stage.run (j.stages (Sink.disk .overwrite here).recorded)
          ([.made j.output.directory (.ok ())], disk) = (outcomes, log, e) := ⟨_, _, _, rfl⟩
    obtain ⟨token, events, s, hrun, hended, halike, hlog, htoken⟩ :=
      exists_run_stages h disk hout
    dsimp only at hended halike hlog htoken
    have hwrite : (Sink.disk .overwrite here).write = Disk.write .overwrite here := rfl
    simp only [writeAll, hout, recorded_write, hwrite]
    -- the overview is written in both runs with the token that the disk gives
    obtain ⟨hsame, hleft⟩ := halike.write .overwrite here j.overviewPath
      (Overview.compose j.overview outcomes)
    refine ⟨⟨1, token, events⟩, ?_⟩
    have hsetting : j.setting here ⟨1, token, events⟩ = .single j.reply here token := by
      rw [setting, hpolicy]
      rfl
    rw [hsetting, ← hrun, hended, hpolicy]
    dsimp only
    have htree := (tree_writeAs .overwrite here j.overviewPath
      (Overview.compose j.overview outcomes) e.nextToken s.disk).trans hleft.1
    rw [htoken]
    generalize Disk.writeAs .overwrite here j.overviewPath (Overview.compose j.overview outcomes)
      e.nextToken s.disk = scheduled at hsame htree
    generalize Disk.write .overwrite here j.overviewPath (Overview.compose j.overview outcomes) e =
      plain at hsame htree
    refine ⟨_, rfl, ?_, ?_, htree⟩
    · dsimp only
      rw [hsame]
      cases plain.1 with
      | ok path => rfl
      | error f => rfl
    · dsimp only
      rw [hsame, hlog, List.map_append]
      rfl

end Job

end Generation

end Docsmith
