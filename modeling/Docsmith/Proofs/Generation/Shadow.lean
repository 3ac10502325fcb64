import Docsmith.Proofs.Generation.Session
import Docsmith.Proofs.Sink.Aftermath
import Docsmith.Proofs.Sink.Sequence
/-!
# Generation — stages and their shadows

What stages at work together do to the disk is what the writers of one race
do who have all been there from the start and now and then find a new
directory (`Session.Shadows`): a writer that has not moved stands for a write
that no stage has begun, and one that rests for a write that is done. In a
run in which nothing fails every turn of a stage keeps it so
(`Session.Shadows.step`), in whatever order the turns and the answers come.
-/


namespace Docsmith.Generation

open Disk Document Model Sink

/-! ## Writes and their writers -/

/-- The writes of some documents, with the tokens from some number on. -/
def numbered (token : Nat → String) : Nat → List Draft → List Disk.Call
  | _, [] => []
  | n, x :: drafts => ⟨x.path, x.content, token n⟩ :: numbered token (n + 1) drafts

theorem map_draft_numbered (token : Nat → String) (n : Nat) (drafts : List Draft) :
    (numbered token n drafts).map Call.draft = drafts := by
  induction drafts generalizing n with
  | nil => rfl
  | cons x drafts ih =>
    rw [numbered, List.map_cons, ih]
    rfl

/-- The writes of a script, if nothing fails. -/
def Script.calls (c : Setting) (stage : Nat) (script : Script) : List Disk.Call :=
  numbered (c.token stage) 0 (script.drafts c.reply)

variable {c : Setting} {allowed : String → Prop} {calls extra : List Disk.Call} {race race' : Race}
variable {stage : Nat} {script : Script} {scripts : List Script} {w : Worker} {t₀ : FileTree}
variable {a b : Disk.Call} {v v' : Writer} {s : Session}

/-- The write has this writer in the race. -/
def HasWriter (calls : List Disk.Call) (race : Race) (a : Disk.Call) (v : Writer) : Prop :=
  ∃ i : Nat, calls[i]? = some a ∧ race.writers[i]? = some v

/-- A step of one writer leaves those of other writes alone. -/
theorem HasWriter.after {i : Nat} {d : Disk} {note : Note} (h : HasWriter calls race b v)
    (hi : calls[i]? = some a) (hne : b ≠ a) : HasWriter calls (race.after i v' d note) b v := by
  obtain ⟨k, hk, hv⟩ := h
  have hik : k ≠ i := by
    rintro rfl
    rw [hi, Option.some.injEq] at hk
    exact hne hk.symm
  exact ⟨k, hk, by rw [Race.writers_after_ne hik, hv]⟩

/-! ## Stages and their shadows -/

/-- The write that a stage is at. -/
def Task.current : Task → List Disk.Call
  | .writing v _ => [⟨v.path, v.content, v.token⟩]
  | _ => []

/-- What the task leads to as long as nothing fails: the documents that are
still to be begun, and the outcome. -/
inductive Task.Leads (reply : Model.Call → Except Failure String) (allowed : String → Prop) :
    Task → List Draft → Outcome → Prop
  | ready {script : Script} : script.Steady reply allowed →
      Leads reply allowed (.ready script) (script.drafts reply) (script.outcome reply)
  | asking {requests line next} : (Script.ask requests next).Steady reply allowed →
      line.Serves reply requests →
      Leads reply allowed (.asking line next) ((Script.ask requests next).drafts reply)
        ((Script.ask requests next).outcome reply)
  | writing {v : Writer} {next} : (next (.ok v.path)).Steady reply allowed →
      Leads reply allowed (.writing v next) ((next (.ok v.path)).drafts reply)
        ((next (.ok v.path)).outcome reply)

namespace Task.Leads

variable {reply : Model.Call → Except Failure String} {rest : List Draft} {o : Outcome}

theorem of_ready (h : (Task.ready script).Leads reply allowed rest o) :
    script.Steady reply allowed ∧ rest = script.drafts reply ∧ o = script.outcome reply := by
  cases h with
  | ready hsteady => exact ⟨hsteady, rfl, rfl⟩

theorem of_asking {line : Line} {next : List Arrival → Script}
    (h : (Task.asking line next).Leads reply allowed rest o) : ∃ requests,
      (Script.ask requests next).Steady reply allowed ∧ line.Serves reply requests ∧
      rest = (Script.ask requests next).drafts reply ∧
      o = (Script.ask requests next).outcome reply := by
  cases h with
  | asking hsteady hserves => exact ⟨_, hsteady, hserves, rfl, rfl⟩

theorem of_writing {next : Except Failure String → Script}
    (h : (Task.writing v next).Leads reply allowed rest o) :
    (next (.ok v.path)).Steady reply allowed ∧ rest = (next (.ok v.path)).drafts reply ∧
      o = (next (.ok v.path)).outcome reply := by
  cases h with
  | writing hsteady => exact ⟨hsteady, rfl, rfl⟩

end Task.Leads

/-- A stage follows its script beside a race: the writers of the writes that it
has done rest, that of the write it is at is its own, and those of the writes
to come have not moved. -/
structure Worker.Follows (c : Setting) (allowed : String → Prop) (calls : List Disk.Call)
    (race : Race) (stage : Nat) (script : Script) (w : Worker) (done : List Disk.Call)
    (rest : List Draft) : Prop where
  split : script.calls c stage =
    done ++ w.task.current ++ numbered (c.token stage) w.begun rest
  leads : w.task.Leads c.reply allowed rest (script.outcome c.reply)
  finished : ∀ a ∈ done, ∃ v, HasWriter calls race a v ∧ v.phase = .done (.ok a.path)
  busy : ∀ v next, w.task = .writing v next →
    HasWriter calls race ⟨v.path, v.content, v.token⟩ v
  waiting : ∀ a ∈ numbered (c.token stage) w.begun rest,
    HasWriter calls race a (a.writer .overwrite)

/-- Every stage follows its script beside the race, and further writes have not
begun. -/
structure Session.Shadows (c : Setting) (allowed : String → Prop) (t₀ : FileTree)
    (calls extra : List Disk.Call) (scripts : List Script) (s : Session) (race : Race) : Prop where
  traced : Traced c.here t₀ calls race
  alike : Alike race.disk s.disk
  length : s.workers.length = scripts.length
  workers : ∀ (i : Nat) script w, scripts[i]? = some script → s.workers[i]? = some w →
    ∃ done rest, w.Follows c allowed calls race i script done rest
  untouched : ∀ a ∈ extra, HasWriter calls race a (a.writer .overwrite)

/-- What the stages have to begin with: writes with fresh tokens, none of which
belongs to two stages, and directories that have no temporary names. -/
structure Setting.Casts (c : Setting) (allowed : String → Prop) (t₀ : FileTree)
    (calls extra : List Disk.Call) (scripts : List Script) : Prop where
  overwrite : c.policy = .overwrite
  fresh : Fresh t₀ calls
  nodup : ∀ (i : Nat) script, scripts[i]? = some script → (script.calls c i).Nodup
  apart : ∀ (i j : Nat) script other, scripts[i]? = some script → scripts[j]? = some other →
    i ≠ j → ∀ a ∈ script.calls c i, a ∉ other.calls c j
  spared : ∀ (i : Nat) script, scripts[i]? = some script → ∀ a ∈ script.calls c i, a ∉ extra
  plain : ∀ directory, allowed directory → ∀ name ∈ FileTree.pieces directory,
    FileTree.IsName name → ¬ IsTemporary calls [name]

namespace Worker.Follows

variable {done : List Disk.Call} {rest : List Draft}

/-- A stage follows its script beside any race in which its writers are the
same. -/
theorem imp (h : w.Follows c allowed calls race stage script done rest)
    (hkeep : ∀ a ∈ script.calls c stage, ∀ v, HasWriter calls race a v → HasWriter calls race' a v) :
    w.Follows c allowed calls race' stage script done rest := by
  have hsplit := h.split
  refine ⟨hsplit, h.leads, fun a ha => ?_, fun v next hv => ?_, fun a ha => ?_⟩
  · obtain ⟨v, hv, hdone⟩ := h.finished a ha
    exact ⟨v, hkeep a (by simp [hsplit, ha]) v hv, hdone⟩
  · exact hkeep _ (by simp [hsplit, hv, Task.current]) v (h.busy v next hv)
  · exact hkeep a (by simp [hsplit, ha]) _ (h.waiting a ha)

/-- A stage that is at no write and goes on to another task of the same kind. -/
theorem turn (task : Task) (h : w.Follows c allowed calls race stage script done rest)
    (hnow : w.task.current = []) (hnext : task.current = [])
    (hwriting : ∀ v next, task ≠ .writing v next)
    (hleads : task.Leads c.reply allowed rest (script.outcome c.reply)) :
    Worker.Follows c allowed calls race stage script { w with task } done rest := by
  refine ⟨?_, hleads, h.finished, fun v next hv => absurd hv (hwriting v next), h.waiting⟩
  rw [h.split, hnow]
  dsimp only
  rw [hnext]

/-- A stage begins a write. -/
theorem begin {x : Draft} {next : Except Failure String → Script}
    (h : w.Follows c allowed calls race stage script done rest) (hp : c.policy = .overwrite)
    (htask : w.task = .ready (.write x next)) : Worker.Follows c allowed calls race stage script
      ⟨.writing (Writer.start c.policy x.path x.content (c.token stage w.begun)) next, w.begun + 1⟩
      done ((next (.ok x.path)).drafts c.reply) := by
  obtain ⟨hsplit, hleads, hfinished, -, hwaiting⟩ := h
  rw [htask] at hsplit hleads
  obtain ⟨hsteady, rfl, houtcome⟩ := hleads.of_ready
  rw [Script.drafts, numbered] at hsplit hwaiting
  refine ⟨?_, ?_, hfinished, fun v after hv => ?_, fun a ha => ?_⟩
  · rw [hsplit]
    simp [Task.current, Writer.start]
  · rw [houtcome]
    cases hsteady with
    | write hsteady => exact .writing hsteady
  · simp only [Task.writing.injEq] at hv
    obtain ⟨rfl, -⟩ := hv
    rw [hp]
    exact hwaiting _ List.mem_cons_self
  · exact hwaiting a (List.mem_cons_of_mem _ ha)

/-- A stage has done a write: its writer rests with the path. -/
theorem finish {v : Writer} {next : Except Failure String → Script}
    (h : w.Follows c allowed calls race stage script done rest)
    (htask : w.task = .writing v next) (hv : v.phase = .done (.ok v.path)) :
    Worker.Follows c allowed calls race stage script
      { w with task := .ready (next (.ok v.path)) } (done ++ w.task.current) rest := by
  obtain ⟨hsplit, hleads, hfinished, hbusy, hwaiting⟩ := h
  refine ⟨?_, ?_, fun a ha => ?_, fun v after hv => (by simp at hv), hwaiting⟩
  · rw [hsplit]
    simp [Task.current]
  · rw [htask] at hleads
    obtain ⟨hsteady, rfl, houtcome⟩ := hleads.of_writing
    rw [houtcome]
    exact .ready hsteady
  · rcases List.mem_append.1 ha with ha | ha
    · exact hfinished a ha
    · rw [htask, Task.current, List.mem_singleton] at ha
      subst ha
      exact ⟨v, hbusy v next htask, hv⟩

/-- The writer of a stage takes a step. -/
theorem move {v v' : Writer} {next : Except Failure String → Script}
    (h : w.Follows c allowed calls race stage script done rest)
    (hnodup : (script.calls c stage).Nodup) (htask : w.task = .writing v next)
    (hsame : v'.path = v.path ∧ v'.content = v.content ∧ v'.token = v.token)
    (hmoved : HasWriter calls race' ⟨v.path, v.content, v.token⟩ v')
    (hkeep : ∀ a v'', a ≠ ⟨v.path, v.content, v.token⟩ → HasWriter calls race a v'' →
      HasWriter calls race' a v'') :
    Worker.Follows c allowed calls race' stage script { w with task := .writing v' next } done
      rest := by
  obtain ⟨hsplit, hleads, hfinished, -, hwaiting⟩ := h
  obtain ⟨hpath, hcontent, htoken⟩ := hsame
  have hcurrent : w.task.current = [⟨v.path, v.content, v.token⟩] := by rw [htask, Task.current]
  rw [hsplit, hcurrent] at hnodup
  have hapart : ∀ a, a ∈ done ∨ a ∈ numbered (c.token stage) w.begun rest →
      a ≠ ⟨v.path, v.content, v.token⟩ := by
    rintro a ha rfl
    rw [List.append_assoc, List.singleton_append] at hnodup
    have hcount := (List.nodup_middle.1 hnodup).notMem
    exact hcount (List.mem_append.2 ha)
  refine ⟨?_, ?_, fun a ha => ?_, fun u after hu => ?_, fun a ha => ?_⟩
  · rw [hsplit, hcurrent]
    dsimp only [Task.current]
    rw [hpath, hcontent, htoken]
  · rw [htask] at hleads
    obtain ⟨hsteady, rfl, houtcome⟩ := hleads.of_writing
    rw [houtcome, ← hpath]
    exact .writing (hpath ▸ hsteady)
  · obtain ⟨u, hu, hdone⟩ := hfinished a ha
    exact ⟨u, hkeep a u (hapart a (.inl ha)) hu, hdone⟩
  · simp only [Task.writing.injEq] at hu
    obtain ⟨rfl, -⟩ := hu
    rw [hpath, hcontent, htoken]
    exact hmoved
  · exact hkeep a _ (hapart a (.inr ha)) (hwaiting a ha)

end Worker.Follows

/-! ## One turn -/

namespace Session.Shadows

variable {i : Nat} {w' : Worker} {d : Disk} {log : List Act}

/-- One stage goes on, and the others do not notice. -/
theorem replace (h : s.Shadows c allowed t₀ calls extra scripts race)
    (hcast : c.Casts allowed t₀ calls extra scripts) (hscript : scripts[i]? = some script)
    (htraced : Traced c.here t₀ calls race') (halike : Alike race'.disk d)
    (hfollows : ∃ done rest, w'.Follows c allowed calls race' i script done rest)
    (hkeep : ∀ a v, a ∉ script.calls c i → HasWriter calls race a v → HasWriter calls race' a v) :
    Session.Shadows c allowed t₀ calls extra scripts ⟨d, s.workers.set i w', log⟩ race' := by
  refine ⟨htraced, halike, by rw [List.length_set, h.length], fun k other u hother hu => ?_,
    fun a ha => ?_⟩
  · by_cases hki : i = k
    · subst hki
      obtain ⟨hlen, -⟩ := List.getElem?_eq_some_iff.1 hu
      rw [List.length_set] at hlen
      rw [List.getElem?_set_self hlen, Option.some.injEq] at hu
      rw [hscript, Option.some.injEq] at hother
      subst hu hother
      exact hfollows
    · rw [List.getElem?_set_ne hki] at hu
      obtain ⟨done, rest, hold⟩ := h.workers k other u hother hu
      refine ⟨done, rest, hold.imp fun a ha v hv => hkeep a v ?_ hv⟩
      exact hcast.apart k i other script hother hscript (Ne.symm hki) a ha
  · exact hkeep a _ (fun hin => hcast.spared i script hscript a hin ha) (h.untouched a ha)

/-- Where nothing happens to the disk, the race stays as it is. -/
theorem still (h : s.Shadows c allowed t₀ calls extra scripts race)
    (hcast : c.Casts allowed t₀ calls extra scripts) (hscript : scripts[i]? = some script)
    {done : List Disk.Call} {rest : List Draft}
    (hfollows : w'.Follows c allowed calls race i script done rest) :
    ∃ race, Session.Shadows c allowed t₀ calls extra scripts
      ⟨s.disk, s.workers.set i w', log⟩ race :=
  ⟨race, h.replace hcast hscript h.traced h.alike ⟨done, rest, hfollows⟩ fun _ _ _ hv => hv⟩

/-- A stage makes an allowed directory. -/
theorem made (h : s.Shadows c allowed t₀ calls extra scripts race)
    (hcast : c.Casts allowed t₀ calls extra scripts) (hscript : scripts[i]? = some script)
    {done : List Disk.Call} {rest : List Draft}
    (hfollows : w'.Follows c allowed calls race i script done rest) {directory : String}
    {t : FileTree} (hallowed : allowed directory)
    (hmade : s.disk.tree.makeDirectories c.here directory = (.ok (), t)) :
    ∃ race, Session.Shadows c allowed t₀ calls extra scripts
      ⟨{ s.disk with tree := t }, s.workers.set i w', log⟩ race := by
  have htree : race.tree = s.disk.tree := h.alike.1
  have hadds : FileTree.Adds (fun name => ¬ IsTemporary calls [name]) race.tree t := by
    have hadds := FileTree.makeDirectories_adds h.traced.closed h.traced.base
      (hcast.plain directory hallowed)
    rw [htree, hmade] at hadds
    rwa [htree]
  exact ⟨_, h.replace hcast hscript (h.traced.made hcast.fresh hadds) ⟨rfl, h.alike.2⟩
    ⟨done, rest, hfollows.imp fun _ _ _ hv => hv⟩ fun _ _ _ hv => hv⟩

/-- A stage takes a step of its write, and so does the writer of the race. -/
theorem moved (h : s.Shadows c allowed t₀ calls extra scripts race)
    (hcast : c.Casts allowed t₀ calls extra scripts) (hscript : scripts[i]? = some script)
    {done : List Disk.Call} {rest : List Draft} {next : Except Failure String → Script}
    (hfollows : w.Follows c allowed calls race i script done rest)
    (htask : w.task = .writing v next) :
    ∃ race, Session.Shadows c allowed t₀ calls extra scripts
      ⟨(v.step .overwrite c.here s.disk).2, s.workers.set i
        { w with task := .writing (v.step .overwrite c.here s.disk).1 next }, log⟩ race := by
  obtain ⟨k, hk, hv⟩ := hfollows.busy v next htask
  obtain ⟨a, hready⟩ := h.traced.ready hcast.fresh hv
  obtain rfl : a = ⟨v.path, v.content, v.token⟩ := Option.some.inj (hready.call.symm.trans hk)
  have hturn : Turn .overwrite c.here v race.disk (v.step .overwrite c.here race.disk).1
      (v.step .overwrite c.here race.disk).2 (v.note c.here race.disk .carried) := carried_turn
  have hserves := hturn.serves hready.serves
  -- the step does the same to the disk of the race
  obtain ⟨hsame, halike⟩ := h.alike.step .overwrite c.here v
  rw [hsame] at hturn hserves
  refine ⟨_, h.replace hcast hscript (h.traced.after hcast.fresh hv hturn) halike
    ⟨done, rest, hfollows.move (hcast.nodup i script hscript) htask
      ⟨hserves.path, hserves.content, hserves.token⟩ ⟨k, hk, Race.writers_after_self hv⟩
      fun a u hne hu => hu.after hk hne⟩
    fun a u hnot hu => hu.after hk fun heq => hnot ?_⟩
  rw [heq, hfollows.split, htask]
  simp [Task.current]

/-- **One turn of a stage**: a writer of the race takes a step, or a directory
is made, or nothing happens to the disk. -/
theorem step (h : s.Shadows c allowed t₀ calls extra scripts race)
    (hcast : c.Casts allowed t₀ calls extra scripts) (e : Tick)
    (hok : ∀ act ∈ (s.step c e).log, act.Succeeded) :
    ∃ race, (s.step c e).Shadows c allowed t₀ calls extra scripts race := by
  unfold Session.step at hok ⊢
  cases hw : s.workers[e.stage]? with
  | none => exact ⟨race, h⟩
  | some w =>
    rw [hw] at hok
    dsimp only at hok ⊢
    obtain ⟨script, hscript⟩ : ∃ script, scripts[e.stage]? = some script := by
      obtain ⟨hlen, -⟩ := List.getElem?_eq_some_iff.1 hw
      exact ⟨_, List.getElem?_eq_getElem (by rw [← h.length]; exact hlen)⟩
    obtain ⟨done, rest, hfollows⟩ := h.workers e.stage script w hscript hw
    have hleads := hfollows.leads
    unfold Worker.step at hok ⊢
    cases htask : w.task with
    | ready program =>
      rw [htask] at hok hleads
      obtain ⟨hsteady, rfl, houtcome⟩ := hleads.of_ready
      cases hsteady with
      | rest => exact h.still hcast hscript hfollows
      | @ask requests next hsame hsteady =>
        refine h.still hcast hscript (hfollows.turn _ (by rw [htask]; rfl) rfl (by simp) ?_)
        rw [houtcome]
        exact .asking (.ask hsame hsteady) (.start requests)
      | @make directory next hallowed hsteady =>
        dsimp only at hok ⊢
        unfold Disk.ensureDirectory at hok ⊢
        obtain ⟨result, t, hmade⟩ : ∃ result t,
            s.disk.tree.makeDirectories c.here directory = (result, t) := ⟨_, _, rfl⟩
        rw [hmade] at hok ⊢
        cases result with
        | error f => cases hok _ (List.mem_append_right _ (List.mem_singleton_self _))
        | ok _ =>
          have hnext := hfollows.turn (.ready (next (.ok ()))) (by rw [htask]; rfl) rfl
            (by simp) (by rw [houtcome]; exact .ready hsteady)
          exact h.made hcast hscript hnext hallowed hmade
      | write => exact h.still hcast hscript (hfollows.begin hcast.overwrite htask)
    | asking line next =>
      rw [htask] at hleads
      obtain ⟨requests, hsteady, hserves, rfl, houtcome⟩ := hleads.of_asking
      dsimp only
      split
      · next hover =>
        cases hsteady with
        | ask hsame hsteady =>
          refine h.still hcast hscript (hfollows.turn _ (by rw [htask]; rfl) rfl (by simp) ?_)
          rw [houtcome, hsame _ (hserves.perm_of_isOver hover)]
          exact .ready hsteady
      · refine h.still hcast hscript (hfollows.turn _ (by rw [htask]; rfl) rfl (by simp) ?_)
        rw [houtcome]
        exact .asking hsteady (hserves.step e.move)
    | writing v next =>
      rw [htask] at hok
      dsimp only at hok ⊢
      cases hresult : v.result? with
      | some result =>
        rw [hresult] at hok
        have hphase := Writer.result?_eq_some.1 hresult
        obtain ⟨path, rfl⟩ : ∃ path, result = .ok path :=
          hok _ (List.mem_append_right _ (List.mem_singleton_self _))
        -- an overwriting writer answers with its own path
        obtain ⟨k, hk, hv⟩ := hfollows.busy v next htask
        obtain ⟨a, hready⟩ := h.traced.ready hcast.fresh hv
        have hfits := hready.serves.phase
        rw [hphase, ← hready.serves.path] at hfits
        obtain rfl : path = v.path := hfits.eq_of_overwrite
        exact h.still hcast hscript (hfollows.finish htask hphase)
      | none =>
        rw [hcast.overwrite]
        exact h.moved hcast hscript hfollows htask

/-- **Turns in any order.** -/
theorem run (h : s.Shadows c allowed t₀ calls extra scripts race)
    (hcast : c.Casts allowed t₀ calls extra scripts) (events : List Tick)
    (hok : ∀ act ∈ (s.run c events).log, act.Succeeded) :
    ∃ race, (s.run c events).Shadows c allowed t₀ calls extra scripts race := by
  induction events generalizing s race with
  | nil => exact ⟨race, h⟩
  | cons e events ih =>
    have hsplit : s.run c (e :: events) = (s.step c e).run c events := rfl
    rw [hsplit] at hok ⊢
    -- what is asked before the end did not fail either
    obtain ⟨acts, hlog⟩ := (s.step c e).log_run c events
    obtain ⟨race, hnext⟩ := h.step hcast e fun act ha => hok act (by simp [hlog, ha])
    exact ih hnext hok

end Session.Shadows

end Docsmith.Generation
