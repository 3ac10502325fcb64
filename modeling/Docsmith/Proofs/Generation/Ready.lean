import Docsmith.Proofs.Generation.Script
import Docsmith.Proofs.Sink.Transcript
import Mathlib.Data.List.Perm.Basic
import Mathlib.Data.List.Nodup
/-!
# Generation — stages within their limits

`Script.Runs` lists the courses that a script may take, one for each way of
answering. On a sink that takes its time a stage takes one of them as far as its
limit allows: what would be done behind the limit is left out, and if the
last answer comes too late the stage has failed (`Stage.timed_transcribed`). Stages
act in the order in which their answers come, which is not the order in which
they stand. What they do is put together of what each of them does, whatever
that order is, and their outcomes are found again by their names
(`Stage.run_transcribed`).
-/

namespace Docsmith.Generation

open Model Sink

variable {σ τ : Type} {sink : Sink σ}

/-! ## Time -/

namespace Pace

variable {p : Pace} {c : Clock} {m n : Nat}

/-- The clock when a number of things have been answered. -/
def after (p : Pace) (c : Clock) : (count : Nat) → Clock
  | 0 => c
  | count + 1 => p.after (p.next c) count

/-- A number of things take longer than the limit. -/
def Late (p : Pace) (c : Clock) (count : Nat) : Prop :=
  p.limit.nanos < (p.after c count).now

instance (p : Pace) (c : Clock) (count : Nat) : Decidable (p.Late c count) :=
  inferInstanceAs (Decidable (_ < _))

/-- How many of a number of things are done within the limit. -/
def reach (p : Pace) (c : Clock) : (count : Nat) → Nat
  | 0 => 0
  | count + 1 => if p.done c ≤ p.limit.nanos then p.reach (p.next c) count + 1 else 0

theorem done_le_next (p : Pace) (c : Clock) : p.done c ≤ (p.next c).now :=
  Nat.le_add_right _ _

theorem now_le_done (p : Pace) (c : Clock) : c.now ≤ p.done c :=
  Nat.le_add_right _ _

theorem now_le_next (p : Pace) (c : Clock) : c.now ≤ (p.next c).now :=
  (p.now_le_done c).trans (p.done_le_next c)

theorem after_add (p : Pace) (c : Clock) (m n : Nat) :
    p.after c (m + n) = p.after (p.after c m) n := by
  induction m generalizing c with
  | zero => rw [Nat.zero_add, after]
  | succ m ih => rw [Nat.succ_add, after, after, ih]

theorem now_le_after (p : Pace) (c : Clock) (n : Nat) : c.now ≤ (p.after c n).now := by
  induction n generalizing c with
  | zero => exact Nat.le_refl _
  | succ n ih => exact (p.now_le_next c).trans (ih (p.next c))

/-- More things take no less time. -/
theorem after_mono (h : m ≤ n) : (p.after c m).now ≤ (p.after c n).now := by
  obtain ⟨k, rfl⟩ := Nat.exists_eq_add_of_le h
  rw [after_add]
  exact p.now_le_after _ _

/-- Where fewer things are late, more things are so too. -/
theorem Late.mono (h : p.Late c m) (hle : m ≤ n) : p.Late c n :=
  h.trans_le (p.after_mono hle)

/-- Behind the limit nothing is done. -/
theorem reach_of_lt (h : p.limit.nanos < p.done c) : p.reach c n = 0 := by
  cases n with
  | zero => rfl
  | succ n => exact if_neg (Nat.not_le.2 h)

/-- Within the limit everything is done. -/
theorem reach_of_not_late (h : ¬ p.Late c n) : p.reach c n = n := by
  induction n generalizing c with
  | zero => rfl
  | succ n ih =>
    have hdone := (p.done_le_next c).trans (p.now_le_after (p.next c) n)
    rw [reach, if_pos (hdone.trans (Nat.not_lt.1 h)), ih h]

/-- What is done of fewer things. -/
theorem reach_of_le_count (h : m ≤ n) : p.reach c m = min m (p.reach c n) := by
  induction n generalizing c m with
  | zero =>
    obtain rfl := Nat.le_zero.1 h
    rfl
  | succ n ih =>
    cases m with
    | zero => exact (Nat.zero_min _).symm
    | succ m =>
      rw [reach, reach]
      split_ifs with hdone
      · rw [ih (Nat.le_of_succ_le_succ h), Nat.add_min_add_right]
      · rfl

/-- What is done of two lists of things is the same if they are the same as far as the first
is done, and all the same if all of it is. -/
theorem take_reach_eq {α : Type} {l l' : List α}
    (htake : l.take (p.reach c l.length) = l'.take (p.reach c l.length))
    (hall : p.reach c l.length = l.length → l = l') :
    l.take (p.reach c l.length) = l'.take (p.reach c l'.length) := by
  by_cases hwhole : p.reach c l.length = l.length
  · rw [hall hwhole]
  rcases Nat.le_total l.length l'.length with hle | hle
  · have hmin : p.reach c l.length = min l.length (p.reach c l'.length) := reach_of_le_count hle
    have hreach : p.reach c l.length = p.reach c l'.length := by omega
    rw [htake, hreach]
  · rw [htake, reach_of_le_count hle, Nat.min_comm, ← List.take_take, List.take_length]

/-- What is done within the limit is done as without one. -/
theorem ask_of_le {α : Type} {f : σ → Except Failure α × σ} (h : p.done c ≤ p.limit.nanos) (s : σ) :
    p.ask f (c, s) = ((f s).1, p.next c, (f s).2) :=
  if_pos h

/-- What would be done behind the limit is not done. -/
theorem ask_of_lt {α : Type} {f : σ → Except Failure α × σ} (h : p.limit.nanos < p.done c) (s : σ) :
    p.ask f (c, s) = (.error (.output "given up"), p.next c, s) :=
  if_neg (Nat.not_le.2 h)

end Pace

/-! ## Scripts on a sink that takes its time -/

namespace Script

variable {reply : Call → Except Failure String} {p : Pace} {c : Clock} {script : Script}

/-- With some answers of the sink the script does these things and ends with
this outcome. -/
inductive Runs (reply : Call → Except Failure String) : Script → List Deed → Outcome → Prop
  | rest {outcome : Outcome} : Runs reply (.rest outcome) [] outcome
  | ask {requests : List (Nat × Request)} {next : List Arrival → Script} {deeds : List Deed}
      {outcome : Outcome} : Runs reply (next (requests.map (answered reply))) deeds outcome →
      Runs reply (.ask requests next) deeds outcome
  | make {directory : String} {next : Except Failure Unit → Script} {result : Except Failure Unit}
      {deeds : List Deed} {outcome : Outcome} : Runs reply (next result) deeds outcome →
      Runs reply (.make directory next) (.made directory result :: deeds) outcome
  | write {d : Draft} {next : Except Failure String → Script} {result : Except Failure String}
      {deeds : List Deed} {outcome : Outcome} : Runs reply (next result) deeds outcome →
      Runs reply (.write d next) (.wrote d result :: deeds) outcome

/-- Each document is handed over, whatever becomes of those before it. -/
theorem Runs.of_writeAll {drafts : List Draft} {next : List (Except Failure String) → Script}
    {deeds : List Deed} {outcome : Outcome} (h : (writeAll drafts next).Runs reply deeds outcome) :
    ∃ results more, results.length = drafts.length ∧
      deeds = List.zipWith Deed.wrote drafts results ++ more ∧
      (next results).Runs reply more outcome := by
  induction drafts generalizing next deeds with
  | nil => exact ⟨[], deeds, rfl, rfl, h⟩
  | cons d drafts ih =>
    cases h with
    | @write _ _ result _ _ hrest =>
      obtain ⟨results, more, hlength, rfl, hruns⟩ := ih hrest
      exact ⟨result :: results, more, congrArg (· + 1) hlength, rfl, hruns⟩

/-- What the script does to a sink that takes its time, from a moment on: its
outcome, the clock in the end, and the state. -/
def playFrom (sink : Sink σ) (reply : Call → Except Failure String) (p : Pace) (script : Script)
    (c : Clock) (s : σ) : (Outcome × Clock) × σ :=
  let out := script.play (sink.paced p) reply (c, s)
  ((out.1, out.2.1), out.2.2)

/-- The things that were asked of a sink, as far as they were done within the limit, in the
course that the script took, and the clock in the end. -/
def Reaches (reply : Call → Except Failure String) (p : Pace) (c : Clock) (script : Script)
    (deeds : List Deed) (out : Outcome × Clock) : Prop :=
  ∃ full, script.Runs reply full out.1 ∧ out.2 = p.after c full.length ∧
    deeds = full.take (p.reach c full.length)

/-- What a stage with a limit does of a script, and how it ends: all that there is to do, or
what is done within the limit, if the script takes longer. -/
inductive Limited (reply : Call → Except Failure String) (name : String) (p : Pace) (c : Clock)
    (script : Script) : List Deed → Outcome → Prop
  | whole {deeds : List Deed} {outcome : Outcome} : script.Runs reply deeds outcome →
      ¬ p.Late c deeds.length → Limited reply name p c script deeds outcome
  | part {full : List Deed} {outcome : Outcome} : script.Runs reply full outcome →
      p.Late c full.length →
      Limited reply name p c script (full.take (p.reach c full.length))
        (.ofResult name (.error (.timeout name p.limit)))

/-- One thing more was done in time. -/
theorem Reaches.cons {script next : Script} {deed : Deed} {deeds : List Deed}
    {out : Outcome × Clock} (hdone : p.done c ≤ p.limit.nanos)
    (hruns : ∀ {full}, next.Runs reply full out.1 → script.Runs reply (deed :: full) out.1)
    (h : next.Reaches reply p (p.next c) deeds out) :
    script.Reaches reply p c (deed :: deeds) out := by
  obtain ⟨full, hfull, hclock, rfl⟩ := h
  refine ⟨deed :: full, hruns hfull, hclock, ?_⟩
  rw [List.length_cons, Pace.reach, if_pos hdone, List.take_succ_cons]

/-- One thing more would have been too late, and nothing was done behind it. -/
theorem Reaches.cons_of_lt {script next : Script} {deed : Deed} {deeds : List Deed}
    {out : Outcome × Clock} (hlate : p.limit.nanos < p.done c)
    (hruns : ∀ {full}, next.Runs reply full out.1 → script.Runs reply (deed :: full) out.1)
    (h : next.Reaches reply p (p.next c) deeds out) : script.Reaches reply p c deeds out := by
  obtain ⟨full, hfull, hclock, rfl⟩ := h
  have hafter : p.limit.nanos < p.done (p.next c) :=
    hlate.trans_le ((p.done_le_next c).trans (p.now_le_done _))
  refine ⟨deed :: full, hruns hfull, hclock, ?_⟩
  rw [Pace.reach_of_lt hlate, Pace.reach_of_lt hafter]
  rfl

/-- A script that asks one thing and goes on, if it goes on as it should. -/
theorem transcribed_ask {α : Type} {plain : σ → Except Failure α × σ}
    {program : List Deed × σ → Except Failure α × (List Deed × σ)} {deed : Except Failure α → Deed}
    {script : Script} {next : Except Failure α → Script}
    (hfirst : sink.Transcribed plain program fun deeds result => deeds = [deed result])
    (hruns : ∀ {result full outcome}, (next result).Runs reply full outcome →
      script.Runs reply (deed result :: full) outcome)
    (hplain : script.playFrom sink reply p c = fun s =>
      (next (p.ask plain (c, s)).1).playFrom sink reply p (p.ask plain (c, s)).2.1
        (p.ask plain (c, s)).2.2)
    (hprogram : script.playFrom sink.recorded reply p c = fun s =>
      (next (p.ask program (c, s)).1).playFrom sink.recorded reply p (p.ask program (c, s)).2.1
        (p.ask program (c, s)).2.2)
    (hnext : ∀ result c, sink.Transcribed ((next result).playFrom sink reply p c)
      ((next result).playFrom sink.recorded reply p c) ((next result).Reaches reply p c)) :
    sink.Transcribed (script.playFrom sink reply p c) (script.playFrom sink.recorded reply p c)
      (script.Reaches reply p c) := by
  rw [hplain, hprogram]
  rcases Nat.lt_or_ge p.limit.nanos (p.done c) with hlate | hdone
  · simp only [Pace.ask_of_lt hlate]
    exact (hnext _ _).imp fun deeds out h => h.cons_of_lt hlate hruns
  · simp only [Pace.ask_of_le hdone]
    refine (hfirst.bind fun result => hnext result (p.next c)).imp fun deeds out h => ?_
    obtain ⟨first, more, result, rfl, rfl, hmore⟩ := h
    exact hmore.cons hdone hruns

/-- **A script that is played takes one of its courses** as far as it comes. -/
theorem transcribed_playFrom (sink : Sink σ) (reply : Call → Except Failure String) (p : Pace)
    (script : Script) (c : Clock) : sink.Transcribed (script.playFrom sink reply p c)
      (script.playFrom sink.recorded reply p c) (script.Reaches reply p c) := by
  induction script generalizing c with
  | rest outcome =>
    refine (transcribed_pure sink (outcome, c)).imp fun deeds out h => ?_
    obtain ⟨rfl, rfl⟩ := h
    exact ⟨[], .rest, rfl, rfl⟩
  | ask requests next ih =>
    refine (ih (requests.map (answered reply)) c).imp fun deeds out h => ?_
    obtain ⟨full, hruns, hclock, hdeeds⟩ := h
    exact ⟨full, .ask hruns, hclock, hdeeds⟩
  | make directory next ih =>
    exact transcribed_ask (transcribed_ensureDirectory sink directory) .make rfl rfl ih
  | write d next ih => exact transcribed_ask (transcribed_write sink d) .write rfl rfl ih

theorem now_le_playFrom (sink : Sink σ) (reply : Call → Except Failure String) (p : Pace)
    (script : Script) (c : Clock) (s : σ) :
    c.now ≤ (script.playFrom sink reply p c s).1.2.now := by
  obtain ⟨-, -, -, full, -, hclock, -⟩ := transcribed_playFrom sink reply p script c [] s
  rw [hclock]
  exact p.now_le_after c full.length

/-- A script that asks one thing and is not given up, if what it does then goes by itself. -/
theorem play_ask {α : Type} {plain : σ → Except Failure α × σ} {next : Except Failure α → Script}
    {s : σ} (hplay : script.play sink reply s = (next (plain s).1).play sink reply (plain s).2)
    (hfrom : script.playFrom sink reply p c s =
      (next (p.ask plain (c, s)).1).playFrom sink reply p (p.ask plain (c, s)).2.1
        (p.ask plain (c, s)).2.2)
    (hnext : ∀ result c s, ((next result).playFrom sink reply p c s).1.2.now ≤ p.limit.nanos →
      (next result).play sink reply s = (((next result).playFrom sink reply p c s).1.1,
        ((next result).playFrom sink reply p c s).2))
    (h : (script.playFrom sink reply p c s).1.2.now ≤ p.limit.nanos) :
    script.play sink reply s =
      ((script.playFrom sink reply p c s).1.1, (script.playFrom sink reply p c s).2) := by
  rw [hfrom] at h ⊢
  rcases Nat.lt_or_ge p.limit.nanos (p.done c) with hlate | hdone
  · -- the clock goes on from behind the limit
    have hclock := now_le_playFrom sink reply p (next (p.ask plain (c, s)).1)
      (p.ask plain (c, s)).2.1 (p.ask plain (c, s)).2.2
    rw [Pace.ask_of_lt hlate] at h hclock
    exact absurd (hlate.trans_le ((p.done_le_next c).trans (hclock.trans h))) (Nat.lt_irrefl _)
  · rw [Pace.ask_of_le hdone] at h ⊢
    rw [hplay]
    exact hnext _ _ _ h

/-- A script that is never given up does what it does by itself. -/
theorem play_eq_playFrom (script : Script) (c : Clock) (s : σ)
    (h : (script.playFrom sink reply p c s).1.2.now ≤ p.limit.nanos) :
    script.play sink reply s =
      ((script.playFrom sink reply p c s).1.1, (script.playFrom sink reply p c s).2) := by
  induction script generalizing c s with
  | rest outcome => rfl
  | ask requests next ih => exact ih _ c s h
  | make directory next ih => exact play_ask rfl rfl ih h
  | write d next ih => exact play_ask rfl rfl ih h

end Script

/-! ## Stages -/

/-- In a list in which no two entries have one key, an entry is found by its
key. -/
theorem find?_key {α κ : Type} [BEq κ] [LawfulBEq κ] {f : α → κ} {l : List α} {a : α}
    (h : (l.map f).Nodup) (ha : a ∈ l) : l.find? (f · == f a) = some a := by
  induction l with
  | nil => cases ha
  | cons b l ih =>
    rw [List.map_cons, List.nodup_cons] at h
    rcases List.mem_cons.1 ha with rfl | hmem
    · exact List.find?_cons_of_pos (beq_self_eq_true _)
    · have hne : f b ≠ f a := fun heq => h.1 (heq ▸ List.mem_map_of_mem hmem)
      rw [List.find?_cons_of_neg (by simpa using hne)]
      exact ih h.2 hmem

namespace Stage

variable {reply : Call → Except Failure String} {name : String} {p : Pace} {timeline : Timeline}
variable {script : Script} {work : (τ : Type) → Sink τ → τ → Except Failure String × τ}

/-- The script does what the work does, on every sink, and its outcome tells the result. -/
def Does (name : String) (reply : Call → Except Failure String) (script : Script)
    (work : (τ : Type) → Sink τ → τ → Except Failure String × τ) : Prop :=
  ∀ (τ : Type) (tool : Sink τ) (x : τ),
    script.play tool reply x = (.ofResult name (work τ tool x).1, (work τ tool x).2)

/-- A stage does what its script does, and fails if the script ends behind the limit. -/
theorem act_timed (h : Does name reply script work) (sink : Sink σ) (s : σ) :
    (timed name p timeline sink (work (Clock × σ))).act s =
      let out := script.playFrom sink reply p ⟨timeline.finish, 0⟩ s
      (if out.1.2.now ≤ p.limit.nanos then out.1.1
        else .ofResult name (.error (.timeout name p.limit)), out.2) := by
  unfold timed Script.playFrom within
  dsimp only
  rw [h]
  split_ifs
  · rfl
  · rfl

/-- **A stage takes a course of its script**, on any sink, as far as its limit allows. -/
theorem timed_transcribed (h : Does name reply script work) (sink : Sink σ) :
    sink.Transcribed (timed name p timeline sink (work (Clock × σ))).act
      (timed name p timeline sink.recorded (work (Clock × List Deed × σ))).act
      (script.Limited reply name p ⟨timeline.finish, 0⟩) := by
  have hplay := (script.transcribed_playFrom sink reply p ⟨timeline.finish, 0⟩).map fun out =>
    if out.2.now ≤ p.limit.nanos then out.1 else .ofResult name (.error (.timeout name p.limit))
  rw [funext (act_timed h sink), funext (act_timed h sink.recorded)]
  refine hplay.imp fun deeds outcome hreach => ?_
  obtain ⟨⟨o, clock⟩, ⟨full, hruns, rfl, rfl⟩, rfl⟩ := hreach
  dsimp only
  split_ifs with hlimit
  · rw [Pace.reach_of_not_late (Nat.not_lt.2 hlimit), List.take_length]
    exact .whole hruns (Nat.not_lt.2 hlimit)
  · exact .part hruns (Nat.not_le.1 hlimit)

/-- A stage whose script ends within the limit on every course is never given up. -/
theorem act_timed_of_not_late (h : Does name reply script work)
    (hlimit : ∀ deeds outcome, script.Runs reply deeds outcome →
      ¬ p.Late ⟨timeline.finish, 0⟩ deeds.length) (sink : Sink σ) (s : σ) :
    (timed name p timeline sink (work (Clock × σ))).act s = script.play sink reply s := by
  obtain ⟨-, -, -, full, hruns, hclock, -⟩ :=
    script.transcribed_playFrom sink reply p ⟨timeline.finish, 0⟩ [] s
  have hle := Nat.not_lt.1 (hlimit full _ hruns)
  rw [← hclock] at hle
  rw [act_timed h, script.play_eq_playFrom _ s hle]
  exact congrArg (·, _) (if_pos hle)

/-- Stages that are ready in their own order act in that order. -/
theorem mergeSort_of_ready {stages : List (Stage σ)}
    (h : stages.Pairwise fun a b => a.timeline.finish ≤ b.timeline.finish) :
    stages.mergeSort (fun a b => a.timeline.finish ≤ b.timeline.finish) = stages :=
  List.mergeSort_of_pairwise (h.imp fun hle => decide_eq_true hle)

/-- A stage on a plain sink, the same stage on the sink with a transcript, and
what fits the transcript and the outcome. -/
structure Part (σ : Type) where
  plain : Stage σ
  stage : Stage (List Deed × σ)
  fits : List Deed → Outcome → Prop

/-- The transcript makes no difference to the stage, and its outcome has its
name. -/
structure Part.Sound (sink : Sink σ) (p : Part σ) : Prop where
  name : p.stage.name = p.plain.name
  timeline : p.stage.timeline = p.plain.timeline
  act : sink.Transcribed p.plain.act p.stage.act p.fits
  outcome : ∀ {deeds outcome}, p.fits deeds outcome → outcome.stage = p.plain.name

variable {parts : List (Part σ)}

/-- Stages that act one after the other. -/
theorem actAll_transcribed (h : ∀ p ∈ parts, p.Sound sink) :
    sink.Transcribed (actAll (parts.map (·.plain))) (actAll (parts.map (·.stage)))
      fun deeds outcomes => ∃ reports : List (List Deed × Outcome),
        deeds = (reports.map (·.1)).flatten ∧ outcomes = reports.map (·.2) ∧
        List.Forall₂ (fun p report => p.fits report.1 report.2 ∧ report.2.stage = p.plain.name)
          parts reports := by
  induction parts with
  | nil =>
    refine (transcribed_pure sink []).imp fun deeds outcomes hnone => ?_
    obtain ⟨rfl, rfl⟩ := hnone
    exact ⟨[], rfl, rfl, .nil⟩
  | cons p parts ih =>
    have hrest := ih fun q hq => h q (List.mem_cons_of_mem p hq)
    have hbind := (h p List.mem_cons_self).act.bind fun outcome => hrest.map (outcome :: ·)
    refine hbind.imp fun deeds outcomes hcourse => ?_
    obtain ⟨first, more, outcome, rfl, hfits, others, hothers, rfl⟩ := hcourse
    obtain ⟨reports, rfl, rfl, hall⟩ := hothers
    have hname := (h p List.mem_cons_self).outcome hfits
    exact ⟨(first, outcome) :: reports, rfl, rfl, .cons ⟨hfits, hname⟩ hall⟩

/-- Outcomes are found by the names of their stages, in whatever order the
stages acted. -/
theorem filterMap_find? {reports ready : List (List Deed × Outcome)} (hperm : reports.Perm ready)
    (hnames : (parts.map (·.plain.name)).Nodup)
    (hall : List.Forall₂ (fun p report => report.2.stage = p.plain.name) parts reports) :
    parts.filterMap (fun p => (ready.map (·.2)).find? (·.stage == p.plain.name)) =
      reports.map (·.2) := by
  have hstages : reports.map (·.2.stage) = parts.map (·.plain.name) := by
    clear hperm hnames
    induction hall with
    | nil => rfl
    | cons hfirst _ ih => rw [List.map_cons, List.map_cons, hfirst, ih]
  have hkeys : ((ready.map (·.2)).map (·.stage)).Nodup := by
    have hnodup := hstages ▸ hnames
    rw [List.map_map]
    exact (hperm.map _).nodup_iff.1 hnodup
  have hfound : ∀ report ∈ reports,
      (ready.map (·.2)).find? (·.stage == report.2.stage) = some report.2 := fun report hr =>
    find?_key (f := Outcome.stage) hkeys
      (List.mem_map_of_mem (f := fun report => report.2) (hperm.mem_iff.1 hr))
  have hmap : parts.filterMap (fun p => (ready.map (·.2)).find? (·.stage == p.plain.name)) =
      (reports.map (·.2.stage)).filterMap fun name => (ready.map (·.2)).find? (·.stage == name) := by
    rw [hstages, List.filterMap_map]
    rfl
  have hsome : reports.map (·.2) = reports.filterMap (some ∘ (·.2)) :=
    (congrFun List.filterMap_eq_map reports).symm
  rw [hmap, List.filterMap_map, hsome]
  exact List.filterMap_congr hfound

/-- **Stages that act when they are ready**: each takes a course of its own, and
the outcomes stand in the stages' own order. -/
theorem run_transcribed (h : ∀ p ∈ parts, p.Sound sink)
    (hnames : (parts.map (·.plain.name)).Nodup) :
    sink.Transcribed (run (parts.map (·.plain))) (run (parts.map (·.stage)))
      fun deeds outcomes => ∃ reports : List (List Deed × Outcome),
        deeds.Perm (reports.map (·.1)).flatten ∧ outcomes = reports.map (·.2) ∧
        List.Forall₂ (fun p report => p.fits report.1 report.2) parts reports := by
  -- the two lists are put in order together with what is known of them
  let ready := parts.mergeSort fun p q => p.plain.timeline.finish ≤ q.plain.timeline.finish
  have hperm : ready.Perm parts := List.mergeSort_perm _ _
  have hplain : ready.map (·.plain) =
      (parts.map (·.plain)).mergeSort fun a b => a.timeline.finish ≤ b.timeline.finish :=
    List.map_mergeSort fun p _ q _ => rfl
  have hstage : ready.map (·.stage) =
      (parts.map (·.stage)).mergeSort fun a b => a.timeline.finish ≤ b.timeline.finish :=
    List.map_mergeSort fun p hp q hq => by rw [(h p hp).timeline, (h q hq).timeline]
  have hfind : ∀ outcomes : List Outcome,
      (parts.map (·.stage)).filterMap (fun stage => outcomes.find? (·.stage == stage.name)) =
        parts.filterMap fun p => outcomes.find? (·.stage == p.plain.name) := by
    intro outcomes
    rw [List.filterMap_map]
    exact List.filterMap_congr fun p hp => by rw [Function.comp, (h p hp).name]
  have hfindPlain : ∀ outcomes : List Outcome,
      (parts.map (·.plain)).filterMap (fun stage => outcomes.find? (·.stage == stage.name)) =
        parts.filterMap fun p => outcomes.find? (·.stage == p.plain.name) := fun outcomes => by
    rw [List.filterMap_map]
    rfl
  have hall := actAll_transcribed fun p hp => h p (hperm.mem_iff.1 hp)
  unfold run
  simp only [← hplain, ← hstage, hfind, hfindPlain]
  refine (hall.map fun outcomes => parts.filterMap fun p =>
    outcomes.find? (·.stage == p.plain.name)).imp fun deeds outcomes hcourse => ?_
  obtain ⟨-, ⟨ordered, rfl, rfl, hfits⟩, rfl⟩ := hcourse
  obtain ⟨reports, hreports, hsame⟩ := List.perm_comp_forall₂ hperm.symm hfits
  refine ⟨reports, (hsame.symm.map _).flatten, ?_, hreports.imp fun p report hr => hr.1⟩
  exact filterMap_find? hsame hnames (hreports.imp fun p report hr => hr.2)

end Stage

/-! ## Runs whose order is known -/

namespace Job

variable {j : Job}

/-- Lets the stages act in some order and writes the overview. -/
def writeInOrder (j : Job) (sink : Sink σ) (ready : List (Stage σ)) (s : σ) :
    Except Failure Unit × σ :=
  let (acted, s) := Stage.actAll ready s
  let outcomes := (j.stages sink).filterMap fun stage => acted.find? (·.stage == stage.name)
  let (result, s) := sink.write j.overviewPath (Document.Overview.compose j.overview outcomes) s
  (result.map fun _ => (), s)

/-- What a run leaves whose stages are ready in this order. -/
theorem outcome_of_ready {ready : List (Stage σ)} (h : (j.stages sink).mergeSort
      (fun a b => a.timeline.finish ≤ b.timeline.finish) = ready) :
    j.outcome sink = sink.afterDirectory j.output.directory .error fun s =>
      ((j.writeInOrder sink ready s).1.map fun _ => j.output.directory,
        (j.writeInOrder sink ready s).2) := by
  have hwrite : j.writeAll sink = j.writeInOrder sink ready := by
    funext s
    unfold writeAll Stage.run writeInOrder
    rw [h]
  rw [outcome_eq, hwrite]

end Job

end Docsmith.Generation
