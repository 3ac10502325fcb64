import Docsmith.Proofs.Generation.Shadow
/-!
# Generation — every schedule leaves the same files

A run that overwrites, whose documents come to different places and in which
nothing fails leaves files that its job alone decides (`Job.follow_leaves`):
each document stands where its path reaches, with the text that the replies
give it. So two schedules of one job leave the same files, whatever the order
in which calls are answered and requests finish, however many are under way,
and however the stages take turns (`Job.schedule_independent`). Where a directory
cannot be made this is not so: whether it can may depend on the schedule
(`Job.schedule_dependent_dottedErrand`). A path has at most one place that it can
come to lead to (`Reaches.unique`), so documents come to different places unless
two paths have the same one.
-/


namespace Docsmith.Generation

open Disk Document Model Sink

variable {c : Setting} {allowed : String → Prop} {calls extra : List Disk.Call} {race : Race}
variable {scripts : List Script} {s : Session} {t₀ t : FileTree} {here : Place} {j : Job}
variable {w : Worker} {script : Script} {stage : Nat} {m : Schedule} {e : Ending}

/-! ## The writes of all stages -/

/-- The writes of some scripts, each with the tokens of its stage. -/
def callsOf (c : Setting) (scripts : List Script) : List Disk.Call :=
  scripts.zipIdx.flatMap fun x => x.1.calls c x.2

theorem map_draft_callsOf (c : Setting) (scripts : List Script) :
    (callsOf c scripts).map Call.draft = scripts.flatMap (·.drafts c.reply) := by
  have hfst : scripts.zipIdx.map Prod.fst = scripts := List.zipIdx_map_fst 0 scripts
  rw [callsOf, List.map_flatMap]
  nth_rewrite 2 [← hfst]
  rw [List.flatMap_map]
  exact congrArg (List.flatMap · scripts.zipIdx) (funext fun x => map_draft_numbered _ _ _)

theorem mem_callsOf (h : scripts[stage]? = some script) {a : Disk.Call}
    (ha : a ∈ script.calls c stage) : a ∈ callsOf c scripts :=
  List.mem_flatMap.2 ⟨(script, stage), List.mem_zipIdx_iff_getElem?.2 h, ha⟩

/-- Writes with fresh tokens belong to one stage each. -/
theorem casts_of_fresh (hp : c.policy = .overwrite)
    (hf : Fresh t₀ (callsOf c scripts ++ extra))
    (hplain : ∀ directory, allowed directory → ∀ name ∈ FileTree.pieces directory,
      FileTree.IsName name → ¬ IsTemporary (callsOf c scripts ++ extra) [name]) :
    c.Casts allowed t₀ (callsOf c scripts ++ extra) extra scripts := by
  have hnodup := List.Nodup.of_map _ hf.apart
  obtain ⟨hown, -, hextra⟩ := List.nodup_append.1 hnodup
  obtain ⟨heach, hpairs⟩ := List.nodup_flatMap.1 hown
  refine ⟨hp, hf, fun i script hi => heach (script, i) (List.mem_zipIdx_iff_getElem?.2 hi),
    fun i k script other hi hk hne a ha hin => ?_, fun i script hi a ha hin => ?_, hplain⟩
  · have hsymm : Std.Symm (Function.onFun List.Disjoint fun x : Script × Nat => x.1.calls c x.2) :=
      ⟨fun _ _ h a ha hb => h hb ha⟩
    have hne' : (script, i) ≠ (other, k) := fun heq => hne (congrArg Prod.snd heq)
    exact hpairs.forall (List.mem_zipIdx_iff_getElem?.2 hi) (List.mem_zipIdx_iff_getElem?.2 hk)
      hne' ha hin
  · exact hextra a (mem_callsOf hi ha) a hin rfl

/-- At the start every write has its writer. -/
theorem hasWriter_start {a : Disk.Call} (h : a ∈ calls) :
    HasWriter calls (Race.start .overwrite t₀ calls) a (a.writer .overwrite) := by
  obtain ⟨k, hk⟩ := List.mem_iff_getElem?.1 h
  refine ⟨k, hk, ?_⟩
  rw [Race.start, List.getElem?_map, hk]
  rfl

/-- A write with a fresh token has one writer. -/
theorem HasWriter.eq_of_getElem? (hf : Fresh t₀ calls) {i : Nat} {a : Disk.Call} {v u : Writer}
    (h : HasWriter calls race a v) (ha : calls[i]? = some a) (hu : race.writers[i]? = some u) :
    v = u := by
  obtain ⟨k, hk, hv⟩ := h
  obtain ⟨hlen, -⟩ := List.getElem?_eq_some_iff.1 hk
  obtain rfl := (List.getElem?_inj hlen (List.Nodup.of_map _ hf.apart)).1 (hk.trans ha.symm)
  exact Option.some.inj (hv.symm.trans hu)

/-! ## When all stages have ended -/

/-- A stage that has nothing more to do has done all of its writes, and its
outcome is the one that its script leads to. -/
theorem Worker.Follows.ended {done : List Disk.Call} {rest : List Draft} {outcome : Outcome}
    (h : w.Follows c allowed calls race stage script done rest)
    (hended : w.outcome? = some outcome) : outcome = script.outcome c.reply ∧
      ∀ a ∈ script.calls c stage, ∃ v, HasWriter calls race a v ∧ v.phase = .done (.ok a.path) := by
  obtain ⟨hsplit, hleads, hfinished, -, -⟩ := h
  unfold Worker.outcome? at hended
  split at hended
  · next other htask =>
    obtain rfl : other = outcome := Option.some.inj hended
    rw [htask] at hsplit hleads
    obtain ⟨-, rfl, houtcome⟩ := hleads.of_ready
    refine ⟨houtcome.symm, ?_⟩
    rw [hsplit]
    simpa [Task.current, Script.drafts, numbered] using hfinished
  · cases hended

/-- **Stages that have ended** have done all of their writes, and their outcomes
are those that their scripts lead to. -/
theorem Session.Shadows.ended (h : s.Shadows c allowed t₀ calls extra scripts race)
    {outcomes : List Outcome} (hended : s.outcomes? = some outcomes) :
    outcomes = scripts.map (·.outcome c.reply) ∧ ∀ a ∈ callsOf c scripts,
      ∃ v, HasWriter calls race a v ∧ v.phase = .done (.ok a.path) := by
  rw [Session.outcomes?_eq_some_iff] at hended
  have heach : ∀ (i : Nat) script, scripts[i]? = some script → ∃ outcome,
      outcomes[i]? = some outcome ∧ outcome = script.outcome c.reply ∧
        ∀ a ∈ script.calls c i, ∃ v, HasWriter calls race a v ∧ v.phase = .done (.ok a.path) := by
    intro i script hi
    obtain ⟨hlen, -⟩ := List.getElem?_eq_some_iff.1 hi
    have hw : s.workers[i]? = some (s.workers.get ⟨i, h.length ▸ hlen⟩) :=
      List.getElem?_eq_getElem (h.length ▸ hlen)
    have hat : (s.workers.map Worker.outcome?)[i]? = (outcomes.map some)[i]? := by rw [hended]
    rw [List.getElem?_map, List.getElem?_map, hw, Option.map_some, eq_comm,
      Option.map_eq_some_iff] at hat
    obtain ⟨outcome, hi', houtcome⟩ := hat
    obtain ⟨done, rest, hfollows⟩ := h.workers i script _ hi hw
    obtain ⟨heq, hdone⟩ := hfollows.ended houtcome.symm
    exact ⟨outcome, hi', heq, hdone⟩
  refine ⟨List.ext_getElem? fun i => ?_, fun a ha => ?_⟩
  · rw [List.getElem?_map]
    cases hi : scripts[i]? with
    | none =>
      have hlen : outcomes.length = scripts.length := by
        rw [← h.length, ← List.length_map (f := Worker.outcome?), hended, List.length_map]
      have hover := List.getElem?_eq_none_iff.1 hi
      rw [List.getElem?_eq_none_iff.2 (hlen ▸ hover)]
      rfl
    | some script =>
      obtain ⟨outcome, hi', rfl, -⟩ := heach i script hi
      rw [hi', Option.map_some]
  · obtain ⟨⟨script, i⟩, hi, hin⟩ := List.mem_flatMap.1 ha
    obtain ⟨-, -, -, hdone⟩ := heach i script (List.mem_zipIdx_iff_getElem?.1 hi)
    exact hdone a hin

/-! ## A write by itself -/

theorem ensureDirectory_eq_ok {here : Place} {path : String} {d made : Disk}
    (h : Disk.ensureDirectory here path d = (.ok (), made)) : ∃ u, made = { d with tree := u } ∧
      d.tree.makeDirectories here path = (.ok (), u) := by
  unfold Disk.ensureDirectory at h
  obtain ⟨result, u, hmade⟩ : ∃ result u,
      d.tree.makeDirectories here path = (result, u) := ⟨_, _, rfl⟩
  rw [hmade] at h
  cases result with
  | error failure => cases h
  | ok _ =>
    obtain rfl := (Prod.mk.inj h).2
    exact ⟨u, rfl, hmade⟩

/-- **A document written by itself** beside the race: its writer runs, and if it
succeeds, it rests with its path. -/
theorem exists_race_of_write (htraced : Traced here t₀ calls race) (hf : Fresh t₀ calls)
    {a : Disk.Call} {d e : Disk} {p : String} (halike : Alike race.disk d)
    (hwriter : HasWriter calls race a (a.writer .overwrite))
    (hwrite : Disk.writeAs .overwrite here a.path a.content a.token d = (.ok p, e)) :
    ∃ race', Traced here t₀ calls race' ∧ race'.tree = e.tree ∧
      (∀ b v, b ≠ a → HasWriter calls race b v → HasWriter calls race' b v) ∧
      ∃ v, HasWriter calls race' a v ∧ v.phase = .done (.ok p) := by
  obtain ⟨k, hk, hv⟩ := hwriter
  obtain ⟨events, hwriters, hdisk⟩ := exists_run_of_writer d.patience hv halike
  obtain ⟨hlen, -⟩ := List.getElem?_eq_some_iff.1 hv
  unfold Disk.writeAs at hwrite
  unfold Call.writer at hwriters hdisk
  generalize (Writer.start .overwrite a.path a.content a.token).run .overwrite here d.patience d =
    out at hwriters hdisk hwrite
  obtain ⟨hresult, rfl⟩ := Prod.mk.inj hwrite
  refine ⟨_, htraced.run hf events, hdisk.1, fun b u hne hu => ?_, out.1, ⟨k, hk, ?_⟩, ?_⟩
  · obtain ⟨n, hn, hu⟩ := hu
    have hnk : k ≠ n := by
      rintro rfl
      exact hne (Option.some.inj (hn.symm.trans hk))
    exact ⟨n, hn, by rw [hwriters, List.getElem?_set_ne hnk, hu]⟩
  · rw [hwriters, List.getElem?_set_self hlen]
  · cases hout : out.1.result? with
    | none =>
      rw [hout] at hresult
      cases hresult
    | some result =>
      rw [hout] at hresult
      obtain rfl : result = .ok p := hresult
      exact Writer.result?_eq_some.1 hout

/-- **The last write**, done when all stages have ended. Every writer of the race
rests with success then. -/
theorem Session.Shadows.conclude {a : Disk.Call}
    (h : s.Shadows c allowed t₀ (callsOf c scripts ++ [a]) [a] scripts race)
    (hcast : c.Casts allowed t₀ (callsOf c scripts ++ [a]) [a] scripts)
    (hended : ∀ b ∈ callsOf c scripts, ∃ v, HasWriter (callsOf c scripts ++ [a]) race b v ∧
      v.phase = .done (.ok b.path)) {p : String} {d : Disk}
    (hwrite : Disk.writeAs .overwrite c.here a.path a.content a.token s.disk = (.ok p, d)) :
    ∃ race, Traced c.here t₀ (callsOf c scripts ++ [a]) race ∧ race.tree = d.tree ∧
      ∀ (i : Nat) (w : Writer), race.writers[i]? = some w → ∃ p, w.phase = .done (.ok p) := by
  obtain ⟨race, htraced, htree, hkeep, v, hv, hdone⟩ := exists_race_of_write h.traced hcast.fresh
    h.alike (h.untouched a (List.mem_singleton_self a)) hwrite
  refine ⟨race, htraced, htree, fun i w hw => ?_⟩
  obtain ⟨b, hb, -⟩ := htraced.ledger.serves i w hw
  rcases List.mem_append.1 (List.mem_of_getElem? hb) with hin | hin
  · obtain ⟨u, hu, hdone⟩ := hended b hin
    obtain ⟨⟨script, k⟩, hk, hown⟩ := List.mem_flatMap.1 hin
    have hne : b ≠ a := fun heq => hcast.spared k script (List.mem_zipIdx_iff_getElem?.1 hk) b hown
      (List.mem_singleton.2 heq)
    obtain rfl := (hkeep b u hne hu).eq_of_getElem? hcast.fresh hb hw
    exact ⟨_, hdone⟩
  · obtain rfl := List.mem_singleton.1 hin
    obtain rfl := hv.eq_of_getElem? hcast.fresh hb hw
    exact ⟨_, hdone⟩

/-! ## A scheduled run -/

namespace Job

/-- The overview of a run in which nothing fails. -/
def overviewText (j : Job) : String :=
  Overview.compose j.overview (j.scripts.map (·.outcome j.reply))

/-- The documents of a run in which nothing fails. The replies decide what they
say. -/
def documents (j : Job) : List Draft :=
  (j.scripts.flatMap fun script => script.drafts j.reply) ++ [⟨j.overviewPath, j.overviewText⟩]

/-- The write of the overview. -/
def overviewCall (j : Job) (m : Schedule) : Disk.Call :=
  ⟨j.overviewPath, j.overviewText, m.token 0 0⟩

/-- The writes of a run on a schedule. -/
def writes (j : Job) (here : Place) (m : Schedule) : List Disk.Call :=
  callsOf (j.setting here m) j.stageScripts ++ [j.overviewCall m]

theorem map_draft_writes (j : Job) (here : Place) (m : Schedule) :
    (j.writes here m).map Call.draft = j.documents := by
  rw [writes, List.map_append, map_draft_callsOf]
  rfl

theorem map_path_documents (j : Job) : j.documents.map (·.path) = j.paths := by
  rw [documents, List.map_append, paths_scripts]
  rfl

theorem map_path_writes (j : Job) (here : Place) (m : Schedule) :
    (j.writes here m).map (·.path) = j.paths := by
  rw [← map_path_documents, ← map_draft_writes j here m, List.map_map]
  rfl

/-- The stages have what they need to begin with. -/
theorem casts (hpolicy : j.output.collision = .overwrite) (hf : Fresh t (j.writes here m)) :
    (j.setting here m).Casts j.Allows t (j.writes here m) [j.overviewCall m] j.stageScripts := by
  refine casts_of_fresh hpolicy hf fun directory hallowed name hname hn => ?_
  obtain ⟨path, hpath, hsub⟩ := hallowed
  rw [← map_path_writes j here m] at hpath
  obtain ⟨a, ha, rfl⟩ := List.mem_map.1 hpath
  exact hf.path a ha name (hsub name hname hn)

/-- The stages before their first turns, beside a race in which no writer has
moved. -/
theorem shadows_session (hcheck : j.config.check = .ok ()) (hc : t.IsClosed)
    (hb : t.get? here = some .directory) (hf : Fresh t (j.writes here m)) {u : FileTree}
    (hmade : t.makeDirectories here j.output.directory = (.ok (), u))
    (hcast : (j.setting here m).Casts j.Allows t (j.writes here m) [j.overviewCall m]
      j.stageScripts) :
    ∃ race, (j.session ⟨u, [], 0⟩).Shadows (j.setting here m) j.Allows t (j.writes here m)
      [j.overviewCall m] j.stageScripts race := by
  have hadds := FileTree.makeDirectories_adds hc hb
    (hcast.plain j.output.directory j.allows_output)
  rw [hmade] at hadds
  refine ⟨_, ((Traced.start hc hb hf).made hf hadds), ⟨rfl, rfl⟩, by simp [session],
    fun i script w hi hw => ?_, fun a ha => hasWriter_start (List.mem_append_right _ ha)⟩
  rw [session, List.getElem?_map, hi, Option.map_some, Option.some.injEq] at hw
  subst hw
  refine ⟨[], script.drafts j.reply, rfl, .ready ?_, by simp, by simp, fun a ha => ?_⟩
  · rcases List.mem_cons.1 (List.mem_of_getElem? hi) with rfl | hin
    · exact .rest
    · exact steady_of_mem_scripts hcheck hin
  · exact hasWriter_start (List.mem_append_left _ (mem_callsOf hi ha))

/-- A scheduled run in which nothing fails: the stages end, the overview is
written, and the run answers with the output directory. -/
theorem exists_of_follow {d : Disk} (hrun : j.follow here m d = some e) (hok : e.Succeeded) :
    ∃ (made : Disk) (s : Session) (main : Outcome) (others : List Outcome) (p : String),
      Disk.ensureDirectory here j.output.directory d = (.ok (), made) ∧
      s = (j.session made).run (j.setting here m) m.events ∧
      s.outcomes? = some (main :: others) ∧ (∀ act ∈ s.log, act.Succeeded) ∧
      Disk.writeAs j.output.collision here j.overviewPath (Overview.compose main others)
        (m.token 0 0) s.disk = (.ok p, e.disk) ∧
      e.result = .ok j.output.directory := by
  unfold follow at hrun
  split at hrun
  · obtain rfl := Option.some.inj hrun
    cases hok _ (List.mem_singleton_self _)
  · next made hmade =>
    dsimp only at hrun
    split at hrun
    · next main others hended =>
      obtain ⟨result, last, hwrite⟩ : ∃ result last, Disk.writeAs j.output.collision here
          j.overviewPath (Overview.compose main others) (m.token 0 0)
          ((j.session made).run (j.setting here m) m.events).disk = (result, last) := ⟨_, _, rfl⟩
      rw [hwrite] at hrun
      obtain rfl := Option.some.inj hrun
      obtain ⟨p, rfl⟩ : ∃ p, result = .ok p :=
        hok _ (List.mem_append_right _ (List.mem_singleton_self _))
      exact ⟨made, _, main, others, p, hmade, rfl, hended,
        fun act ha => hok act (List.mem_append_left _ ha), hwrite, rfl⟩
    · cases hrun

/-- **What a scheduled run leaves behind**, if it overwrites and nothing fails:
its documents come to the places that their paths reach, and, where no two of
them reach one place, the files are those that `Leaves` tells of. -/
theorem follow_leaves (hcheck : j.config.check = .ok ())
    (hpolicy : j.output.collision = .overwrite) (hc : t.IsClosed)
    (hb : t.get? here = some .directory) (hf : Fresh t (j.writes here m))
    (hrun : j.follow here m { tree := t } = some e) (hok : e.Succeeded) :
    e.result = .ok j.output.directory ∧
      (∀ x ∈ j.documents, ∃ place, t.Reaches here x.path place) ∧
      (ReachApart here t j.paths → ∀ place content,
        e.disk.tree.get? place = some (.file content) ↔
          Leaves here t j.documents place content) := by
  have hcast := casts hpolicy hf
  obtain ⟨made, s, main, others, p, hmade, rfl, hended, hlog, hwrite, hresult⟩ :=
    exists_of_follow hrun hok
  obtain ⟨u, rfl, htree⟩ := ensureDirectory_eq_ok hmade
  obtain ⟨race, hshadows⟩ := shadows_session hcheck hc hb hf htree hcast
  obtain ⟨race, hshadows⟩ := hshadows.run hcast m.events hlog
  obtain ⟨houtcomes, hstages⟩ := hshadows.ended hended
  -- the overview is written with the outcomes that the scripts lead to
  obtain ⟨rfl, rfl⟩ : main = j.overview ∧ others = j.scripts.map (·.outcome j.reply) :=
    List.cons.inj houtcomes
  rw [hpolicy] at hwrite
  obtain ⟨race, htraced, hrace, hall⟩ := hshadows.conclude hcast hstages hwrite
  replace htraced : Traced here t (j.writes here m) race := htraced
  refine ⟨hresult, fun x hx => ?_, fun hapart place content => ?_⟩
  · rw [← map_draft_writes j here m] at hx
    obtain ⟨a, ha, rfl⟩ := List.mem_map.1 hx
    obtain ⟨i, hi⟩ := List.mem_iff_getElem?.1 ha
    obtain ⟨place, -, hreach⟩ := htraced.exists_landed hall hi
    exact ⟨place, hreach⟩
  · rw [← map_path_writes j here m] at hapart
    have hfiles := htraced.get?_eq_file_iff hf hapart hall place content
    rw [map_draft_writes, hrace] at hfiles
    exact hfiles

/-- **Schedules make no difference.** If a run overwrites, no two of its paths
can come to lead to one place, and nothing fails, then it answers the same on
every schedule, all its documents stand where their paths reach, and the files
on the disk are the same in the end: however many requests are under way, in
whatever order calls get their replies and requests finish, and however the
stages take turns.

Paths lead to one place if they do so on some tree that the run may come to
find, by links and parents too; where there are no links, it is enough that they
spell different places (`reachApart_of_spelt`). -/
theorem schedule_independent (hcheck : j.config.check = .ok ())
    (hpolicy : j.output.collision = .overwrite) (hc : t.IsClosed)
    (hb : t.get? here = some .directory) (hapart : ReachApart here t j.paths)
    {first second : Schedule} {e e' : Ending} (hf : Fresh t (j.writes here first))
    (hf' : Fresh t (j.writes here second)) (hrun : j.follow here first { tree := t } = some e)
    (hrun' : j.follow here second { tree := t } = some e') (hok : e.Succeeded)
    (hok' : e'.Succeeded) :
    e.result = e'.result ∧
      (∀ x ∈ j.documents, ∃ place, t.Reaches here x.path place ∧
        e.disk.tree.get? place = some (.file x.content.toUTF8) ∧
        e'.disk.tree.get? place = some (.file x.content.toUTF8)) ∧
      ∀ place content, e.disk.tree.get? place = some (.file content) ↔
        e'.disk.tree.get? place = some (.file content) := by
  obtain ⟨hresult, hreach, hleaves⟩ := follow_leaves hcheck hpolicy hc hb hf hrun hok
  obtain ⟨hresult', -, hleaves'⟩ := follow_leaves hcheck hpolicy hc hb hf' hrun' hok'
  refine ⟨hresult.trans hresult'.symm, fun x hx => ?_, fun place content => ?_⟩
  · obtain ⟨place, hplace⟩ := hreach x hx
    have hleft : Leaves here t j.documents place x.content.toUTF8 := .inl ⟨x, hx, hplace, rfl⟩
    exact ⟨place, hplace, (hleaves hapart place _).2 hleft, (hleaves' hapart place _).2 hleft⟩
  · exact (hleaves hapart place content).trans (hleaves' hapart place content).symm

/-- A class with a method, of which two backends tell. -/
def errand : Job where
  config :=
    { backends := [{ name := "a" }, { name := "b" }]
      output := { directory := "d", mermaid := true } }
  analysis := ⟨"shop", [⟨.type, "A", "a.A", "a/A.java", 1, "class A", "", [], []⟩,
    ⟨.method, "m", "a.A.m", "a/A.java", 2, "void m()", "", [], []⟩]⟩
  limits := .ofBase ⟨1⟩
  backends c := ⟨⟨0⟩, .ok c.backend.name⟩
  generatedOn := ""

/-- One stage after the other, one request at a time. -/
def orderly : Schedule where
  slots := 1
  token stage write := nextToken ⟨⟨[]⟩, [], 8 * stage + write⟩
  events :=
    let answer : List Line.Move := [.begin, .reply 0 0, .reply 0 1, .finish 0]
    let moves : List Line.Move :=
      .begin :: (List.replicate 4 answer).flatten ++ List.replicate 12 .begin
    [1, 2, 3].flatMap fun stage => moves.map (⟨stage, ·⟩)

/-- All requests at once, the last answered first, and every step on the disk by
another stage than the one before. -/
def hasty : Schedule where
  slots := 4
  token stage write := nextToken ⟨⟨[]⟩, [], 99 - (8 * stage + write)⟩
  events :=
    let answers (count : Nat) : List Line.Move := List.replicate (count + 1) .begin ++
      (List.range count).reverse.flatMap fun n => [.reply n 1, .reply n 0, .finish n]
    (answers 2).map (⟨2, ·⟩) ++ (answers 4).map (⟨1, ·⟩) ++
      (List.replicate 12 [⟨3, .begin⟩, ⟨1, .begin⟩, ⟨2, .begin⟩]).flatten

/-- A disk with an older overview. -/
def errandTree : FileTree :=
  ⟨[(["d"], .directory), (["d", "README.md"], .file "old".toUTF8)]⟩

/-- Both schedules leave the same files. -/
theorem schedule_independent_errand : ∃ e e' : Ending,
    errand.follow [] orderly { tree := errandTree } = some e ∧
    errand.follow [] hasty { tree := errandTree } = some e' ∧ e.Succeeded ∧ e'.Succeeded ∧
    e.result = e'.result ∧
    (∀ x ∈ errand.documents, ∃ place, errandTree.Reaches [] x.path place ∧
      e.disk.tree.get? place = some (.file x.content.toUTF8) ∧
      e'.disk.tree.get? place = some (.file x.content.toUTF8)) ∧
    ∀ place content, e.disk.tree.get? place = some (.file content) ↔
      e'.disk.tree.get? place = some (.file content) := by
  obtain ⟨e, hrun, hok⟩ := (Option.any_eq_true _ _).1 (by decide +kernel :
    (errand.follow [] orderly { tree := errandTree }).any fun e => decide e.Succeeded)
  obtain ⟨e', hrun', hok'⟩ := (Option.any_eq_true _ _).1 (by decide +kernel :
    (errand.follow [] hasty { tree := errandTree }).any fun e => decide e.Succeeded)
  have hlinks : errandTree.HasNoLinks := .of_nodes (by simp [errandTree])
  have hf : Fresh errandTree (errand.writes [] orderly) :=
    .of_short (by decide +kernel) (by decide +kernel) (by decide +kernel) (by decide +kernel)
  have hf' : Fresh errandTree (errand.writes [] hasty) :=
    .of_short (by decide +kernel) (by decide +kernel) (by decide +kernel) (by decide +kernel)
  exact ⟨e, e', hrun, hrun', of_decide_eq_true hok, of_decide_eq_true hok',
    schedule_independent (by rfl) rfl (.of_nodes (by decide +kernel)) rfl
      (reachApart_of_spelt hlinks (by decide +kernel)) hf hf' hrun hrun' (of_decide_eq_true hok)
      (of_decide_eq_true hok')⟩

/-- The same, with the diagrams beside the pages, by a path that ends in a dot. -/
def dottedErrand : Job :=
  { errand with
    config :=
      { errand.config with
        output := { errand.config.output with mermaidPath := some "d/elements/." } } }

/-- The same schedule, but the diagrams come first. -/
def diagramsFirst : Schedule :=
  { orderly with
    events := orderly.events.filter (·.stage = 3) ++ orderly.events.filter (·.stage ≠ 3) }

/-- **Where a directory cannot be made, the schedule makes a difference.** A path that ends in a
dot leads to a directory that is there, but none is made at it. So the diagrams are written beside
the pages where the pages come first, and not at all where the diagrams come first, although the
configuration is accepted, all paths lead to different places, and no write fails. -/
theorem schedule_dependent_dottedErrand : ∃ e e' : Ending,
    dottedErrand.config.check = .ok () ∧ dottedErrand.output.collision = .overwrite ∧
    errandTree.IsClosed ∧ errandTree.get? [] = some .directory ∧
    ReachApart [] errandTree dottedErrand.paths ∧
    Fresh errandTree (dottedErrand.writes [] orderly) ∧
    Fresh errandTree (dottedErrand.writes [] diagramsFirst) ∧
    dottedErrand.follow [] orderly { tree := errandTree } = some e ∧
    dottedErrand.follow [] diagramsFirst { tree := errandTree } = some e' ∧
    (∀ act ∈ e.log ++ e'.log, ¬ act.IsFailedWrite) ∧
    ∃ x ∈ dottedErrand.documents,
      e.disk.tree.get? (FileTree.spelt [] x.path) = some (.file x.content.toUTF8) ∧
      e'.disk.tree.get? (FileTree.spelt [] x.path) = none := by
  obtain ⟨e, hrun, hfirst⟩ := (Option.any_eq_true _ _).1 (by decide +kernel :
    (dottedErrand.follow [] orderly { tree := errandTree }).any fun e =>
      decide ((∀ act ∈ e.log, ¬ act.IsFailedWrite) ∧
        ∃ x ∈ dottedErrand.documents, FileTree.spelt [] x.path = ["d", "elements", "A_diagram.md"] ∧
          e.disk.tree.get? (FileTree.spelt [] x.path) = some (.file x.content.toUTF8)))
  obtain ⟨e', hrun', hsecond⟩ := (Option.any_eq_true _ _).1 (by decide +kernel :
    (dottedErrand.follow [] diagramsFirst { tree := errandTree }).any fun e =>
      decide ((∀ act ∈ e.log, ¬ act.IsFailedWrite) ∧
        e.disk.tree.get? ["d", "elements", "A_diagram.md"] = none))
  obtain ⟨hwrote, x, hx, hplace, hthere⟩ := of_decide_eq_true hfirst
  obtain ⟨hwrote', hmissing⟩ := of_decide_eq_true hsecond
  have hlinks : errandTree.HasNoLinks := .of_nodes (by simp [errandTree])
  refine ⟨e, e', by rfl, rfl, .of_nodes (by decide +kernel), rfl,
    reachApart_of_spelt hlinks (by decide +kernel),
    .of_short (by decide +kernel) (by decide +kernel) (by decide +kernel) (by decide +kernel),
    .of_short (by decide +kernel) (by decide +kernel) (by decide +kernel) (by decide +kernel),
    hrun, hrun', List.forall_mem_append.2 ⟨hwrote, hwrote'⟩, x, hx, hthere, ?_⟩
  rw [hplace, hmissing]

end Job

end Docsmith.Generation
