import Docsmith.Proofs.Sink.Race
import Mathlib.Data.List.Nodup
import Mathlib.Tactic.SplitIfs
/-!
# Sinks — the record of a race

What a race records agrees with what its writers do: the reserved paths are
the claimed ones and no path is claimed twice, a writer that has looked for
a target works on one that it has claimed, and the writers whose documents
landed are those that rest with a path, but for the writers that spared what
was there. What is recorded stays recorded, and a document is recorded where
its target led when it was renamed (`exists_of_mem_published`).
-/


namespace Docsmith

namespace Disk

open Config (Collision)

variable {policy : Collision} {here : Place} {i : Nat} {w w' : Writer} {d d' : Disk} {note : Note}
variable {s : Race} {place : Place} {path target : String} {c : Call} {calls : List Call}

/-! ## A writer and its write -/

/-- The target is one of the paths that the policy has for a path. -/
def Tries (policy : Collision) (path target : String) : Prop :=
  ∃ n, target = candidate path n ∧ (n = 0 ∨ policy = .suffix)

theorem tries_self (policy : Collision) (path : String) : Tries policy path path :=
  ⟨0, rfl, .inl rfl⟩

/-- Overwriting, the only target is the path itself. -/
theorem Tries.eq_of_overwrite {path target : String} (h : Tries .overwrite path target) :
    target = path := by
  obtain ⟨n, rfl, rfl | h⟩ := h
  · rfl
  · cases h

/-- The phase of a write to a path: only policies that spare what exists
look for a target, and the target is one of those that are tried. -/
def Phase.Fits (policy : Collision) (path : String) : Phase → Prop
  | .look n | .reserve n => policy ≠ .overwrite ∧ (n = 0 ∨ policy = .suffix)
  | .prepare target | .stage target | .publish target | .discard target _
  | .done (.ok target) => Tries policy path target
  | .done (.error _) => True

/-- The writer is at the write it was started for. -/
structure Writer.Serves (policy : Collision) (c : Call) (w : Writer) : Prop where
  path : w.path = c.path
  content : w.content = c.content
  token : w.token = c.token
  phase : w.phase.Fits policy c.path

theorem Writer.Serves.start (policy : Collision) (c : Call) :
    (Writer.start policy c.path c.content c.token).Serves policy c := by
  refine ⟨rfl, rfl, rfl, ?_⟩
  rw [Writer.start]
  split_ifs with h
  · exact tries_self policy c.path
  · exact ⟨h, .inl rfl⟩

/-- A document is spared under its own path, and any other one gets the
next candidate. -/
theorem Phase.Fits.pass {n : Nat} (h : policy ≠ .overwrite ∧ (n = 0 ∨ policy = .suffix)) :
    (w.pass policy n).phase.Fits policy w.path := by
  rw [Writer.pass]
  split_ifs with hskip
  · exact tries_self policy w.path
  · refine ⟨h.1, .inr ?_⟩
    cases policy with
    | overwrite => exact absurd rfl h.1
    | skip => exact absurd rfl hskip
    | suffix => rfl

/-- **A writer keeps to its write.** -/
theorem Turn.serves (h : Turn policy here w d w' d' note) (hs : w.Serves policy c) :
    w'.Serves policy c := by
  obtain ⟨hpath, hcontent, htoken, hphase⟩ := hs
  cases h with
  | rest => exact ⟨hpath, hcontent, htoken, hphase⟩
  | found hp | taken hp =>
    rw [hp] at hphase
    exact ⟨hpath, hcontent, htoken, hpath ▸ Phase.Fits.pass hphase⟩
  | free hp =>
    rw [hp] at hphase
    exact ⟨hpath, hcontent, htoken, hphase⟩
  | claim hp =>
    rw [hp] at hphase
    exact ⟨hpath, hcontent, htoken, _, by rw [hpath], hphase.2⟩
  | prepare hp | stage hp | unstaged hp | publish hp | unpublished hp =>
    rw [hp] at hphase
    exact ⟨hpath, hcontent, htoken, hphase⟩
  | unprepared hp | discard hp | vanished hp | left hp =>
    exact ⟨hpath, hcontent, htoken, trivial⟩

/-- A writer's result is that of the phase it rests in. -/
theorem Writer.result?_eq_some {result : Except Failure String} :
    w.result? = some result ↔ w.phase = .done result := by
  rw [Writer.result?]
  cases w.phase <;> simp

theorem Race.result?_eq_some {result : Except Failure String} :
    s.result? i = some result ↔ ∃ w, s.writers[i]? = some w ∧ w.phase = .done result := by
  rw [Race.result?, Option.bind_eq_some_iff]
  exact exists_congr fun w => and_congr_right fun _ => Writer.result?_eq_some

/-! ## The record -/

/-- The target of a phase: the path that a writer works on or has answered. -/
def Phase.target? : Phase → Option String
  | .prepare target | .stage target | .publish target | .discard target _ => some target
  | .done (.ok target) => some target
  | _ => none

/-- What tells two paths of the list of reserved ones apart. -/
def key (path : String) : List Path.Component :=
  Path.components path.toList

/-- The record agrees with the writers. -/
structure Ledger (policy : Collision) (calls : List Call) (s : Race) : Prop where
  length : s.writers.length = calls.length
  serves : ∀ (i : Nat) (w : Writer), s.writers[i]? = some w →
    ∃ c, calls[i]? = some c ∧ w.Serves policy c
  reserved : s.disk.reserved = s.claims.map fun claim => key claim.2
  apart : (s.claims.map fun claim => key claim.2).Nodup
  claimed : ∀ (i : Nat) (w : Writer) target, s.writers[i]? = some w → policy ≠ .overwrite →
    w.phase.target? = some target → (i, target) ∈ s.claims ∨
      policy = .skip ∧ w.phase = .done (.ok target)
  answered : ∀ (i : Nat) (w : Writer) target, s.writers[i]? = some w →
    w.phase = .done (.ok target) → (∃ place, (place, i) ∈ s.published) ∨ policy = .skip
  claimant : ∀ (i : Nat) target, (i, target) ∈ s.claims → ∃ w : Writer, s.writers[i]? = some w ∧
    ∀ n, w.phase ≠ .look n ∧ w.phase ≠ .reserve n
  rested : ∀ place i, (place, i) ∈ s.published → ∃ (w : Writer) (target : String),
    s.writers[i]? = some w ∧ w.phase = .done (.ok target)

/-- What a writer's target after a turn was before: the same one, or one it
has just claimed, or the path of a document that is spared. -/
theorem Turn.target_cases (h : Turn policy here w d w' d' note)
    (hphase : w'.phase.target? = some target) :
    w.phase.target? = some target ∧ (∀ p, note ≠ .claimed p) ∨ note = .claimed target ∨
      policy = .skip ∧ w'.phase = .done (.ok target) := by
  cases h with
  | rest => exact .inl ⟨hphase, by simp⟩
  | found hp | taken hp =>
    rw [Writer.pass] at hphase ⊢
    split_ifs at hphase ⊢ with hskip
    · cases hphase
      exact .inr (.inr ⟨hskip, rfl⟩)
    · cases hphase
  | free hp => cases hphase
  | claim hp =>
    cases hphase
    exact .inr (.inl rfl)
  | prepare hp | stage hp | unstaged hp | publish hp | unpublished hp =>
    cases hphase
    exact .inl ⟨by rw [hp]; rfl, by simp⟩
  | unprepared hp | discard hp | vanished hp | left hp => cases hphase

/-- A writer comes to rest with a path when its document lands, or it spares
what is there, or it has rested already. -/
theorem Turn.done_cases (h : Turn policy here w d w' d' note)
    (hphase : w'.phase = .done (.ok target)) :
    w.phase = .done (.ok target) ∨ (∃ place, note = .landed place) ∨ policy = .skip := by
  cases h with
  | rest => exact .inl hphase
  | found hp | taken hp =>
    rw [Writer.pass] at hphase
    split_ifs at hphase with hskip
    exact .inr (.inr hskip)
  | publish hp => exact .inr (.inl ⟨_, rfl⟩)
  | free hp | claim hp | prepare hp | stage hp | unstaged hp | unpublished hp => cases hphase
  | unprepared hp | discard hp | vanished hp | left hp => cases hphase

/-- A writer that rests goes on resting. -/
theorem Turn.rests (h : Turn policy here w d w' d' note) {result : Except Failure String}
    (hphase : w.phase = .done result) : w'.phase = .done result := by
  cases h with
  | rest => exact hphase
  | found hp | taken hp | free hp | claim hp | prepare hp | unprepared hp | stage hp | unstaged hp
  | publish hp | unpublished hp | discard hp | vanished hp | left hp =>
    rw [hp] at hphase
    cases hphase

/-- A claim is new, and the list of reserved paths grows by it. -/
theorem Turn.reserved (h : Turn policy here w d w' d' note) :
    (∀ target, note ≠ .claimed target) ∧ d'.reserved = d.reserved ∨
      ∃ target, note = .claimed target ∧ key target ∉ d.reserved ∧
        d'.reserved = key target :: d.reserved := by
  cases h with
  | claim _ hk => exact .inr ⟨_, rfl, hk, rfl⟩
  | _ => exact .inl ⟨by simp, rfl⟩

/-- A writer keeps its path. -/
theorem Turn.path_eq (h : Turn policy here w d w' d' note) : w'.path = w.path := by
  cases h <;> rfl

/-- What is claimed is the candidate that the writer was about to reserve. -/
theorem Turn.claimed (h : Turn policy here w d w' d' (.claimed target)) :
    ∃ n, w.phase = .reserve n ∧ target = candidate w.path n := by
  cases h with
  | claim hp => exact ⟨_, hp, rfl⟩

/-- A writer is about to reserve what it has just seen missing, or it has
not moved. -/
theorem Turn.reserve_cases {n : Nat} (h : Turn policy here w d w' d' note)
    (hphase : w'.phase = .reserve n) :
    w.phase = .reserve n ∨ d.tree.isPresent here (candidate w.path n) = false := by
  cases h with
  | rest => exact .inl hphase
  | found hp | taken hp =>
    rw [Writer.pass] at hphase
    split_ifs at hphase
  | free hp habsent =>
    cases hphase
    exact .inr habsent
  | claim hp | prepare hp | stage hp | unstaged hp | publish hp | unpublished hp => cases hphase
  | unprepared hp | discard hp | vanished hp | left hp => cases hphase

/-- A writer that does not look for a target goes on not looking. -/
theorem Turn.searched (h : Turn policy here w d w' d' note)
    (hphase : ∀ n, w.phase ≠ .look n ∧ w.phase ≠ .reserve n) (n : Nat) :
    w'.phase ≠ .look n ∧ w'.phase ≠ .reserve n := by
  cases h with
  | rest => exact hphase n
  | found hp | free hp => exact absurd hp (hphase _).1
  | taken hp | claim hp => exact absurd hp (hphase _).2
  | prepare hp | stage hp | unstaged hp | publish hp | unpublished hp => simp
  | unprepared hp | discard hp | vanished hp | left hp => simp

/-- Nor does one that has claimed its target. -/
theorem Turn.searched_of_claimed (h : Turn policy here w d w' d' (.claimed target)) (n : Nat) :
    w'.phase ≠ .look n ∧ w'.phase ≠ .reserve n := by
  cases h with
  | claim => simp

/-- A document that lands is that of a writer that has done its work. -/
theorem Turn.landed (h : Turn policy here w d w' d' (.landed place)) :
    ∃ target, w.phase = .publish target ∧ w'.phase = .done (.ok target) ∧
      d.tree.landing here target = .ok place := by
  cases h with
  | publish hp _ hl => exact ⟨_, hp, rfl, hl⟩

namespace Ledger

theorem start (policy : Collision) (t : FileTree) (calls : List Call) :
    Ledger policy calls (Race.start policy t calls) := by
  have hphase : ∀ (i : Nat) (w : Writer), (Race.start policy t calls).writers[i]? = some w →
      w.phase = .prepare w.path ∧ policy = .overwrite ∨ w.phase = .look 0 := by
    intro i w hw
    rw [Race.start, List.getElem?_map, Option.map_eq_some_iff] at hw
    obtain ⟨c, -, rfl⟩ := hw
    rw [Writer.start]
    split_ifs with h
    · exact .inl ⟨rfl, h⟩
    · exact .inr rfl
  refine ⟨by simp [Race.start], fun i w hw => ?_, rfl, .nil, fun i w target hw hpolicy ht => ?_,
    fun i w target hw ht => ?_, fun _ _ h => ?_, fun _ _ h => ?_⟩
  · rw [Race.start, List.getElem?_map, Option.map_eq_some_iff] at hw
    obtain ⟨c, hc, rfl⟩ := hw
    exact ⟨c, hc, .start policy c⟩
  · rcases hphase i w hw with ⟨-, h⟩ | h
    · exact absurd h hpolicy
    · rw [h] at ht
      cases ht
  · rcases hphase i w hw with ⟨h, -⟩ | h
    · rw [h] at ht
      cases ht
    · rw [h] at ht
      cases ht
  · cases h
  · cases h

/-- **One turn keeps the record.** -/
theorem after (h : Ledger policy calls s) (hw : s.writers[i]? = some w)
    (ht : Turn policy here w s.disk w' d' note) : Ledger policy calls (s.after i w' d' note) := by
  refine ⟨?_, fun j w'' hj => ?_, ?_, ?_, fun j w'' target hj hpolicy htarget => ?_,
    fun j w'' target hj hdone => ?_, fun j target hj => ?_, fun place j hj => ?_⟩
  · rw [Race.writers_after, List.length_set, h.length]
  · rcases Race.writers_after_cases hw hj with ⟨rfl, rfl⟩ | ⟨-, hj⟩
    · obtain ⟨c, hc, hserves⟩ := h.serves j w hw
      exact ⟨c, hc, ht.serves hserves⟩
    · exact h.serves j w'' hj
  · rcases ht.reserved with ⟨hnote, hd⟩ | ⟨target, rfl, -, hd⟩
    · rw [Race.disk_after, hd, h.reserved, Race.claims_of_not_claimed hnote]
    · rw [Race.disk_after, hd, h.reserved]
      rfl
  · -- a claim is made in the step that looks at the list, so it is a new one
    rcases ht.reserved with ⟨hnote, -⟩ | ⟨target, rfl, hnew, -⟩
    · rw [Race.claims_of_not_claimed hnote]
      exact h.apart
    · rw [h.reserved] at hnew
      exact List.nodup_cons.2 ⟨hnew, h.apart⟩
  · rw [Race.mem_claims_after]
    rcases Race.writers_after_cases hw hj with ⟨rfl, rfl⟩ | ⟨-, hj⟩
    · rcases ht.target_cases htarget with ⟨hold, -⟩ | hclaim | hskip
      · rcases h.claimed j w target hw hpolicy hold with hc | ⟨hskip, hdone⟩
        · exact .inl (.inr hc)
        · exact .inr ⟨hskip, ht.rests hdone⟩
      · exact .inl (.inl ⟨hclaim, rfl⟩)
      · exact .inr hskip
    · exact (h.claimed j w'' target hj hpolicy htarget).imp_left .inr
  · rcases Race.writers_after_cases hw hj with ⟨rfl, rfl⟩ | ⟨-, hj⟩
    · rcases ht.done_cases hdone with hold | ⟨place, hplace⟩ | hskip
      · refine (h.answered j w target hw hold).imp_left fun ⟨place, hp⟩ => ⟨place, ?_⟩
        exact Race.mem_published_after.2 (.inr hp)
      · exact .inl ⟨place, Race.mem_published_after.2 (.inl ⟨hplace, rfl⟩)⟩
      · exact .inr hskip
    · refine (h.answered j w'' target hj hdone).imp_left fun ⟨place, hp⟩ => ⟨place, ?_⟩
      exact Race.mem_published_after.2 (.inr hp)
  · rcases Race.mem_claims_after.1 hj with ⟨rfl, rfl⟩ | hj
    · exact ⟨w', Race.writers_after_self hw, ht.searched_of_claimed⟩
    · obtain ⟨v, hv, hsearched⟩ := h.claimant j target hj
      exact Race.exists_writer_after hw ht.searched hv hsearched
  · rcases Race.mem_published_after.1 hj with ⟨rfl, rfl⟩ | hj
    · obtain ⟨target, -, hdone, -⟩ := ht.landed
      exact ⟨w', target, Race.writers_after_self hw, hdone⟩
    · obtain ⟨v, target, hv, hdone⟩ := h.rested place j hj
      obtain ⟨v, hv, hdone⟩ : ∃ v : Writer, (s.after i w' d' note).writers[j]? = some v ∧
          v.phase = .done (.ok target) :=
        Race.exists_writer_after hw ht.rests hv hdone
      exact ⟨v, target, hv, hdone⟩

/-- **Every race keeps its record.** -/
theorem run (t : FileTree) (calls : List Call) (events : List Event) :
    Ledger policy calls (race policy here t calls events) :=
  Race.run_induction (start policy t calls) (fun _ _ _ _ _ _ h hw ht => h.after hw ht) events

/-- No two writers claim the same path. -/
theorem claim_inj (h : Ledger policy calls s) {j : Nat} {p q : String} (hp : (i, p) ∈ s.claims)
    (hq : (j, q) ∈ s.claims) (hkey : key p = key q) : i = j :=
  congrArg Prod.fst (List.inj_on_of_nodup_map h.apart hp hq hkey)

/-- Every write has its writer. -/
theorem exists_writer (h : Ledger policy calls s) (hc : calls[i]? = some c) :
    ∃ w, s.writers[i]? = some w := by
  obtain ⟨hlen, -⟩ := List.getElem?_eq_some_iff.1 hc
  exact ⟨_, List.getElem?_eq_getElem (by rw [h.length]; exact hlen)⟩

end Ledger

/-! ## What is recorded stays recorded -/

theorem Race.step_published (h : (place, i) ∈ s.published) (e : Event) :
    (place, i) ∈ (s.step policy here e).published := by
  rcases step_cases policy here s e with he | ⟨w, w', d, note, -, -, he⟩
  · rwa [he]
  · rw [he]
    exact mem_published_after.2 (.inr h)

theorem Race.run_published (h : (place, i) ∈ s.published) (events : List Event) :
    (place, i) ∈ (s.run policy here events).published := by
  induction events using List.reverseRecOn with
  | nil => exact h
  | append_singleton events e ih =>
    rw [run_concat]
    exact step_published ih e

/-- **A document is recorded where its target led** when it was renamed. -/
theorem exists_of_mem_published {t : FileTree} {calls : List Call} {events : List Event}
    (h : (place, i) ∈ (race policy here t calls events).published) :
    ∃ before e after, events = before ++ e :: after ∧ e.writer = i ∧
      ∃ (w : Writer) (target : String),
        (race policy here t calls before).writers[i]? = some w ∧
        w.phase = .publish target ∧
        (race policy here t calls before).tree.landing here target =
          .ok place := by
  induction events using List.reverseRecOn with
  | nil => cases h
  | append_singleton events e ih =>
    have hold : (place, i) ∈ (race policy here t calls events).published →
        ∃ before e' after, events ++ [e] = before ++ e' :: after ∧ e'.writer = i ∧
          ∃ (w : Writer) (target : String),
            (race policy here t calls before).writers[i]? = some w ∧
            w.phase = .publish target ∧
            (race policy here t calls before).tree.landing here target =
              .ok place := by
      intro h
      obtain ⟨before, e', after, rfl, hrest⟩ := ih h
      exact ⟨before, e', after ++ [e], by simp, hrest⟩
    rw [Race.race_concat] at h
    rcases Race.step_cases policy here (race policy here t calls events) e with
      he | ⟨w, w', d, note, hw, ht, he⟩
    · rw [he] at h
      exact hold h
    · rw [he] at h
      -- either this is the step of the renaming, or the document was recorded before
      rcases Race.mem_published_after.1 h with ⟨rfl, rfl⟩ | h
      · obtain ⟨target, hp, -, hl⟩ := ht.landed
        exact ⟨events, e, [], rfl, rfl, w, target, hw, hp, hl⟩
      · exact hold h

/-! ## Reading the record -/

/-- What is newest at a place is published there. -/
theorem mem_published_of_newest? {s : Race} (h : s.newest? place = some i) :
    (place, i) ∈ s.published := by
  rw [Race.newest?, Option.map_eq_some_iff] at h
  obtain ⟨⟨other, j⟩, hf, rfl⟩ := h
  obtain rfl : other = place := by simpa using List.find?_some hf
  exact List.mem_of_find?_eq_some hf

/-- Where something is published, something is the newest. -/
theorem exists_newest?_of_mem {s : Race} (h : (place, i) ∈ s.published) :
    ∃ j, s.newest? place = some j := by
  rw [Race.newest?]
  cases hf : s.published.find? (·.1 == place) with
  | none =>
    have := List.find?_eq_none.1 hf _ h
    simp at this
  | some entry => exact ⟨entry.2, rfl⟩

end Disk

end Docsmith
