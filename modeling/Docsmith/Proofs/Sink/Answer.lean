import Docsmith.Proofs.FileTree.LinkFree
import Docsmith.Proofs.Sink.Custody
/-!
# Sinks — what an answer is worth

A writer that succeeds answers with a path, and something should stand there
when it does. `answer_absent_iff` says when nothing does, for every policy,
every disk, every order of the steps and whatever steps fail: the writer
spared a document because another writer had reserved the path, and nothing
has come to stand there, or its own document replaced a link that the path
goes through. Where there are no links that other writer has failed or is still
under way, for what claimants have answered is there (`Race.Redeemed`). A path
stays reserved when its write fails, so a later write of the same document
answers with a path at which nothing stands (`skip_answers_absent`).
-/

namespace Docsmith

namespace Disk

open Config (Collision)

open FileTree

variable {policy : Collision} {here : Place} {t₀ : FileTree} {calls : List Call} {i : Nat}
variable {events : List Event} {e : Event} {p : String} {s : Race} {w w' : Writer} {d' : Disk}
variable {note : Note}

namespace Ledger

/-- What is reserved was claimed. -/
theorem exists_claim (h : Ledger policy calls s) (hk : key p ∈ s.disk.reserved) :
    ∃ j q, (j, q) ∈ s.claims ∧ key q = key p := by
  rw [h.reserved] at hk
  obtain ⟨⟨j, q⟩, hm, hq⟩ := List.mem_map.1 hk
  exact ⟨j, q, hm, hq⟩

/-- A writer that is still to rest has no document in the record. -/
theorem not_mem_published (h : Ledger policy calls s) (hw : s.writers[i]? = some w)
    (hphase : ∀ result, w.phase ≠ .done result) (place : Place) : (place, i) ∉ s.published := by
  intro hp
  obtain ⟨w₁, target, hw₁, hdone⟩ := h.rested place i hp
  obtain rfl : w = w₁ := Option.some.inj (hw.symm.trans hw₁)
  exact hphase _ hdone

end Ledger

/-- A document that is spared is spared under its own path. -/
theorem Writer.pass_done {n : Nat} (h : (w.pass policy n).phase = .done (.ok p)) :
    policy = .skip ∧ p = w.path := by
  rw [Writer.pass] at h
  split_ifs at h with hskip
  cases h
  exact ⟨hskip, rfl⟩

/-- The way a turn ends in an answer: the writer found its path taken by what
stands there or by a claim, or its document has landed. -/
theorem Turn.answer_cases (h : Turn policy here w s.disk w' d' note) (hl : Ledger policy calls s)
    (hw : s.writers[i]? = some w) (hbefore : w.phase ≠ .done (.ok p))
    (hafter : w'.phase = .done (.ok p)) :
    (∀ result, w.phase ≠ .done result) ∧
      (policy = .skip ∧ d'.tree = s.tree ∧ note = .nothing ∧
          (s.tree.isPresent here p = true ∨ ∃ j q, j ≠ i ∧ (j, q) ∈ s.claims ∧ key q = key p) ∨
        w.phase = .publish p ∧ ∃ place, note = .landed place ∧
          s.tree.renameFile here (w.temporary p) p = .ok d'.tree ∧
          s.tree.landing here p = .ok place) := by
  obtain ⟨c, hc, hserves⟩ := hl.serves i w hw
  have hphase := hserves.phase
  cases h with
  | rest => exact absurd hafter hbefore
  | @found n hp hthere =>
    rw [hp] at hphase
    obtain ⟨hskip, rfl⟩ := Writer.pass_done hafter
    obtain rfl : n = 0 := hphase.2.resolve_right fun h => by rw [hskip] at h; cases h
    exact ⟨by rw [hp]; simp, .inl ⟨hskip, rfl, rfl, .inl hthere⟩⟩
  | @taken n hp hk =>
    rw [hp] at hphase
    obtain ⟨hskip, rfl⟩ := Writer.pass_done hafter
    obtain rfl : n = 0 := hphase.2.resolve_right fun h => by rw [hskip] at h; cases h
    obtain ⟨j, q, hclaim, hkey⟩ := hl.exists_claim (p := w.path) hk
    -- the claim is another writer's: this one is only about to make its own
    have hij : j ≠ i := by
      rintro rfl
      obtain ⟨w₁, hw₁, hsearched⟩ := hl.claimant j q hclaim
      obtain rfl : w = w₁ := Option.some.inj (hw.symm.trans hw₁)
      exact (hsearched 0).2 hp
    exact ⟨by rw [hp]; simp, .inl ⟨hskip, rfl, rfl, .inr ⟨j, q, hij, hclaim, hkey⟩⟩⟩
  | publish hp hr hland =>
    cases hafter
    exact ⟨by rw [hp]; simp, .inr ⟨hp, _, rfl, hr, hland⟩⟩
  | free | claim | prepare | stage | unstaged | unpublished => cases hafter
  | unprepared | discard | vanished | left => cases hafter

/-! ## What claimants answer -/

/-- A writer that no longer looks for a target answers when its document lands. -/
theorem Turn.lands_of_searched {d : Disk} (h : Turn policy here w d w' d' note)
    (hsearched : ∀ n, w.phase ≠ .look n ∧ w.phase ≠ .reserve n)
    (hdone : w'.phase = .done (.ok p)) : w.phase = .done (.ok p) ∨
      ∃ place, d.tree.renameFile here (w.temporary p) p = .ok d'.tree ∧
        d.tree.landing here p = .ok place := by
  cases h with
  | rest => exact .inl hdone
  | found hp => exact absurd hp (hsearched _).1
  | taken hp => exact absurd hp (hsearched _).2
  | publish hp hr hland =>
    cases hdone
    exact .inr ⟨_, hr, hland⟩
  | free | claim | prepare | stage | unstaged | unpublished => cases hdone
  | unprepared | discard | vanished | left => cases hdone

/-- What writers have answered that claimed a path is there. -/
def Race.Redeemed (here : Place) (s : Race) : Prop :=
  ∀ i q p, (i, q) ∈ s.claims → s.result? i = some (.ok p) → s.tree.isPresent here p = true

/-- **One turn keeps what has been answered.** -/
theorem Race.Redeemed.after (h : s.Redeemed here) (hcustody : InCustody policy here t₀ calls s)
    (hlinks : t₀.HasNoLinks) (hf : Fresh t₀ calls) (hw : s.writers[i]? = some w)
    (ht : Turn policy here w s.disk w' d' note) : (s.after i w' d' note).Redeemed here := by
  have hnone : s.tree.HasNoLinks := hlinks.later hcustody.later
  -- what was there before the turn is there after it, for no path that is tried is temporary
  have hstays : ∀ (j : Nat) q p, (j, q) ∈ s.claims → s.result? j = some (.ok p) →
      d'.tree.isPresent here p = true := by
    intro j q p hclaim hresult
    obtain ⟨v, hv, hdone⟩ := Race.result?_eq_some.1 hresult
    obtain ⟨c, hc, hserves⟩ := hcustody.ledger.serves j v hv
    have hphase := hserves.phase
    rw [hdone] at hphase
    obtain ⟨n, rfl, -⟩ := hphase
    obtain ⟨c', hready⟩ := hcustody.ready hf hw
    have heffect := ht.effect hready hf (hcustody.tidy i w hw)
    refine isPresent_later hcustody.closed hcustody.base hnone heffect.moves.toLater
      (fun name hname _ above => ?_) (h j q _ hclaim hresult)
    rw [isTemporary_concat]
    exact hf.not_isTemporary_candidate (List.mem_of_getElem? hc) hname
  intro j q p hnow hresult
  rw [Race.tree_after]
  obtain ⟨v, hv, hdone⟩ := Race.result?_eq_some.1 hresult
  rcases Race.mem_claims_after.1 hnow with ⟨rfl, rfl⟩ | hclaim
  · -- a writer that has just made its claim has not answered
    obtain rfl : w' = v := Option.some.inj ((Race.writers_after_self hw).symm.trans hv)
    cases ht with
    | claim => cases hdone
  · rcases Race.writers_after_cases hw hv with ⟨rfl, rfl⟩ | ⟨-, hv⟩
    · obtain ⟨u, hu, hsearched⟩ := hcustody.ledger.claimant j q hclaim
      obtain rfl : w = u := Option.some.inj (hw.symm.trans hu)
      rcases ht.lands_of_searched hsearched hdone with hold | ⟨place, hr, hland⟩
      · exact hstays j q p hclaim (Race.result?_eq_some.2 ⟨w, hw, hold⟩)
      · obtain ⟨spot, content, hlocate, hentry, rfl, hreplaces⟩ := replaces_of_renameFile hr hland
        rw [← Bool.not_eq_false, isPresent_replaced hlocate hentry hreplaces]
        exact hnone.not_crosses
    · exact hstays j q p hclaim (Race.result?_eq_some.2 ⟨v, hv, hdone⟩)

/-- **What claimants have answered is there**, on a disk without links. -/
theorem redeemed_race (policy : Collision) (hc : t₀.IsClosed) (hb : t₀.get? here = some .directory)
    (hlinks : t₀.HasNoLinks) (hf : Fresh t₀ calls) (events : List Event) :
    (race policy here t₀ calls events).Redeemed here := by
  have hboth : InCustody policy here t₀ calls (race policy here t₀ calls events) ∧
      (race policy here t₀ calls events).Redeemed here := by
    refine @Race.run_induction policy here _ (fun s => InCustody policy here t₀ calls s ∧
      s.Redeemed here) ⟨.start hc hb hf, fun _ _ _ hclaim => nomatch hclaim⟩ ?_ events
    rintro s i w w' d' note ⟨hcustody, h⟩ hw ht
    exact ⟨hcustody.after hf hw ht, h.after hcustody hlinks hf hw ht⟩
  exact hboth.2

/-! ## When nothing stands at an answer -/

/-- Nothing stands at an answer if it was given for a claim that nothing has come of, or if the
document that came there replaced a link that the path goes through. -/
theorem absent_iff
    (hbefore : (race policy here t₀ calls events).result? e.writer ≠ some (.ok p))
    (hafter : (race policy here t₀ calls (events ++ [e])).result? e.writer = some (.ok p)) :
    (race policy here t₀ calls (events ++ [e])).tree.isPresent here p = false ↔
      (policy = .skip ∧ (race policy here t₀ calls events).tree.isPresent here p = false ∧
        ∃ j q, j ≠ e.writer ∧ (j, q) ∈ (race policy here t₀ calls events).claims ∧
          key q = key p) ∨
      (∃ place, (place, e.writer) ∈ (race policy here t₀ calls (events ++ [e])).published) ∧
        (race policy here t₀ calls events).tree.Crosses here p := by
  have hl : Ledger policy calls (race policy here t₀ calls events) := .run t₀ calls events
  rw [Race.race_concat] at hafter ⊢
  rcases Race.step_cases policy here (race policy here t₀ calls events) e with
    hstep | ⟨w, w', d', note, hw, ht, hstep⟩
  · rw [hstep] at hafter
    exact absurd hafter hbefore
  rw [hstep] at hafter ⊢
  obtain ⟨w₁, hw₁, hdone⟩ := Race.result?_eq_some.1 hafter
  obtain rfl : w' = w₁ := Option.some.inj ((Race.writers_after_self hw).symm.trans hw₁)
  have hnotDone : w.phase ≠ .done (.ok p) := fun h => hbefore (Race.result?_eq_some.2 ⟨w, hw, h⟩)
  obtain ⟨hactive, hspared | ⟨hp, place, rfl, hr, hland⟩⟩ := ht.answer_cases hl hw hnotDone hdone
  · obtain ⟨hskip, htree, rfl, hwhy⟩ := hspared
    have hunpublished : ¬ ∃ place, (place, e.writer) ∈
        ((race policy here t₀ calls events).after e.writer w' d' .nothing).published := by
      rintro ⟨place, hp⟩
      rcases Race.mem_published_after.1 hp with ⟨h, -⟩ | h
      · cases h
      · exact hl.not_mem_published hw hactive place h
    rw [Race.tree_after, htree]
    constructor
    · intro habsent
      rcases hwhy with hthere | hclaim
      · rw [habsent] at hthere
        cases hthere
      · exact .inl ⟨hskip, habsent, hclaim⟩
    · rintro (⟨-, habsent, -⟩ | ⟨hpublished, -⟩)
      · exact habsent
      · exact absurd hpublished hunpublished
  · -- the document has landed: its path leads to it unless it led through what it replaced
    obtain ⟨spot, content, hlocate, hentry, rfl, hreplaces⟩ := replaces_of_renameFile hr hland
    rw [Race.tree_after, isPresent_replaced hlocate hentry hreplaces]
    constructor
    · intro hcrosses
      exact .inr ⟨⟨_, Race.mem_published_after.2 (.inl ⟨rfl, rfl⟩)⟩, hcrosses⟩
    · rintro (⟨hskip, -, j, q, hij, hclaim, hkey⟩ | ⟨-, hcrosses⟩)
      · rcases hl.claimed e.writer w p hw (by rw [hskip]; decide) (by rw [hp]; rfl) with
          hmine | ⟨-, h⟩
        · exact absurd (hl.claim_inj hclaim hmine hkey) hij
        · exact absurd h (hactive _)
      · exact hcrosses

/-- **When nothing stands at an answer.** At the step at which a writer
answers with a path, nothing stands there exactly if it spared the document
for a claim of another writer that nothing has come of, or if its document
replaced a link that the path goes through. Where there are no links, no writer that has
claimed a path has answered with one at which nothing stands: the other writer has failed or
is still under way. -/
theorem answer_absent_iff
    (hbefore : (race policy here t₀ calls events).result? e.writer ≠ some (.ok p))
    (hafter : (race policy here t₀ calls (events ++ [e])).result? e.writer = some (.ok p)) :
    ((race policy here t₀ calls (events ++ [e])).tree.isPresent here p = false ↔
      (policy = .skip ∧ (race policy here t₀ calls events).tree.isPresent here p = false ∧
        ∃ j q, j ≠ e.writer ∧ (j, q) ∈ (race policy here t₀ calls events).claims ∧
          key q = key p) ∨
      (∃ place, (place, e.writer) ∈ (race policy here t₀ calls (events ++ [e])).published) ∧
        (race policy here t₀ calls events).tree.Crosses here p) ∧
    (t₀.IsClosed → t₀.get? here = some .directory → t₀.HasNoLinks → Fresh t₀ calls →
      ∀ j q, (j, q) ∈ (race policy here t₀ calls events).claims →
        (race policy here t₀ calls events).tree.isPresent here p = false →
        (race policy here t₀ calls events).result? j ≠ some (.ok p)) := by
  refine ⟨?_, fun hc hb hlinks hf j q hclaim habsent hresult => ?_⟩
  · exact absent_iff hbefore hafter
  · have hthere := redeemed_race policy hc hb hlinks hf events j q p hclaim hresult
    rw [habsent] at hthere
    cases hthere

/-- A disk with a file where a directory is needed. -/
def blockedTree : FileTree :=
  ⟨[(["f"], .file "file".toUTF8)]⟩

/-- Two writes of one document below the file. -/
def blockedCalls : List Call :=
  ["first", "second"].zipIdx.map fun (content, n) =>
    ⟨"f/x", content, nextToken ⟨blockedTree, [], n⟩⟩

/-- The first writer fails, and the second one sees nothing. -/
def blockedEvents : List Event :=
  [⟨0, .carried⟩, ⟨0, .carried⟩, ⟨0, .carried⟩, ⟨1, .carried⟩]

/-- The second writer spares a document that is not there, for the first one has failed. -/
theorem answer_absent_blocked :
    (race .skip [] blockedTree blockedCalls blockedEvents).result? 1 ≠ some (.ok "f/x") ∧
    (race .skip [] blockedTree blockedCalls (blockedEvents ++ [⟨1, .carried⟩])).result? 1 =
      some (.ok "f/x") ∧
    (race .skip [] blockedTree blockedCalls (blockedEvents ++ [⟨1, .carried⟩])).tree.isPresent []
      "f/x" = false ∧
    (race .skip [] blockedTree blockedCalls blockedEvents).result? 0 ≠ some (.ok "f/x") := by
  have hbefore : (race .skip [] blockedTree blockedCalls blockedEvents).result? 1 ≠
      some (.ok "f/x") := by
    decide +kernel
  have hafter : (race .skip [] blockedTree blockedCalls
      (blockedEvents ++ [⟨1, .carried⟩])).result? 1 = some (.ok "f/x") := by
    decide +kernel
  have hclaims : (0, "f/x") ∈ (race .skip [] blockedTree blockedCalls blockedEvents).claims := by
    decide +kernel
  have habsent : (race .skip [] blockedTree blockedCalls blockedEvents).tree.isPresent [] "f/x" =
      false := by
    decide +kernel
  have hfresh : Fresh blockedTree blockedCalls :=
    .of_short (by decide +kernel) (by decide +kernel) (by decide +kernel) (by decide +kernel)
  obtain ⟨hiff, hfailed⟩ := answer_absent_iff (e := ⟨1, .carried⟩) hbefore hafter
  exact ⟨hbefore, hafter, hiff.2 (.inl ⟨rfl, habsent, 0, "f/x", by decide, hclaims, rfl⟩),
    hfailed (.of_nodes (by decide +kernel)) rfl (.of_nodes (by simp [blockedTree])) hfresh 0 "f/x"
      hclaims habsent⟩

/-- **A path stays reserved when its write fails.** The next write of the
same document is spared, though there is none. -/
theorem skip_answers_absent :
    ¬ ∀ (policy : Collision) (here : Place) (t : FileTree) (drafts : List Draft) (next : Draft)
        (p : String),
      (write policy here next.path next.content
        ((Sink.disk policy here).writeAll drafts ⟨t, [], 0⟩).2).1 = .ok p →
      (write policy here next.path next.content
        ((Sink.disk policy here).writeAll drafts ⟨t, [], 0⟩).2).2.tree.isPresent here p = true := by
  intro hall
  have hthere := hall .skip [] blockedTree [⟨"f/x", "first"⟩] ⟨"f/x", "second"⟩ "f/x"
    (by decide +kernel)
  revert hthere
  decide +kernel

end Disk

end Docsmith
