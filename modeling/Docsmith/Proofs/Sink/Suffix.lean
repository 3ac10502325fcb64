import Docsmith.Proofs.FileTree.LinkFree
import Docsmith.Proofs.Sink.Custody
import Docsmith.Proofs.Sink.Ledger
/-!
# Sinks — numbering what would collide

Writers that number their documents, on a disk without links, in whatever
order they take their steps and whatever steps fail. No two of them answer
with the same path and none with a path at which something stood when they
began. A file of the start is replaced only by a document whose path climbs
up from what was no directory then, and a document only by one whose path
spells the same place in another way (`suffix_spares`); where there is
neither, nothing is lost. A path that climbs does lose something
(`suffix_clobbers`): whether anything stands at a path is asked before the
directories above it are made.
-/


namespace Docsmith

namespace Disk

open Config (Collision)

open FileTree

variable {here : Place} {t₀ : FileTree} {calls : List Call} {i j : Nat} {events : List Event}
variable {place : Place} {c : Call} {s : Race} {w w' : Writer} {d' : Disk} {note : Note}

/-! ## What numbering writers know -/

/-- Numbering writers and the disk: nothing stood at a path that is about to
be reserved or written, and a document that has landed did so where its path
spells. -/
structure Numbers (here : Place) (t₀ : FileTree) (calls : List Call) (s : Race) : Prop where
  custody : InCustody .suffix here t₀ calls s
  unseen : ∀ (i : Nat) (w : Writer) n, s.writers[i]? = some w → w.phase = .reserve n →
    t₀.isPresent here (candidate w.path n) = false
  absent : ∀ (i : Nat) (w : Writer) target, s.writers[i]? = some w →
    w.phase.target? = some target → t₀.isPresent here target = false
  placed : ∀ (i : Nat) (w : Writer) target, s.writers[i]? = some w →
    w.phase = .done (.ok target) → ∃ (u : FileTree) (spot : Spot),
      u.locate here target = .ok spot ∧ spot.IsEntry ∧ u.HasNoLinks ∧
      u.Later (IsTemporary calls) s.tree ∧ (spot.place, i) ∈ s.published
  landed : ∀ place i, (place, i) ∈ s.published → ∃ (w : Writer) (target : String),
    s.writers[i]? = some w ∧ w.phase = .done (.ok target) ∧ place = spelt here target

namespace Numbers

theorem start (hc : t₀.IsClosed) (hb : t₀.get? here = some .directory) (hf : Fresh t₀ calls) :
    Numbers here t₀ calls (Race.start .suffix t₀ calls) := by
  have hphase : ∀ (i : Nat) (w : Writer), (Race.start .suffix t₀ calls).writers[i]? = some w →
      w.phase = .look 0 := by
    intro i w hw
    rw [Race.start, List.getElem?_map, Option.map_eq_some_iff] at hw
    obtain ⟨c, -, rfl⟩ := hw
    rfl
  refine ⟨.start hc hb hf, fun i w n hw hp => ?_, fun i w target hw hp => ?_,
    fun i w target hw hp => ?_, fun place i hp => ?_⟩
  · rw [hphase i w hw] at hp
    cases hp
  · rw [hphase i w hw] at hp
    cases hp
  · rw [hphase i w hw] at hp
    cases hp
  · cases hp

/-- What a writer does not see was not there at the start. -/
theorem absent_of_unseen (h : Numbers here t₀ calls s) (hc : t₀.IsClosed)
    (hb : t₀.get? here = some .directory) (hl : t₀.HasNoLinks) (hf : Fresh t₀ calls)
    (hw : s.writers[i]? = some w) {n : Nat}
    (hp : s.tree.isPresent here (candidate w.path n) = false) :
    t₀.isPresent here (candidate w.path n) = false := by
  obtain ⟨c, hready⟩ := h.custody.ready hf hw
  cases hthere : t₀.isPresent here (candidate w.path n) with
  | false => rfl
  | true =>
    have hnow := isPresent_later hc hb hl h.custody.later (fun name hm _ above => by
      rw [isTemporary_concat]
      rw [hready.serves.path] at hm
      exact hf.not_isTemporary_candidate (List.mem_of_getElem? hready.call) hm) hthere
    rw [hp] at hnow
    cases hnow

/-- **One turn keeps it.** -/
theorem after (h : Numbers here t₀ calls s) (hc : t₀.IsClosed)
    (hb : t₀.get? here = some .directory) (hl : t₀.HasNoLinks) (hf : Fresh t₀ calls)
    (hw : s.writers[i]? = some w) (ht : Turn .suffix here w s.disk w' d' note) :
    Numbers here t₀ calls (s.after i w' d' note) := by
  have hlater : s.tree.Later (IsTemporary calls) d'.tree := by
    obtain ⟨c, hready⟩ := h.custody.ready hf hw
    exact (ht.effect hready hf (h.custody.tidy i w hw)).moves.toLater
  have hkeep : ∀ j target, (∃ (u : FileTree) (spot : Spot), u.locate here target = .ok spot ∧
      spot.IsEntry ∧ u.HasNoLinks ∧ u.Later (IsTemporary calls) s.tree ∧
      (spot.place, j) ∈ s.published) → ∃ (u : FileTree) (spot : Spot),
      u.locate here target = .ok spot ∧ spot.IsEntry ∧ u.HasNoLinks ∧
      u.Later (IsTemporary calls) d'.tree ∧
      (spot.place, j) ∈ (s.after i w' d' note).published := by
    rintro j target ⟨u, spot, hlocate, hentry, hlinks, hu, hp⟩
    exact ⟨u, spot, hlocate, hentry, hlinks,
      hu.trans (fun _ _ hlink => absurd hlink (hlinks _ _)) hlater,
      Race.mem_published_after.2 (.inr hp)⟩
  refine ⟨h.custody.after hf hw ht, fun j w'' n hj hp => ?_,
    fun j w'' target hj hp => ?_, fun j w'' target hj hp => ?_, fun place j hj => ?_⟩
  -- what a writer has seen missing was missing from the start, long before it is reserved
  · rcases Race.writers_after_cases hw hj with ⟨rfl, rfl⟩ | ⟨-, hj⟩
    · rw [ht.path_eq]
      rcases ht.reserve_cases hp with hp | habsent
      · exact h.unseen j w n hw hp
      · exact h.absent_of_unseen hc hb hl hf hw habsent
    · exact h.unseen j w'' n hj hp
  · rcases Race.writers_after_cases hw hj with ⟨rfl, rfl⟩ | ⟨-, hj⟩
    · rcases ht.target_cases hp with ⟨hp, -⟩ | rfl | ⟨hskip, -⟩
      · exact h.absent j w target hw hp
      · obtain ⟨n, hn, rfl⟩ := ht.claimed
        exact h.unseen j w n hw hn
      · cases hskip
    · exact h.absent j w'' target hj hp
  · rcases Race.writers_after_cases hw hj with ⟨rfl, rfl⟩ | ⟨-, hj⟩
    · rcases ht.done_cases hp with hp | ⟨place, rfl⟩ | hskip
      · exact hkeep j target (h.placed j w target hw hp)
      · obtain ⟨target', -, hdone, hland⟩ := ht.landed
        obtain rfl : target' = target := by
          rw [hdone] at hp
          cases hp
          rfl
        obtain ⟨-, spot, hlocate, hentry, rfl⟩ := landing_eq_ok hland
        exact ⟨s.tree, spot, hlocate, hentry, hl.later h.custody.later, hlater,
          Race.mem_published_after.2 (.inl ⟨rfl, rfl⟩)⟩
      · cases hskip
    · exact hkeep j target (h.placed j w'' target hj hp)
  · rcases Race.mem_published_after.1 hj with ⟨rfl, rfl⟩ | hj
    · obtain ⟨target, -, hdone, hland⟩ := ht.landed
      obtain ⟨-, spot, hlocate, -, rfl⟩ := landing_eq_ok hland
      exact ⟨w', target, Race.writers_after_self hw, hdone,
        place_eq_spelt (hl.later h.custody.later) hlocate⟩
    · obtain ⟨v, target, hv, hdone, hplace⟩ := h.landed place j hj
      obtain ⟨v, hv, hdone⟩ : ∃ v : Writer, (s.after i w' d' note).writers[j]? = some v ∧
          v.phase = .done (.ok target) :=
        Race.exists_writer_after hw ht.rests hv hdone
      exact ⟨v, target, hv, hdone, hplace⟩

/-- **Every race of numbering writers keeps it.** -/
theorem run (hc : t₀.IsClosed) (hb : t₀.get? here = some .directory) (hl : t₀.HasNoLinks)
    (hf : Fresh t₀ calls) (events : List Event) :
    Numbers here t₀ calls (race .suffix here t₀ calls events) :=
  Race.run_induction (start hc hb hf) (fun _ _ _ _ _ _ h hw ht => h.after hc hb hl hf hw ht) events

end Numbers

/-! ## What is lost and what is not -/

/-- No document is lost and none is replaced: the answers are distinct and
name nothing that was there at the start, every file of the start is as it
was, and at each path that a writer answers stands the writer's document. -/
structure NothingLost (here : Place) (t₀ : FileTree) (calls : List Call) (s : Race) : Prop where
  apart : ∀ i j p q, s.result? i = some (.ok p) → s.result? j = some (.ok q) → i ≠ j → p ≠ q
  absent : ∀ i p, s.result? i = some (.ok p) → t₀.isPresent here p = false
  kept : ∀ place content, t₀.get? place = some (.file content) →
    s.tree.get? place = some (.file content)
  own : ∀ i p c, s.result? i = some (.ok p) → calls[i]? = some c →
    s.tree.read? here p = some c.bytes

/-- What numbering writers do to the disk: what they answer, and which
document may stand where another one or a file of the start should. -/
structure Spared (here : Place) (t₀ : FileTree) (calls : List Call) (s : Race) : Prop where
  /-- No two writers answer with paths of the same components. -/
  apart : ∀ i j p q, s.result? i = some (.ok p) → s.result? j = some (.ok q) → key p = key q → i = j
  /-- Nothing stood at a path that is answered. -/
  absent : ∀ i p, s.result? i = some (.ok p) → t₀.isPresent here p = false
  /-- A file of the start is as it was, or a document stands there whose path
  goes up from what was no directory. -/
  kept : ∀ place content, t₀.get? place = some (.file content) →
    s.tree.get? place = some (.file content) ∨
    ∃ i p c, s.newest? place = some i ∧ s.result? i = some (.ok p) ∧ calls[i]? = some c ∧
      spelt here p = place ∧ t₀.Climbs here p ∧ ".." ∈ pieces c.path ∧
      s.tree.get? place = some (.file c.bytes)
  /-- At a path that is answered stands the writer's document, or that of
  another one whose path spells the same place in another way. -/
  own : ∀ i p c, s.result? i = some (.ok p) → calls[i]? = some c →
    s.tree.read? here p = some c.bytes ∨
    ∃ j q c', s.newest? (spelt here p) = some j ∧ s.result? j = some (.ok q) ∧
      calls[j]? = some c' ∧ spelt here q = spelt here p ∧ key q ≠ key p ∧
      s.tree.read? here p = some c'.bytes
  /-- Nothing is lost exactly where the last document to land at a place is
  the same as the file that was there and as each document that landed
  there. -/
  exact : NothingLost here t₀ calls s ↔ ∀ place i c, s.newest? place = some i →
    calls[i]? = some c →
      (∀ content, t₀.get? place = some (.file content) → content = c.bytes) ∧
      ∀ j p c', s.result? j = some (.ok p) → spelt here p = place → calls[j]? = some c' →
        c'.bytes = c.bytes

namespace Numbers

/-- The document of a writer that answers stands in the record. -/
theorem mem_published (h : Numbers here t₀ calls s) {p : String}
    (hr : s.result? i = some (.ok p)) : (spelt here p, i) ∈ s.published := by
  obtain ⟨w, hw, hdone⟩ := Race.result?_eq_some.1 hr
  obtain ⟨u, spot, hlocate, -, hlinks, -, hp⟩ := h.placed i w p hw hdone
  rwa [place_eq_spelt hlinks hlocate] at hp

/-- And what stands in the record has been answered. -/
theorem result?_of_mem (h : Numbers here t₀ calls s) (hp : (place, i) ∈ s.published) :
    ∃ p, s.result? i = some (.ok p) ∧ spelt here p = place := by
  obtain ⟨w, p, hw, hdone, hplace⟩ := h.landed place i hp
  exact ⟨p, Race.result?_eq_some.2 ⟨w, hw, hdone⟩, hplace.symm⟩

/-- Answers have different components. -/
theorem key_inj (h : Numbers here t₀ calls s) {p q : String} (hi : s.result? i = some (.ok p))
    (hj : s.result? j = some (.ok q)) (hkey : key p = key q) : i = j := by
  have hclaim : ∀ (i : Nat) p, s.result? i = some (.ok p) → (i, p) ∈ s.claims := by
    intro i p hr
    obtain ⟨w, hw, hdone⟩ := Race.result?_eq_some.1 hr
    rcases h.custody.ledger.claimed i w p hw (by decide) (by rw [hdone]; rfl) with hc | ⟨hskip, -⟩
    · exact hc
    · cases hskip
  exact h.custody.ledger.claim_inj (hclaim i p hi) (hclaim j q hj) hkey

/-- **An answer leads to the last document** that landed where it spells. -/
theorem resolve_eq (h : Numbers here t₀ calls s) {p : String} (hr : s.result? i = some (.ok p)) :
    ∃ j c, s.newest? (spelt here p) = some j ∧ calls[j]? = some c ∧
      s.tree.get? (spelt here p) = some (.file c.bytes) ∧
      s.tree.resolve here p = .ok (.file (spelt here p) c.bytes) := by
  obtain ⟨j, hj⟩ := exists_newest?_of_mem (h.mem_published hr)
  have hfree := h.custody.lasting _ i (h.mem_published hr)
  have hsettled := h.custody.settled _ hfree
  rw [Race.Settled, hj] at hsettled
  obtain ⟨c, hc, hfile⟩ := hsettled
  refine ⟨j, c, hj, hc, hfile, ?_⟩
  obtain ⟨w, hw, hdone⟩ := Race.result?_eq_some.1 hr
  obtain ⟨u, spot, hlocate, hentry, hlinks, hlater, -⟩ := h.placed i w p hw hdone
  have hplace := place_eq_spelt hlinks hlocate
  rw [← hplace] at hfile ⊢
  rw [resolve_later hlinks hlater hlocate fun _ => hfile]
  cases spot with
  | directory => exact hentry.elim
  | _ => rfl

theorem read?_eq (h : Numbers here t₀ calls s) {p : String} (hr : s.result? i = some (.ok p))
    (hj : s.newest? (spelt here p) = some j) (hc : calls[j]? = some c) :
    s.tree.read? here p = some c.bytes := by
  obtain ⟨j', c', hj', hc', -, hresolve⟩ := h.resolve_eq hr
  obtain rfl : j = j' := Option.some.inj (hj.symm.trans hj')
  obtain rfl : c = c' := Option.some.inj (hc.symm.trans hc')
  rw [read?, hresolve]

/-- **A document that lands on a file of the start** has a path that
climbs. -/
theorem climbs (h : Numbers here t₀ calls s) (hc : t₀.IsClosed)
    (hb : t₀.get? here = some .directory) (hl : t₀.HasNoLinks) (hf : Fresh t₀ calls) {p : String}
    {content : ByteArray} (hr : s.result? i = some (.ok p))
    (hfile : t₀.get? (spelt here p) = some (.file content)) : t₀.Climbs here p := by
  obtain ⟨j, c, -, -, -, hresolve⟩ := h.resolve_eq hr
  -- files stay files, so a directory on the way now was none of the old files
  have hsame : ∀ place content, t₀.get? place = some (.file content) →
      s.tree.get? place ≠ some .directory := by
    intro place content hold hdir
    have hfree : ¬ IsTemporary calls place := fun hp => by
      rw [hf.tree place hp] at hold
      cases hold
    obtain ⟨now, hnow⟩ := h.custody.later.file place content hfree hold
    rw [hdir] at hnow
    cases hnow
  have hlinks := hl.later h.custody.later
  obtain ⟨w, hw, hdone⟩ := Race.result?_eq_some.1 hr
  have habsent := h.absent i w p hw (by rw [hdone]; rfl)
  rcases isPresent_or_climbs hc hb hl hlinks hsame (locate_of_resolve hlinks hresolve) trivial hfile
    with hthere | hclimbs
  · rw [habsent] at hthere
    cases hthere
  · exact hclimbs

/-- A path that climbs comes from one that goes up. -/
theorem dotdot_mem (h : Numbers here t₀ calls s) {p : String}
    (hr : s.result? i = some (.ok p)) (hc : calls[i]? = some c) (hp : t₀.Climbs here p) :
    ".." ∈ pieces c.path := by
  obtain ⟨w, hw, hdone⟩ := Race.result?_eq_some.1 hr
  obtain ⟨c', hc', hserves⟩ := h.custody.ledger.serves i w hw
  obtain rfl : c = c' := Option.some.inj (hc.symm.trans hc')
  have hphase := hserves.phase
  rw [hdone] at hphase
  obtain ⟨n, rfl, -⟩ := hphase
  obtain ⟨before, after, hpieces, -⟩ := hp
  have hm : ".." ∈ pieces (candidate c.path n) := by
    rw [hpieces]
    simp
  rcases mem_pieces_candidate hm with he | hm | he
  · exact absurd he (by decide)
  · exact hm
  · exact absurd he.symm (Path.numbered_ne_dotdot c.path n)

/-- A file of the start where nothing landed is as it was. -/
theorem kept (h : Numbers here t₀ calls s) (hf : Fresh t₀ calls) {content : ByteArray}
    (hfile : t₀.get? place = some (.file content)) (hn : s.newest? place = none) :
    s.tree.get? place = some (.file content) := by
  have hfree : ¬ IsTemporary calls place := fun hp => by
    rw [hf.tree place hp] at hfile
    cases hfile
  have hsettled := h.custody.settled place hfree
  rw [Race.Settled, hn] at hsettled
  rcases hsettled with hsame | ⟨hnone, -⟩
  · rw [hsame, hfile]
  · rw [hnone] at hfile
    cases hfile

/-- Where something landed on a file of the start, the place has the last
document. -/
theorem get?_newest (h : Numbers here t₀ calls s) (hn : s.newest? place = some i) :
    ∃ p c, s.result? i = some (.ok p) ∧ spelt here p = place ∧ calls[i]? = some c ∧
      s.tree.get? place = some (.file c.bytes) := by
  obtain ⟨p, hr, hplace⟩ := h.result?_of_mem (mem_published_of_newest? hn)
  obtain ⟨j, c, hj, hc, hfile, -⟩ := h.resolve_eq hr
  rw [hplace] at hj hfile
  obtain rfl : i = j := Option.some.inj (hn.symm.trans hj)
  exact ⟨p, c, hr, hplace, hc, hfile⟩

/-- Nothing is lost exactly where all documents of a place are alike. -/
theorem nothingLost_iff (h : Numbers here t₀ calls s) (hf : Fresh t₀ calls) :
    NothingLost here t₀ calls s ↔ ∀ place i c, s.newest? place = some i → calls[i]? = some c →
      (∀ content, t₀.get? place = some (.file content) → content = c.bytes) ∧
      ∀ j p c', s.result? j = some (.ok p) → spelt here p = place → calls[j]? = some c' →
        c'.bytes = c.bytes := by
  constructor
  · intro hlost place i c hn hc
    obtain ⟨-, c₁, -, -, hc₁, hfile⟩ := h.get?_newest hn
    obtain rfl : c = c₁ := Option.some.inj (hc.symm.trans hc₁)
    refine ⟨fun content hold => ?_, fun j p c' hr hplace hc' => ?_⟩
    · have hkept := hlost.kept place content hold
      rw [hfile] at hkept
      cases hkept
      rfl
    · have hown := hlost.own j p c' hr hc'
      rw [h.read?_eq hr (hplace ▸ hn) hc] at hown
      exact (Option.some.inj hown).symm
  · intro halike
    refine ⟨fun i j p q hi hj hij hpq => hij (h.key_inj hi hj (by rw [hpq])), fun i p hr => ?_,
      fun place content hold => ?_, fun i p c hr hc => ?_⟩
    · obtain ⟨w, hw, hdone⟩ := Race.result?_eq_some.1 hr
      exact h.absent i w p hw (by rw [hdone]; rfl)
    · cases hn : s.newest? place with
      | none => exact h.kept hf hold hn
      | some i =>
        obtain ⟨-, c, -, -, hc, hfile⟩ := h.get?_newest hn
        rw [hfile, (halike place i c hn hc).1 content hold]
    · obtain ⟨j, c', hj, hc', -, -⟩ := h.resolve_eq hr
      rw [h.read?_eq hr hj hc', (halike _ j c' hj hc').2 i p c hr rfl hc]

end Numbers

/-- **Numbering spares what is there**, whatever the order of the steps and
whichever of them fail, but for paths that climb and paths that spell one
place in two ways. -/
theorem suffix_spares (hc : t₀.IsClosed) (hb : t₀.get? here = some .directory)
    (hl : t₀.HasNoLinks) (hf : Fresh t₀ calls) (events : List Event) :
    Spared here t₀ calls (race .suffix here t₀ calls events) := by
  have h := Numbers.run hc hb hl hf events
  refine ⟨fun i j p q hi hj hkey => h.key_inj hi hj hkey, fun i p hr => ?_,
    fun place content hold => ?_, fun i p c hr hcall => ?_, h.nothingLost_iff hf⟩
  · obtain ⟨w, hw, hdone⟩ := Race.result?_eq_some.1 hr
    exact h.absent i w p hw (by rw [hdone]; rfl)
  · cases hn : (race .suffix here t₀ calls events).newest? place with
    | none => exact .inl (h.kept hf hold hn)
    | some i =>
      obtain ⟨p, c, hr, hplace, hcall, hfile⟩ := h.get?_newest hn
      have hclimbs := h.climbs hc hb hl hf hr (hplace ▸ hold)
      exact .inr ⟨i, p, c, rfl, hr, hcall, hplace, hclimbs, h.dotdot_mem hr hcall hclimbs, hfile⟩
  · obtain ⟨j, c', hj, hcall', -, -⟩ := h.resolve_eq hr
    have hread := h.read?_eq hr hj hcall'
    by_cases hij : j = i
    · subst hij
      obtain rfl : c = c' := Option.some.inj (hcall.symm.trans hcall')
      exact .inl hread
    · obtain ⟨q, hq, hplace⟩ := h.result?_of_mem (mem_published_of_newest? hj)
      exact .inr ⟨j, q, c', hj, hq, hcall', hplace, fun hkey => hij (h.key_inj hq hr hkey), hread⟩

/-- A disk with one document in a directory and one beside it. -/
def crowdedTree : FileTree :=
  ⟨[(["d"], .directory), (["d", "x.md"], .file "old".toUTF8), (["f"], .file "file".toUTF8)]⟩

/-- Two writes to the document, one that climbs to it and one below a file. -/
def crowdedCalls : List Call :=
  [("d/x.md", "first"), ("d/x.md", "second"), ("e/../d/x.md", "third"), ("f/x", "fourth")].zipIdx.map
    fun ((path, content), n) => ⟨path, content, nextToken ⟨crowdedTree, [], n⟩⟩

/-- The writers take their steps in turn. -/
def crowdedEvents : List Event :=
  (List.range 12).flatMap fun _ => (List.range 4).map fun i => ⟨i, .carried⟩

/-- Four writers at once. -/
theorem suffix_spares_crowded : crowdedTree.IsClosed ∧ crowdedTree.get? [] = some .directory ∧
    crowdedTree.HasNoLinks ∧ Fresh crowdedTree crowdedCalls ∧
    Spared [] crowdedTree crowdedCalls (race .suffix [] crowdedTree crowdedCalls crowdedEvents) := by
  have hc : crowdedTree.IsClosed := .of_nodes (by decide +kernel)
  have hb : crowdedTree.get? [] = some .directory := rfl
  have hl : crowdedTree.HasNoLinks := .of_nodes (by simp [crowdedTree])
  have hf : Fresh crowdedTree crowdedCalls :=
    .of_short (by decide +kernel) (by decide +kernel) (by decide +kernel) (by decide +kernel)
  exact ⟨hc, hb, hl, hf, suffix_spares hc hb hl hf crowdedEvents⟩

/-- The first two are numbered and the third one replaces the document. -/
example : (race .suffix [] crowdedTree crowdedCalls crowdedEvents).tree.nodes =
    [(["d"], .directory), (["d", "x.md"], .file "third".toUTF8),
      (["d", "x_1.md"], .file "first".toUTF8), (["d", "x_2.md"], .file "second".toUTF8),
      (["e"], .directory), (["f"], .file "file".toUTF8)] := by
  decide +kernel

/-- **A path that climbs replaces what it climbs to.** Nothing stands at
`a/../x` as long as there is no `a`; the writer makes it, and its document
lands on `x`. -/
theorem suffix_clobbers :
    ¬ ∀ (t : FileTree) (calls : List Call) (events : List Event), t.IsClosed → t.HasNoLinks →
      Fresh t calls → NothingLost [] t calls (race .suffix [] t calls events) := by
  intro hall
  have hlost := hall ⟨[(["x"], .file "original".toUTF8)]⟩
    [⟨"a/../x", "new", "00000000-0000-0000-0000-000000000000"⟩]
    (List.replicate 5 ⟨0, .carried⟩) (.of_nodes (by decide +kernel)) (.of_nodes (by simp))
    (.of_short (by decide +kernel) (by decide +kernel) (by decide +kernel) (by decide +kernel))
  have hkept := hlost.kept ["x"] "original".toUTF8 (by decide +kernel)
  revert hkept
  decide +kernel

end Disk

end Docsmith
