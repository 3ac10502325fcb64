import Docsmith.Proofs.Source.Places
import Docsmith.Proofs.Text.Spacing
/-!
# Sources — a text without some of its ranges

A header is the text of a range without the cuts that lie in the range. The cuts are
gone through by their starts, with a cursor behind what was passed. Here the same text is
read character by character, from what the cuts cover and where one of them starts in
the open (`betweenCuts_eq_sweep`); this looks at no order and at no cut twice. So of the
characters that are no blanks those stay that no such cut covers, and neither the order
of the cuts nor their number matters (`textWithout_exact`).
-/


namespace Docsmith.Source

open Text (isBlank collapse IsCollapsed isCollapsed_collapse filter_collapse)
open Syntax (byteCount)

variable {content text before mid rest after : List Char} {range cut : Range}
variable {cuts others : List Range} {p q cursor stop : Nat}

/-! ## Ranges of a text -/

/-- The place lies at an end of the text or between two of its characters. -/
def IsBoundary (content : List Char) (p : Nat) : Prop :=
  ∃ before, before <+: content ∧ byteCount before = p

/-- The range lies in the text, between two boundaries. -/
structure Range.IsPart (r : Range) (content : List Char) : Prop where
  ordered : r.start ≤ r.stop
  start : IsBoundary content r.start
  stop : IsBoundary content r.stop

/-- The place lies in the range. -/
def Range.Holds (r : Range) (p : Nat) : Prop :=
  r.start ≤ p ∧ p < r.stop

/-- The whole range lies in another one. -/
def Range.LiesIn (r outer : Range) : Prop :=
  outer.start ≤ r.start ∧ r.stop ≤ outer.stop

instance (r : Range) (p : Nat) : Decidable (r.Holds p) :=
  inferInstanceAs (Decidable (_ ∧ _))

instance (r outer : Range) : Decidable (r.LiesIn outer) :=
  inferInstanceAs (Decidable (_ ∧ _))

theorem exists_of_dropBytes? (h : dropBytes? p content = some after) :
    ∃ before, content = before ++ after ∧ byteCount before = p := by
  fun_induction dropBytes? p content with
  | case1 => exact ⟨[], (Option.some.inj h).symm ▸ rfl, rfl⟩
  | case2 => cases h
  | case3 n c text hle ih =>
    obtain ⟨before, rfl, hbefore⟩ := ih h
    exact ⟨c :: before, rfl, by rw [byteCount_cons, hbefore]; omega⟩
  | case4 => cases h

/-- At a boundary a text can be cut. -/
theorem isBoundary_iff : IsBoundary content p ↔ (dropBytes? p content).isSome = true := by
  constructor
  · rintro ⟨before, ⟨after, rfl⟩, rfl⟩
    rw [dropBytes?_append, Option.isSome_some]
  · intro h
    obtain ⟨after, hafter⟩ := Option.isSome_iff_exists.1 h
    obtain ⟨before, rfl, hbefore⟩ := exists_of_dropBytes? hafter
    exact ⟨before, List.prefix_append _ _, hbefore⟩

instance (content : List Char) (p : Nat) : Decidable (IsBoundary content p) :=
  decidable_of_iff _ isBoundary_iff.symm

instance (r : Range) (content : List Char) : Decidable (r.IsPart content) :=
  decidable_of_iff (r.start ≤ r.stop ∧ IsBoundary content r.start ∧ IsBoundary content r.stop)
    ⟨fun ⟨ordered, start, stop⟩ => ⟨ordered, start, stop⟩, fun h => ⟨h.ordered, h.start, h.stop⟩⟩

theorem byteCount_eq_zero (h : byteCount text = 0) : text = [] := by
  cases text with
  | nil => rfl
  | cons c text =>
    have hpos := c.utf8Size_pos
    rw [byteCount_cons] at h
    omega

/-- Of two starts of a text the one with fewer bytes is a start of the other one. -/
theorem prefix_of_byteCount_le {front other : List Char} (hfront : front <+: content)
    (hother : other <+: content) (hle : byteCount front ≤ byteCount other) : front <+: other := by
  rcases List.prefix_or_prefix_of_prefix hfront hother with h | ⟨more, rfl⟩
  · exact h
  · rw [byteCount_append] at hle
    have hempty : byteCount more = 0 := by omega
    obtain rfl := byteCount_eq_zero hempty
    exact ⟨[], by rw [List.append_nil, List.append_nil]⟩

/-- A boundary in a part of the text parts it. -/
theorem IsBoundary.split (h : IsBoundary (before ++ (text ++ after)) p)
    (hfrom : byteCount before ≤ p) (hto : p ≤ byteCount before + byteCount text) :
    ∃ mid rest, text = mid ++ rest ∧ byteCount before + byteCount mid = p := by
  obtain ⟨front, hfront, rfl⟩ := h
  obtain ⟨mid, rfl⟩ := prefix_of_byteCount_le (List.prefix_append _ _) hfront hfrom
  have hwhole : before ++ mid <+: before ++ text := by
    refine prefix_of_byteCount_le hfront ?_ (by rwa [byteCount_append before text])
    rw [← List.append_assoc]
    exact List.prefix_append _ _
  obtain ⟨rest, rfl⟩ := (List.prefix_append_right_inj before).1 hwhole
  exact ⟨mid, rest, rfl, (byteCount_append before mid).symm⟩

/-- A range is that of the text between its ends. -/
theorem Range.IsPart.split (h : range.IsPart content) : ∃ before text after,
    content = before ++ (text ++ after) ∧ range.start = byteCount before ∧
      range.stop = byteCount before + byteCount text := by
  obtain ⟨before, hbefore, hstart⟩ := h.start
  obtain ⟨front, hfront, hstop⟩ := h.stop
  have hordered := h.ordered
  obtain ⟨text, rfl⟩ := prefix_of_byteCount_le hbefore hfront (by omega)
  obtain ⟨after, rfl⟩ := hfront
  exact ⟨before, text, after, List.append_assoc _ _ _, hstart.symm,
    by rw [← hstop, byteCount_append]⟩

/-! ## Characters by their places -/

/-- Each character with the place at which it starts. -/
def placed : Nat → List Char → List (Char × Nat)
  | _, [] => []
  | p, c :: text => (c, p) :: placed (p + c.utf8Size) text

theorem placed_append (p : Nat) (text more : List Char) :
    placed p (text ++ more) = placed p text ++ placed (p + byteCount text) more := by
  induction text generalizing p with
  | nil => rfl
  | cons c text ih =>
    rw [List.cons_append, placed, placed, ih, List.cons_append, byteCount_cons, Nat.add_assoc]

theorem of_mem_placed {c : Char} (h : (c, q) ∈ placed p text) :
    p ≤ q ∧ q < p + byteCount text := by
  induction text generalizing p with
  | nil => cases h
  | cons d text ih =>
    have hpos := d.utf8Size_pos
    rw [byteCount_cons]
    rcases List.mem_cons.1 h with heq | hmem
    · obtain ⟨-, rfl⟩ := Prod.mk.inj heq
      omega
    · have hrange := ih hmem
      omega

/-! ## Reading character by character -/

section Sweep

variable (gap covered : Nat → Prop) [DecidablePred gap] [DecidablePred covered]

/-- The characters of a text that are not covered, with a space at each gap; the first
one starts at a place. -/
def sweep : Nat → List Char → List Char
  | p, [] => if gap p then [' '] else []
  | p, c :: text => (if gap p then [' '] else []) ++ (if covered p then [] else [c]) ++
      sweep (p + c.utf8Size) text

variable {gap covered}

/-- A stretch without gaps that is covered as a whole or not at all. -/
theorem sweep_append (out : Bool) (rest : List Char)
    (h : ∀ q, p ≤ q → q < p + byteCount mid → ¬ gap q ∧ (covered q ↔ out = true)) :
    sweep gap covered p (mid ++ rest) =
      (if out then [] else mid) ++ sweep gap covered (p + byteCount mid) rest := by
  induction mid generalizing p with
  | nil => cases out <;> rfl
  | cons c mid ih =>
    have hpos := c.utf8Size_pos
    rw [byteCount_cons] at h ⊢
    obtain ⟨hgap, hcovered⟩ := h p (Nat.le_refl p) (by omega)
    have hnext := ih (p := p + c.utf8Size) fun q hfrom hto => h q (by omega) (by omega)
    rw [List.cons_append, sweep, if_neg hgap, hnext, Nat.add_assoc]
    cases out with
    | true => rw [if_pos (hcovered.2 rfl)]; rfl
    | false => rw [if_neg (mt hcovered.1 Bool.false_ne_true)]; rfl

variable {gap' covered' : Nat → Prop} [DecidablePred gap'] [DecidablePred covered']

theorem sweep_congr (hgap : ∀ q, p ≤ q → (gap q ↔ gap' q))
    (hcovered : ∀ q, p ≤ q → (covered q ↔ covered' q)) (text : List Char) :
    sweep gap covered p text = sweep gap' covered' p text := by
  induction text generalizing p with
  | nil => simp only [sweep, hgap p (Nat.le_refl p)]
  | cons c text ih =>
    have hnext := ih (p := p + c.utf8Size) (fun q hq => hgap q (by omega))
      fun q hq => hcovered q (by omega)
    simp only [sweep, hgap p (Nat.le_refl p), hcovered p (Nat.le_refl p), hnext]

/-- A gap at the first place is a space in front. -/
theorem sweep_gap (hgap : gap p) (hnot : ¬ gap' p) (h : ∀ q, p < q → (gap q ↔ gap' q))
    (text : List Char) : sweep gap covered p text = ' ' :: sweep gap' covered p text := by
  cases text with
  | nil => rw [sweep, sweep, if_pos hgap, if_neg hnot]
  | cons c text =>
    have hpos := c.utf8Size_pos
    rw [sweep, sweep, if_pos hgap, if_neg hnot,
      sweep_congr (fun q hq => h q (by omega)) fun q _ => Iff.rfl]
    rfl

/-- Spaces apart, these are the characters at places that are not covered. -/
theorem filter_sweep (p : Nat) (text : List Char) :
    (sweep gap covered p text).filter (!isBlank ·) =
      ((placed p text).filter fun place => !isBlank place.1 ∧ ¬ covered place.2).map (·.1) := by
  have hspace : isBlank ' ' = true := by decide
  have hnone : ∀ q, (if gap q then [' '] else []).filter (!isBlank ·) = [] := by
    intro q
    split <;> simp [hspace]
  induction text generalizing p with
  | nil => exact hnone p
  | cons c text ih =>
    rw [sweep, placed, List.filter_append, List.filter_append, hnone, List.nil_append, ih,
      List.filter_cons]
    by_cases hcovered : covered p <;> by_cases hblank : isBlank c = true <;> simp [hcovered, hblank]

end Sweep

/-! ## Cuts -/

/-- A cut holds the place. -/
def Covers (cuts : List Range) (p : Nat) : Prop :=
  ∃ cut ∈ cuts, cut.Holds p

/-- A cut starts at the place, behind the start of all and behind the end of each cut that
starts before. -/
def IsOpening (start : Nat) (cuts : List Range) (p : Nat) : Prop :=
  start < p ∧ (∃ cut ∈ cuts, cut.start = p) ∧ ∀ cut ∈ cuts, cut.start < p → cut.stop < p

instance (cuts : List Range) : DecidablePred (Covers cuts) := fun p =>
  inferInstanceAs (Decidable (∃ cut ∈ cuts, cut.Holds p))

instance (start : Nat) (cuts : List Range) : DecidablePred (IsOpening start cuts) := fun _ =>
  inferInstanceAs (Decidable (_ ∧ _ ∧ _))

theorem covers_cons : Covers (cut :: cuts) p ↔ cut.Holds p ∨ Covers cuts p := by
  simp [Covers]

theorem isOpening_cons {start : Nat} : IsOpening start (cut :: cuts) p ↔
    start < p ∧ (cut.start = p ∨ ∃ other ∈ cuts, other.start = p) ∧
      (cut.start < p → cut.stop < p) ∧ ∀ other ∈ cuts, other.start < p → other.stop < p := by
  simp [IsOpening]

/-- Only which cuts there are matters. -/
theorem covers_congr (h : ∀ cut, cut ∈ others ↔ cut ∈ cuts) (p : Nat) :
    Covers others p ↔ Covers cuts p := by
  simp only [Covers, h]

theorem isOpening_congr (h : ∀ cut, cut ∈ others ↔ cut ∈ cuts) (start p : Nat) :
    IsOpening start others p ↔ IsOpening start cuts p := by
  simp only [IsOpening, h]

/-- **A cut that starts at the cursor or before** covers what is up to its end, and has no
more say behind it. -/
theorem sweep_behind (hstart : cut.start ≤ cursor)
    (hmid : cursor + byteCount mid = max cursor cut.stop) :
    sweep (IsOpening cursor (cut :: cuts)) (Covers (cut :: cuts)) cursor (mid ++ rest) =
      sweep (IsOpening (max cursor cut.stop) cuts) (Covers cuts) (max cursor cut.stop) rest := by
  have hcut : ∀ q, cursor ≤ q → q < max cursor cut.stop →
      ¬ IsOpening cursor (cut :: cuts) q ∧ Covers (cut :: cuts) q := by
    intro q hfrom hto
    rw [isOpening_cons, covers_cons, Range.Holds]
    exact ⟨fun ⟨hlt, _, hends, _⟩ => by omega, .inl (by omega)⟩
  have hopening : ∀ q, max cursor cut.stop ≤ q → (IsOpening cursor (cut :: cuts) q ↔
      IsOpening (max cursor cut.stop) cuts q) := by
    intro q hq
    rw [isOpening_cons, IsOpening]
    constructor
    · rintro ⟨hlt, hat | hother, hends, hall⟩
      · omega
      · exact ⟨by omega, hother, hall⟩
    · rintro ⟨hlt, hother, hall⟩
      exact ⟨by omega, .inr hother, by omega, hall⟩
  have hcovers : ∀ q, max cursor cut.stop ≤ q → (Covers (cut :: cuts) q ↔ Covers cuts q) := by
    intro q hq
    rw [covers_cons, Range.Holds]
    exact or_iff_right (by omega)
  have hcovered := sweep_append true rest fun q hfrom hto =>
    (hcut q hfrom (hmid ▸ hto)).imp_right (iff_of_true · rfl)
  rw [hcovered, hmid]
  exact sweep_congr hopening hcovers rest

/-- **In front of the first cut** the text stays, and a space follows it. -/
theorem sweep_before (hcursor : cursor < cut.start)
    (hfirst : ∀ other ∈ cuts, cut.start ≤ other.start)
    (hmid : cursor + byteCount mid = cut.start) :
    sweep (IsOpening cursor (cut :: cuts)) (Covers (cut :: cuts)) cursor (mid ++ rest) =
      mid ++ ' ' ::
        sweep (IsOpening cut.start (cut :: cuts)) (Covers (cut :: cuts)) cut.start rest := by
  have hall : ∀ other ∈ cut :: cuts, cut.start ≤ other.start :=
    List.forall_mem_cons.2 ⟨Nat.le_refl _, hfirst⟩
  have hbare : ∀ q, q < cut.start →
      ¬ IsOpening cursor (cut :: cuts) q ∧ ¬ Covers (cut :: cuts) q := by
    intro q hq
    constructor
    · rintro ⟨-, ⟨other, hother, heq⟩, -⟩
      have := hall other hother
      omega
    · rintro ⟨other, hother, hfrom, -⟩
      have := hall other hother
      omega
  -- the cut opens at its start as long as the cursor has not come there
  have hopens : IsOpening cursor (cut :: cuts) cut.start :=
    ⟨hcursor, ⟨cut, List.mem_cons_self, rfl⟩, fun other hother hlt =>
      absurd hlt (Nat.not_lt.2 (hall other hother))⟩
  have hnot : ¬ IsOpening cut.start (cut :: cuts) cut.start := fun h => Nat.lt_irrefl _ h.1
  rw [sweep_append false rest fun q _ hto => (hbare q (hmid ▸ hto)).imp_right (by simpa using ·), hmid,
    sweep_gap hopens hnot fun q hq => and_congr_left fun _ => iff_of_true (by omega) hq]
  rfl

/-- **Going through the cuts by their starts reads the text character by character.** By
induction on the cuts: what is in front of the next one is copied, and then the cursor is
behind it. -/
theorem betweenCuts_eq_sweep (hsorted : cuts.Pairwise fun a b => a.start ≤ b.start)
    (hcuts : ∀ cut ∈ cuts, cut.IsPart content ∧ cut.stop ≤ stop)
    (hcontent : content = before ++ (text ++ after))
    (hstop : stop = byteCount before + byteCount text) :
    betweenCuts content stop (byteCount before) cuts =
      sweep (IsOpening (byteCount before) cuts) (Covers cuts) (byteCount before) text := by
  induction cuts generalizing before text with
  | nil =>
    have hbare : ∀ q, ¬ IsOpening (byteCount before) [] q ∧ ¬ Covers [] q := fun q =>
      ⟨fun ⟨_, ⟨_, hmem, _⟩, _⟩ => List.not_mem_nil hmem, fun ⟨_, hmem, _⟩ => List.not_mem_nil hmem⟩
    have hall : sweep (IsOpening (byteCount before) []) (Covers []) (byteCount before)
        (text ++ []) = text ++ sweep _ _ _ [] :=
      sweep_append false [] fun q _ _ => (hbare q).imp_right (by simpa using ·)
    rw [List.append_nil, sweep, if_neg (hbare _).1, List.append_nil] at hall
    rw [hall, betweenCuts, hcontent, hstop]
    split_ifs with hlt
    · exact slice_append before text after
    · have hempty : byteCount text = 0 := by omega
      rw [byteCount_eq_zero hempty]
  | cons cut cuts ih =>
    obtain ⟨hfirst, hsorted⟩ := List.pairwise_cons.1 hsorted
    obtain ⟨⟨hcut, hwithin⟩, hcuts⟩ := List.forall_mem_cons.1 hcuts
    have hordered := hcut.ordered
    -- once the cursor is at the start of the cut, it goes behind the cut
    have hbehind : ∀ before text : List Char, content = before ++ (text ++ after) →
        stop = byteCount before + byteCount text → cut.start ≤ byteCount before →
        betweenCuts content stop (max (byteCount before) cut.stop) cuts =
          sweep (IsOpening (byteCount before) (cut :: cuts)) (Covers (cut :: cuts))
            (byteCount before) text := by
      intro before text hcontent hstop hstart
      have hboundary : IsBoundary content (max (byteCount before) cut.stop) := by
        rcases Nat.le_total (byteCount before) cut.stop with hle | hle
        · rw [Nat.max_eq_right hle]
          exact hcut.stop
        · rw [Nat.max_eq_left hle]
          exact ⟨before, hcontent ▸ List.prefix_append _ _, rfl⟩
      obtain ⟨mid, rest, rfl, hmid⟩ :=
        (hcontent ▸ hboundary).split (by omega) (by omega)
      rw [sweep_behind hstart hmid, ← hmid, ← byteCount_append]
      refine ih hsorted hcuts (by rw [hcontent]; simp) ?_
      rw [hstop, byteCount_append, byteCount_append, Nat.add_assoc]
    rw [betweenCuts]
    split_ifs with hcursor
    · -- first the text in front of the cut
      obtain ⟨mid, rest, rfl, hmid⟩ :=
        (hcontent ▸ hcut.start).split (Nat.le_of_lt hcursor) (by omega)
      rw [← byteCount_append] at hmid
      have hrest := hbehind (before ++ mid) rest (by rw [hcontent]; simp)
        (by rw [hstop, byteCount_append, byteCount_append, Nat.add_assoc]) (Nat.le_of_eq hmid.symm)
      rw [hmid, Nat.max_eq_right hordered] at hrest
      rw [sweep_before hcursor hfirst (by rw [← byteCount_append, hmid]),
        Nat.max_eq_right (by omega), hrest, hcontent, ← hmid, byteCount_append,
        List.append_assoc mid, slice_append]
      simp
    · exact hbehind before text hcontent hstop (Nat.le_of_not_lt hcursor)

/-! ## Headers -/

/-- The cuts that lie in a range. -/
def cutsIn (range : Range) (cuts : List Range) : List Range :=
  cuts.filter (·.LiesIn range)

theorem mem_cutsIn : cut ∈ cutsIn range cuts ↔ cut ∈ cuts ∧ cut.LiesIn range := by
  simp [cutsIn]

/-- A header is the text of its range, character by character, in single spaces. -/
theorem textWithout_eq_sweep (hcuts : ∀ cut ∈ cuts, cut.IsPart content)
    (hcontent : content = before ++ (text ++ after)) (hstart : range.start = byteCount before)
    (hstop : range.stop = byteCount before + byteCount text) :
    textWithout content range cuts = collapse (sweep (IsOpening range.start (cutsIn range cuts))
      (Covers (cutsIn range cuts)) range.start text) := by
  have hsame : ∀ cut, cut ∈ (cutsIn range cuts).mergeSort (fun a b => a.start ≤ b.start) ↔
      cut ∈ cutsIn range cuts := fun cut => (List.mergeSort_perm _ _).mem_iff
  have hsorted : ((cutsIn range cuts).mergeSort fun a b => a.start ≤ b.start).Pairwise
      fun a b => a.start ≤ b.start :=
    (List.pairwise_mergeSort (fun a b c => by simpa using Nat.le_trans)
      (fun a b => by simpa using Nat.le_total _ _) _).imp of_decide_eq_true
  have hwithin : ∀ cut ∈ (cutsIn range cuts).mergeSort (fun a b => a.start ≤ b.start),
      cut.IsPart content ∧ cut.stop ≤ range.stop := by
    intro cut hcut
    obtain ⟨hmem, hlies⟩ := mem_cutsIn.1 ((hsame cut).1 hcut)
    exact ⟨hcuts cut hmem, hlies.2⟩
  have hsweep := betweenCuts_eq_sweep hsorted hwithin hcontent hstop
  rw [← hstart] at hsweep
  have hinside : (cuts.filter fun c =>
      decide (range.start ≤ c.start) && decide (c.stop ≤ range.stop)) = cutsIn range cuts :=
    List.filter_congr fun c _ => (Bool.decide_and _ _).symm
  simp only [textWithout, hinside, hsweep]
  rw [sweep_congr (fun q _ => isOpening_congr hsame _ q) (fun q _ => covers_congr hsame q)]

/-- A place of a header: it lies in the range and in no cut that lies in the range. -/
def Remains (range : Range) (cuts : List Range) (p : Nat) : Prop :=
  range.Holds p ∧ ∀ cut ∈ cuts, cut.LiesIn range → ¬ cut.Holds p

instance (range : Range) (cuts : List Range) : DecidablePred (Remains range cuts) := fun _ =>
  inferInstanceAs (Decidable (_ ∧ _))

/-- Of a text with a range in it, the places in the range are those of the text between. -/
theorem filter_placed_remains (range : Range) (cuts : List Range)
    (hstart : range.start = byteCount before)
    (hstop : range.stop = byteCount before + byteCount text) :
    (placed 0 (before ++ (text ++ after))).filter
        (fun place => !isBlank place.1 ∧ Remains range cuts place.2) =
      (placed range.start text).filter
        fun place => !isBlank place.1 ∧ ¬ Covers (cutsIn range cuts) place.2 := by
  have houtside : ∀ p more, (∀ q, p ≤ q → q < p + byteCount more → ¬ range.Holds q) →
      (placed p more).filter (fun place => !isBlank place.1 ∧ Remains range cuts place.2) = [] := by
    intro p more h
    refine List.filter_eq_nil_iff.2 fun ⟨c, q⟩ hmem => ?_
    obtain ⟨hfrom, hto⟩ := of_mem_placed hmem
    simp [Remains, h q hfrom hto]
  rw [placed_append, placed_append, List.filter_append, List.filter_append, Nat.zero_add, ← hstart,
    houtside 0 before fun q _ hto h => by have := h.1; omega,
    houtside (range.start + byteCount text) after fun q hfrom _ h => by have := h.2; omega,
    List.nil_append, List.append_nil]
  refine List.filter_congr fun ⟨c, q⟩ hmem => ?_
  obtain ⟨hfrom, hto⟩ := of_mem_placed hmem
  have hholds : range.Holds q := ⟨hfrom, by omega⟩
  have hcovers : Remains range cuts q ↔ ¬ Covers (cutsIn range cuts) q := by
    simp only [Remains, hholds, true_and, Covers, mem_cutsIn, not_exists, not_and, and_imp]
  simp only [hcovers]

/-- **The text of a range without cuts.** The characters in it that are no blanks are, in
their order, those at places in the range and outside of each cut that lies in the range.
It is in single spaces, and neither the order of the cuts matters nor how often one of
them is given. -/
theorem textWithout_exact (hrange : range.IsPart content)
    (hcuts : ∀ cut ∈ cuts, cut.IsPart content) :
    (textWithout content range cuts).filter (!isBlank ·) =
      ((placed 0 content).filter fun place =>
        !isBlank place.1 ∧ Remains range cuts place.2).map (·.1) ∧
    IsCollapsed (textWithout content range cuts) ∧
    ∀ others : List Range, (∀ cut, cut ∈ others ↔ cut ∈ cuts) →
      textWithout content range others = textWithout content range cuts := by
  obtain ⟨before, text, after, hcontent, hstart, hstop⟩ := hrange.split
  refine ⟨?_, isCollapsed_collapse _, fun others hsame => ?_⟩
  · rw [textWithout_eq_sweep hcuts hcontent hstart hstop, filter_collapse, filter_sweep, hcontent,
      filter_placed_remains range cuts hstart hstop]
  · have hwithin : ∀ cut, cut ∈ cutsIn range others ↔ cut ∈ cutsIn range cuts := fun cut => by
      rw [mem_cutsIn, mem_cutsIn, hsame cut]
    rw [textWithout_eq_sweep hcuts hcontent hstart hstop,
      textWithout_eq_sweep (fun cut hcut => hcuts cut ((hsame cut).1 hcut)) hcontent hstart hstop,
      sweep_congr (fun q _ => isOpening_congr hwithin _ q) (fun q _ => covers_congr hwithin q)]

/-- A line with annotations and a class, up to its name. -/
def annotatedHeader : List Char :=
  "@Aé @B\npublic  class X \x7b".toList

/-- Cuts that are nested, overlap, come twice or reach out of the range. -/
def annotationCuts : List Range :=
  [⟨5, 7⟩, ⟨0, 4⟩, ⟨1, 2⟩, ⟨22, 25⟩, ⟨0, 4⟩, ⟨2, 6⟩, ⟨8, 8⟩]

/-- A header with such cuts. -/
theorem textWithout_exact_annotated : Range.IsPart ⟨0, 24⟩ annotatedHeader ∧
    (∀ cut ∈ annotationCuts, cut.IsPart annotatedHeader) ∧
    (textWithout annotatedHeader ⟨0, 24⟩ annotationCuts).filter (!isBlank ·) =
      ((placed 0 annotatedHeader).filter fun place =>
        !isBlank place.1 ∧ Remains ⟨0, 24⟩ annotationCuts place.2).map (·.1) ∧
    IsCollapsed (textWithout annotatedHeader ⟨0, 24⟩ annotationCuts) ∧
    ∀ others : List Range, (∀ cut, cut ∈ others ↔ cut ∈ annotationCuts) →
      textWithout annotatedHeader ⟨0, 24⟩ others =
        textWithout annotatedHeader ⟨0, 24⟩ annotationCuts := by
  have hrange : Range.IsPart ⟨0, 24⟩ annotatedHeader := by decide +kernel
  have hcuts : ∀ cut ∈ annotationCuts, cut.IsPart annotatedHeader := by decide +kernel
  exact ⟨hrange, hcuts, textWithout_exact hrange hcuts⟩

/-- The cut at the end reaches out of the range, so its characters stay. -/
example : textWithout annotatedHeader ⟨0, 24⟩ annotationCuts = "public class X".toList := by
  cbv

end Docsmith.Source
