import Docsmith.Proofs.Source.JavaDepth
/-!
# Java — members and the scope of their class

A member goes to the type on top of the stack. Every scope of the stack is that
of a class read before, one brace deeper than the class (`IsStack`), and a line
keeps that in three stages: a type comes on top (`IsStack.declare`), braces
open the scope on top (`IsStack.braces`), and what they close is left
(`IsStack.leave`). Leaving stops at a scope whose brace was never seen, so a
class stays on the stack for as long as the depth does not fall below its own,
and longer only under a type that waits for its body (`IsStack.kept`). So a
member's class may have been left by the text only while such a type waits
(`member_in_class_iff`); there it does happen (`bodiless_class_gets_variable`).
-/


namespace Docsmith.Source.Lines.Java

variable {package : Option String} {path : String} {d p : Nat → Nat} {es : List Element}
variable {c e : Element} {k n reached low : Nat} {code : List Char}
variable {pairs : List (Scope × Element)} {s : Scope} {x : Scope × Element}

/-! ## The stack -/

/-- A type still waits for its body before a line: from its own line on the
depth has not gone beyond that of its line. -/
def IsWaiting (d p : Nat → Nat) (t : Element) (number : Nat) : Prop :=
  t.line < number ∧ ∀ m, t.line ≤ m → m < number → p m ≤ d t.line

/-- The scope is that of a class among the elements, the last one of its name. -/
structure IsScopeOf (d : Nat → Nat) (es : List Element) (s : Scope) (c : Element) : Prop where
  mem : c ∈ es
  kind : c.kind = .type
  qualified : c.qualifiedName = s.qualified
  bodyDepth : s.bodyDepth = d c.line + 1
  latest : ∀ t ∈ es, t.kind = .type → c.line < t.line → t.qualifiedName ≠ c.qualifiedName

/-- It stays so over an element that is no class of that name. -/
theorem IsScopeOf.append (element : Option Element) (h : IsScopeOf d es s c)
    (hother : ∀ t ∈ element, t.kind = .type → t.qualifiedName ≠ c.qualifiedName) :
    IsScopeOf d (es ++ element.toList) s c where
  mem := List.mem_append_left _ h.mem
  kind := h.kind
  qualified := h.qualified
  bodyDepth := h.bodyDepth
  latest t ht hkind hlt := by
    rcases List.mem_append.1 ht with ht | ht
    · exact h.latest t ht hkind hlt
    · exact hother t (Option.mem_toList.1 ht) hkind

/-- A class that is new is the last one of its name. -/
theorem IsScopeOf.of_new (hkind : c.kind = .type) (hlines : ∀ e ∈ es, e.line < c.line) :
    IsScopeOf d (es ++ [c]) ⟨c.qualifiedName, c.name, d c.line + 1, false⟩ c where
  mem := List.mem_append_right _ List.mem_cons_self
  kind := hkind
  qualified := rfl
  bodyDepth := rfl
  latest t ht _ hlt := by
    rcases List.mem_append.1 ht with ht | ht
    · exact absurd (hlines t ht) (Nat.not_lt_of_gt hlt)
    · rw [List.mem_singleton.1 ht] at hlt
      exact absurd hlt (Nat.lt_irrefl _)

/-- A scope and its class stand around another scope and its class. -/
structure Encloses (outer inner : Scope × Element) : Prop where
  line : outer.2.line < inner.2.line
  bodyDepth : outer.1.bodyDepth < inner.1.bodyDepth
  qualified : outer.1.qualified.length < inner.1.qualified.length

/-- The scopes of a stack with their classes, when the depth has reached
`reached` and the lines up to `n` are left behind: each one is inside those below
it, all below the top are open, the top is open if its body was reached, and
what is not open has waited since its line. -/
structure IsStack (d p : Nat → Nat) (es : List Element) (n reached : Nat)
    (pairs : List (Scope × Element)) : Prop where
  scopes : ∀ x ∈ pairs, IsScopeOf d es x.1 x.2
  nested : pairs.Pairwise fun inner outer => Encloses outer inner
  below : ∀ x ∈ pairs.tail, x.1.opened = true
  top : ∀ x ∈ pairs.head?, x.1.opened = decide (x.1.bodyDepth ≤ reached)
  waits : ∀ x ∈ pairs, x.1.opened = false → ∀ m, x.2.line ≤ m → m ≤ n → p m ≤ d x.2.line

namespace IsStack

theorem nil : IsStack d p es n reached [] := by
  constructor <;> simp

/-- What is not open is on top, and its body is still to be reached. -/
theorem reached_lt (h : IsStack d p es n reached pairs) (hx : x ∈ pairs)
    (hopened : x.1.opened = false) : reached < x.1.bodyDepth := by
  cases pairs with
  | nil => cases hx
  | cons first rest =>
    rcases List.mem_cons.1 hx with rfl | hx
    · have htop := h.top x rfl
      rw [hopened, eq_comm, decide_eq_false_iff_not] at htop
      omega
    · rw [h.below x hx] at hopened
      cases hopened

/-- No scope goes deeper than the one on top. -/
theorem bodyDepth_le_top {first : Scope × Element} {rest : List (Scope × Element)}
    (h : IsStack d p es n reached (first :: rest)) (hx : x ∈ first :: rest) :
    x.1.bodyDepth ≤ first.1.bodyDepth ∧ x.2.line ≤ first.2.line := by
  rcases List.mem_cons.1 hx with rfl | hx
  · exact ⟨Nat.le_refl _, Nat.le_refl _⟩
  · have henc := (List.pairwise_cons.1 h.nested).1 x hx
    exact ⟨Nat.le_of_lt henc.bodyDepth, Nat.le_of_lt henc.line⟩

/-- **A class whose scope is on the stack has not been left**, unless a type
since then waits for its body. -/
theorem kept (h : IsStack d p es n (d (n + 1)) pairs) (hlines : ∀ e ∈ es, e.line ≤ n)
    (hx : x ∈ pairs) :
    d x.2.line ≤ d (n + 1) ∨
      ∃ t ∈ es, t.kind = .type ∧ x.2.line ≤ t.line ∧ IsWaiting d p t (n + 1) := by
  cases pairs with
  | nil => cases hx
  | cons first rest =>
    obtain ⟨hdepth, hline⟩ := h.bodyDepth_le_top hx
    have hfirst := h.scopes first List.mem_cons_self
    have hbody := (h.scopes x hx).bodyDepth
    cases hopened : first.1.opened with
    | true =>
      have htop := h.top first rfl
      rw [hopened, eq_comm, decide_eq_true_eq] at htop
      exact .inl (by omega)
    | false =>
      refine .inr ⟨first.2, hfirst.mem, hfirst.kind, hline,
        Nat.lt_succ_of_le (hlines _ hfirst.mem), fun m hm hlt => ?_⟩
      exact h.waits first List.mem_cons_self hopened m hm (Nat.le_of_lt_succ hlt)

/-! ## A declaration -/

/-- The name of a type is longer than those of the types around it. -/
theorem length_lt_qualify (h : IsStack d p es n reached pairs) (hx : x ∈ pairs)
    (package : Option String) (name : String) :
    x.1.qualified.length < (qualify package (pairs.map (·.1)) name).length := by
  cases pairs with
  | nil => cases hx
  | cons first rest =>
    have hfirst : first.1.qualified.length <
        (qualify package ((first :: rest).map (·.1)) name).length := by
      have hdot : ".".length = 1 := rfl
      simp only [qualify, List.map_cons, List.head?_cons, String.length_append]
      omega
    rcases List.mem_cons.1 hx with rfl | hx
    · exact hfirst
    · exact Nat.lt_trans ((List.pairwise_cons.1 h.nested).1 x hx).qualified hfirst

/-- Declarations count where no body is deeper than the line. -/
theorem bodyDepth_le (h : IsStack d p es n reached pairs) {depth : Nat}
    (hlevel : atMemberLevel (pairs.map (·.1)) depth = true) (hx : x ∈ pairs) :
    x.1.bodyDepth ≤ depth := by
  cases pairs with
  | nil => cases hx
  | cons first rest =>
    have htop : first.1.bodyDepth = depth := beq_iff_eq.1 hlevel
    rw [← htop]
    exact (h.bodyDepth_le_top hx).1

/-- **A type goes on top of the scopes around it**, which are all open. -/
theorem push (h : IsStack d p es n (d c.line) pairs) (hlines : ∀ e ∈ es, e.line < c.line)
    (hline : c.line = n + 1) (hkind : c.kind = .type)
    (hq : c.qualifiedName = qualify package (pairs.map (·.1)) c.name)
    (hlevel : atMemberLevel (pairs.map (·.1)) (d c.line) = true) :
    IsStack d p (es ++ [c]) n (d c.line)
      ((⟨c.qualifiedName, c.name, d c.line + 1, false⟩, c) :: pairs) where
  scopes := by
    refine List.forall_mem_cons.2 ⟨.of_new hkind hlines, fun x hx => ?_⟩
    refine (h.scopes x hx).append (some c) ?_
    rintro _ ⟨⟩ - heq
    have hlonger := h.length_lt_qualify hx package c.name
    rw [← hq, heq, (h.scopes x hx).qualified] at hlonger
    exact Nat.lt_irrefl _ hlonger
  nested := by
    refine List.pairwise_cons.2 ⟨fun x hx => ⟨hlines _ (h.scopes x hx).mem, ?_, ?_⟩, h.nested⟩
    · exact Nat.lt_succ_of_le (h.bodyDepth_le hlevel hx)
    · have hlonger := h.length_lt_qualify hx package c.name
      rwa [← hq] at hlonger
  below x hx := by
    cases hopened : x.1.opened with
    | true => rfl
    | false => exact absurd (h.bodyDepth_le hlevel hx) (Nat.not_le_of_gt (h.reached_lt hx hopened))
  top := by
    rintro _ ⟨⟩
    rw [eq_comm, decide_eq_false_iff_not]
    exact Nat.not_succ_le_self _
  waits := by
    refine List.forall_mem_cons.2 ⟨fun _ m hm hle => ?_, h.waits⟩
    have hbefore : c.line ≤ m := hm
    omega

/-- Another element leaves the stack as it is. -/
theorem append {element : Option Element} (h : IsStack d p es n reached pairs)
    (hother : ∀ t ∈ element, t.kind ≠ .type) :
    IsStack d p (es ++ element.toList) n reached pairs where
  scopes x hx := (h.scopes x hx).append element fun t ht hkind => absurd hkind (hother t ht)
  nested := h.nested
  below := h.below
  top := h.top
  waits := h.waits

/-! ## Braces -/

/-- **The braces of a line open the body of the scope on top** if they reach
it; otherwise it waits over the line. -/
theorem braces (h : IsStack d p es n (d (n + 1)) pairs)
    (hpeak : p (n + 1) = peak (d (n + 1)) code) :
    ∃ after, after.map (·.1) = (Java.braces code (d (n + 1), pairs.map (·.1))).2 ∧
      after.map (·.2) = pairs.map (·.2) ∧ IsStack d p es (n + 1) (p (n + 1)) after := by
  cases pairs with
  | nil => exact ⟨[], (braces_nil code _).symm, rfl, nil⟩
  | cons first rest =>
    obtain ⟨s, c⟩ := first
    have htop : s.opened = decide (s.bodyDepth ≤ d (n + 1)) := h.top _ rfl
    have hrest := (List.pairwise_cons.1 h.nested).1
    have hscope := h.scopes _ List.mem_cons_self
    refine ⟨({ s with opened := decide (s.bodyDepth ≤ p (n + 1)) }, c) :: rest, ?_, rfl, ?_⟩
    · rw [List.map_cons, List.map_cons, braces_cons code htop, hpeak]
    · refine ⟨List.forall_mem_cons.2 ⟨?_, fun x hx => h.scopes x (List.mem_cons_of_mem _ hx)⟩,
        List.pairwise_cons.2 ⟨fun x hx => ?_, (List.pairwise_cons.1 h.nested).2⟩, h.below, ?_, ?_⟩
      · exact ⟨hscope.mem, hscope.kind, hscope.qualified, hscope.bodyDepth, hscope.latest⟩
      · exact ⟨(hrest x hx).line, (hrest x hx).bodyDepth, (hrest x hx).qualified⟩
      · rintro _ ⟨⟩
        rfl
      · refine List.forall_mem_cons.2 ⟨fun hopened m hm hle => ?_, fun x hx hopened => ?_⟩
        · rw [decide_eq_false_iff_not] at hopened
          have hbody : s.bodyDepth = d c.line + 1 := hscope.bodyDepth
          -- it has waited until now, and it goes on waiting if this line stays below its body
          rcases Nat.lt_or_eq_of_le hle with hlt | rfl
          · refine h.waits _ List.mem_cons_self ?_ m hm (Nat.le_of_lt_succ hlt)
            rw [htop, decide_eq_false_iff_not]
            have := le_peak (d (n + 1)) code
            omega
          · dsimp only
            omega
        · rw [h.below x hx] at hopened
          cases hopened

/-- **Leaving what is closed behind a line** keeps a stack: what comes to the
top is open. -/
theorem leave (h : IsStack d p es n reached pairs) (hlow : low ≤ reached) :
    ∃ after, after.map (·.1) = Java.leave low (pairs.map (·.1)) ∧ after ⊆ pairs ∧
      IsStack d p es n low after := by
  let closed (x : Scope × Element) : Bool := x.1.opened && low < x.1.bodyDepth
  have hsuffix : pairs.dropWhile closed <:+ pairs := List.dropWhile_suffix closed
  refine ⟨pairs.dropWhile closed, ?_, hsuffix.subset, ?_⟩
  · rw [Java.leave, List.dropWhile_map]
    rfl
  · refine ⟨fun x hx => h.scopes x (hsuffix.subset hx), h.nested.sublist hsuffix.sublist,
      fun x hx => ?_, fun x hx => ?_, fun x hx => h.waits x (hsuffix.subset hx)⟩
    · obtain ⟨dropped, hsplit⟩ := hsuffix
      refine h.below x ?_
      rw [← hsplit]
      cases dropped with
      | nil => exact hx
      | cons first dropped => exact List.mem_append_right _ (List.mem_of_mem_tail hx)
    · have hstays : closed x = false := by
        have := List.head?_dropWhile_not closed pairs
        rw [hx] at this
        simpa using this
      have hmem : x ∈ pairs := hsuffix.subset (List.mem_of_mem_head? hx)
      -- what is not open waits above every depth that was reached
      cases hopened : x.1.opened with
      | true =>
        simp only [closed, hopened, Bool.true_and, decide_eq_false_iff_not, Nat.not_lt] at hstays
        rw [eq_comm, decide_eq_true_eq]
        exact hstays
      | false =>
        rw [eq_comm, decide_eq_false_iff_not]
        exact Nat.not_le_of_gt (Nat.lt_of_le_of_lt hlow (h.reached_lt hmem hopened))

/-- There is nothing to leave where nothing has changed. -/
theorem leave_eq (h : IsStack d p es n reached pairs) :
    Java.leave reached (pairs.map (·.1)) = pairs.map (·.1) := by
  cases pairs with
  | nil => rfl
  | cons first rest =>
    have htop : first.1.opened = decide (first.1.bodyDepth ≤ reached) := h.top _ rfl
    refine List.dropWhile_cons_of_neg ?_
    rw [htop, Bool.and_eq_true, decide_eq_true_eq, decide_eq_true_eq]
    exact fun hclosed => Nat.not_le_of_gt hclosed.2 hclosed.1

end IsStack

/-! ## Runs -/

variable {lines : List (List Char)} {line : List Char}

/-- Since its line a class has not been left before any line up to one, unless
a type waited for its body there. -/
def IsKept (d p : Nat → Nat) (es : List Element) (number : Nat) (c : Element) : Prop :=
  ∀ i, c.line < i → i ≤ number → d c.line ≤ d i ∨
    ∃ t ∈ es, t.kind = .type ∧ c.line ≤ t.line ∧ IsWaiting d p t i

theorem IsKept.mono {others : List Element} (h : IsKept d p es n c) (hsub : es ⊆ others) :
    IsKept d p others n c :=
  fun i hlt hle => (h i hlt hle).imp_right fun ⟨t, ht, hrest⟩ => ⟨t, hsub ht, hrest⟩

/-- One line more. -/
theorem IsKept.succ (h : IsKept d p es n c)
    (hlast : d c.line ≤ d (n + 1) ∨
      ∃ t ∈ es, t.kind = .type ∧ c.line ≤ t.line ∧ IsWaiting d p t (n + 1)) :
    IsKept d p es (n + 1) c := by
  intro i hlt hle
  rcases Nat.lt_or_eq_of_le hle with hi | rfl
  · exact h i hlt (Nat.le_of_lt_succ hi)
  · exact hlast

/-- What a line declares goes on the stack if it is a type, and keeps the
others. -/
theorem IsStack.declare {element : Option Element} {scopes : List Scope}
    (h : IsStack d p es n (d (n + 1)) pairs) (hlines : ∀ e ∈ es, e.line ≤ n)
    (hkept : ∀ x ∈ pairs, IsKept d p es (n + 1) x.2)
    (hdeclares : Declares package path (n + 1) (d (n + 1)) (pairs.map (·.1)) element scopes) :
    ∃ after, after.map (·.1) = scopes ∧
      IsStack d p (es ++ element.toList) n (d (n + 1)) after ∧
      ∀ x ∈ after, IsKept d p (es ++ element.toList) (n + 1) x.2 := by
  have hkept' : ∀ x ∈ pairs, IsKept d p (es ++ element.toList) (n + 1) x.2 := fun x hx =>
    (hkept x hx).mono (List.subset_append_left _ _)
  generalize hscopes : pairs.map (·.1) = before at hdeclares
  cases hdeclares with
  | nothing => exact ⟨pairs, hscopes, h.append nofun, hkept'⟩
  | member kind _ _ _ =>
    refine ⟨pairs, hscopes, h.append ?_, hkept'⟩
    rintro _ ⟨⟩
    exact kind
  | @type _ c kind isAt qualified level =>
    have hline := isAt.line
    rw [← hscopes] at qualified level
    rw [← hline] at h level ⊢
    refine ⟨_, ?_, h.push (fun e he => ?_) hline kind qualified level,
      List.forall_mem_cons.2 ⟨?_, ?_⟩⟩
    · rw [List.map_cons, hscopes]
    · have := hlines e he
      omega
    · intro i hlt hle
      exact absurd hlt (Nat.not_lt_of_le hle)
    · rwa [hline]

/-- What is read of the first lines is read of the line it stands in. -/
theorem exists_step_of_mem_readOf (h : e ∈ readOf package path lines n) :
    ∃ m < n, e.line = m + 1 ∧ ∃ line, lines[m]? = some line ∧
      (step package path (m + 1) (stateAfter package path lines m) line).2 = some e := by
  obtain ⟨m, hm, line, hline, hstep⟩ := mem_readOf_iff.1 h
  obtain ⟨scopes, hdeclares, -⟩ :=
    step_declares package path (m + 1) (areNamed_stateAfter m) line
  rw [hstep] at hdeclares
  exact ⟨m, hm, hdeclares.isAt.line, line, hline, hstep⟩

theorem line_le_of_mem_readOf (h : e ∈ readOf package path lines n) : e.line ≤ n := by
  obtain ⟨m, hm, hline, -⟩ := exists_step_of_mem_readOf h
  omega

theorem mem_readOf_of_line_le {m : Nat} (h : e ∈ readOf package path lines m) (hline : e.line ≤ n) :
    e ∈ readOf package path lines n := by
  obtain ⟨k, -, hk, hstep⟩ := exists_step_of_mem_readOf h
  exact mem_readOf_iff.2 ⟨k, by omega, hstep⟩

theorem readOf_subset {m : Nat} (h : m ≤ n) :
    readOf package path lines m ⊆ readOf package path lines n := fun _ he =>
  mem_readOf_of_line_le he (Nat.le_trans (line_le_of_mem_readOf he) h)

/-- The stack of the state behind some lines, with the classes of its scopes. -/
structure Holds (package : Option String) (path : String) (lines : List (List Char)) (n : Nat)
    (pairs : List (Scope × Element)) : Prop where
  scopes : pairs.map (·.1) = (stateAfter package path lines n).scopes
  stack : IsStack (depthBefore package path lines) (peakIn package path lines)
    (readOf package path lines n) n (depthBefore package path lines (n + 1)) pairs
  kept : ∀ x ∈ pairs, IsKept (depthBefore package path lines) (peakIn package path lines)
    (readOf package path lines n) (n + 1) x.2

/-- **A line keeps the stack**: what it declares comes on top, its braces open
the body of the scope on top, and what they close is left. -/
theorem Holds.succ (h : Holds package path lines n pairs) (hline : lines[n]? = some line) :
    ∃ after, Holds package path lines (n + 1) after := by
  have hnamed : AreNamed (stateAfter package path lines n).scopes := areNamed_stateAfter n
  have hread := readOf_succ package path hline
  have hstate := stateAfter_succ package path hline
  have hpeak : peakIn package path lines (n + 1) = peak (depthBefore package path lines (n + 1))
      (codeOf (stateAfter package path lines n) line) := by
    rw [peakIn, Nat.add_sub_cancel, hline, Option.getD_some]
  have hsettled := h.stack.leave_eq
  rw [h.scopes] at hsettled
  obtain ⟨scopes, hdeclares, hdepth, hleave⟩ :=
    step_leaves package path (n + 1) hnamed hsettled line
  rw [← hstate] at hdepth hleave
  have hlow : depthBefore package path lines (n + 2) ≤ peakIn package path lines (n + 1) := by
    rw [hpeak]
    exact Nat.le_trans (Nat.le_of_eq hdepth) (foldl_follow_le_peak _ _)
  -- the stages of the step
  rw [← h.scopes] at hdeclares
  obtain ⟨declared, hscopes, hstack, hkept⟩ :=
    h.stack.declare (fun _ => line_le_of_mem_readOf) h.kept hdeclares
  rw [← hread] at hstack hkept
  obtain ⟨opened, hbraces, hclasses, hstack⟩ := hstack.braces hpeak
  obtain ⟨after, hafter, hsub, hstack⟩ := hstack.leave hlow
  refine ⟨after, ?_, hstack, fun x hx => ?_⟩
  · rw [hafter, hbraces, hscopes, hleave]
    rfl
  · have hclass : x.2 ∈ declared.map (·.2) := hclasses ▸ List.mem_map_of_mem (hsub hx)
    obtain ⟨y, hy, hyx⟩ := List.mem_map.1 hclass
    have hbefore := hkept y hy
    rw [hyx] at hbefore
    exact hbefore.succ (hstack.kept (fun _ => line_le_of_mem_readOf) hx)

/-- By induction on the lines: the scopes of every state are a stack. -/
theorem exists_holds (package : Option String) (path : String) (hn : n ≤ lines.length) :
    ∃ pairs, Holds package path lines n pairs := by
  induction n with
  | zero => exact ⟨[], rfl, .nil, List.forall_mem_nil _⟩
  | succ n ih =>
    obtain ⟨pairs, hpairs⟩ := ih (by omega)
    exact hpairs.succ (List.getElem?_eq_getElem hn)

/-! ## A whole source -/

variable {content : List Char}

/-- The package that a source declares. -/
def packageOf (content : List Char) : Option String :=
  ((Text.lines content).findSome? package?).map String.ofList

/-- The depth of braces before a line of a source. -/
def depthAt (path : String) (content : List Char) (number : Nat) : Nat :=
  depthBefore (packageOf content) path (Text.lines content) number

/-- The greatest depth of braces in a line of a source. -/
def peakAt (path : String) (content : List Char) (number : Nat) : Nat :=
  peakIn (packageOf content) path (Text.lines content) number

theorem read_eq (path : String) (content : List Char) :
    read path content =
      readOf (packageOf content) path (Text.lines content) (Text.lines content).length := by
  rw [readOf, List.take_length]
  rfl

/-- **A member's class is still there exactly if no brace is missing.** Every
method and field of a source stands one brace deeper than a class that is
declared before it, the last one of the member's owner's name. Since the class
the depth has not fallen below the class's own exactly if it has not done so
before a line where the class, or a type after it, still waits for its body. -/
theorem member_in_class_iff (path : String) (content : List Char) {e : Element}
    (he : e ∈ read path content) (hkind : e.kind ≠ .type) :
    ∃ c ∈ read path content, c.kind = .type ∧ e.owner? = some c.qualifiedName ∧
      c.line < e.line ∧
      (∀ t ∈ read path content, t.kind = .type → c.line < t.line → t.line < e.line →
        t.qualifiedName ≠ c.qualifiedName) ∧
      depthAt path content e.line = depthAt path content c.line + 1 ∧
      ((∀ i, c.line < i → i ≤ e.line → depthAt path content c.line ≤ depthAt path content i) ↔
        ∀ t ∈ read path content, t.kind = .type → c.line ≤ t.line →
          ∀ i ≤ e.line, IsWaiting (depthAt path content) (peakAt path content) t i →
            depthAt path content c.line ≤ depthAt path content i) := by
  have hsound := (inOrder_read path content).isSound
  rw [read_eq] at he hsound ⊢
  obtain ⟨n, hn, line, -, hstep⟩ := mem_readOf_iff.1 he
  obtain ⟨pairs, hholds⟩ := exists_holds (packageOf content) path (Nat.le_of_lt hn)
  obtain ⟨scopes, hdeclares, -⟩ :=
    step_declares (packageOf content) path (n + 1) (areNamed_stateAfter n) line
  rw [hstep, ← hholds.scopes] at hdeclares
  generalize hscopes : pairs.map (·.1) = before at hdeclares
  cases hdeclares with
  | type kind _ _ _ => exact absurd kind hkind
  | @member scope rest _ _ isAt qualified level =>
    -- the scope on top, and its class
    obtain ⟨⟨s, c⟩, others, rfl, rfl, -⟩ := List.map_eq_cons_iff.1 hscopes
    have hscope : IsScopeOf _ _ s c := hholds.stack.scopes _ List.mem_cons_self
    have hkept : IsKept _ _ _ _ c := hholds.kept _ List.mem_cons_self
    have hline : e.line = n + 1 := isAt.line
    have hbefore : readOf (packageOf content) path (Text.lines content) n ⊆
        readOf (packageOf content) path (Text.lines content) (Text.lines content).length :=
      readOf_subset (Nat.le_of_lt hn)
    have hc := hbefore hscope.mem
    refine ⟨c, hc, hscope.kind, ?_, ?_, fun t ht htype hlt hle => ?_, ?_,
      fun h t _ _ hle i hi hwaits => ?_, fun h i hlt hle => ?_⟩
    · refine Element.IsUnder.owner?_eq ⟨e.name, isAt.named, ?_⟩ (hsound c hc).qualifiedName_ne_empty
      rw [hscope.qualified, qualified]
    · have := line_le_of_mem_readOf hscope.mem
      omega
    · exact hscope.latest t (mem_readOf_of_line_le ht (by omega)) htype hlt
    · rw [hline]
      exact level.symm.trans hscope.bodyDepth
    · exact h i (Nat.lt_of_le_of_lt hle hwaits.1) hi
    · rcases hkept i hlt (by omega) with hle' | ⟨t, ht, htype, hsince, hwaits⟩
      · exact hle'
      · exact h t (hbefore ht) htype hsince i hle hwaits

/-- A field in the body of its class. -/
theorem member_in_class_iff_field :
    ∃ e ∈ read "A.java" "class A \x7b\n  int x;\n\x7d\n".toList, e.kind ≠ .type ∧
      ∃ c ∈ read "A.java" "class A \x7b\n  int x;\n\x7d\n".toList, c.kind = .type ∧
        e.owner? = some c.qualifiedName ∧ c.line < e.line := by
  let field : Element :=
    { kind := .field, name := "x", qualifiedName := "A.x", file := "A.java", line := 2
      signature := "int x" }
  have hfield : field ∈ read "A.java" "class A \x7b\n  int x;\n\x7d\n".toList := by decide +kernel
  have hkind : field.kind ≠ .type := nofun
  obtain ⟨c, hc, htype, howner, hline, -⟩ := member_in_class_iff _ _ hfield hkind
  exact ⟨field, hfield, hkind, c, hc, htype, howner, hline⟩

/-- A class without a body inside another one, and a method behind both. -/
def bodiless : String :=
  "class Outer \x7b\n    class Inner\n\x7d\nvoid run() \x7b\n    if (true) \x7b\n" ++
    "        int x = 1;\n    \x7d\n\x7d\n"

/-- **A class that never opens gets what stands in a method behind it.** The
variable in line six becomes a field of the class in line two, though the depth
has fallen below that of the class in between. -/
theorem bodiless_class_gets_variable :
    ∃ e ∈ read "Outer.java" bodiless.toList, e.kind ≠ .type ∧
      ¬ ∃ c ∈ read "Outer.java" bodiless.toList, c.kind = .type ∧
        e.owner? = some c.qualifiedName ∧
        depthAt "Outer.java" bodiless.toList e.line =
          depthAt "Outer.java" bodiless.toList c.line + 1 ∧
        ∀ i, c.line < i → i ≤ e.line →
          depthAt "Outer.java" bodiless.toList c.line ≤ depthAt "Outer.java" bodiless.toList i := by
  let outer : Element :=
    { kind := .type, name := "Outer", qualifiedName := "Outer", file := "Outer.java", line := 1
      signature := "class Outer" }
  let inner : Element :=
    { kind := .type, name := "Inner", qualifiedName := "Outer.Inner", file := "Outer.java"
      line := 2, signature := "class Inner" }
  let leaked : Element :=
    { kind := .field, name := "x", qualifiedName := "Outer.Inner.x", file := "Outer.java", line := 6
      signature := "int x" }
  have hread : read "Outer.java" bodiless.toList = [outer, inner, leaked] := by decide +kernel
  refine ⟨leaked, by rw [hread]; simp, nofun, ?_⟩
  rintro ⟨c, hc, hkind, howner, -, hdepth⟩
  rw [hread, List.mem_cons, List.mem_cons, List.mem_singleton] at hc
  rcases hc with rfl | rfl | rfl
  · exact absurd howner (by decide +kernel)
  · exact absurd (hdepth 4 (by decide) (by decide)) (by decide +kernel)
  · cases hkind

end Docsmith.Source.Lines.Java
