import Docsmith.Proofs.Source.Grammar
/-!
# Syntax — a machine that runs over what is read

The leaves of the trees that a grammar makes are the tokens that it takes off
the front (`Reads.leaves`), so what trees span is told by their first and last
leaf. A machine that takes one token after another moves in the same way over
whatever a piece of a grammar reads if it does so over each token and over each
rule (`Moves`, `Reads.run`).
-/


namespace Docsmith.Source.Syntax

variable {Label Rule : Type} {rules : Rule → Grammar Label Rule}

/-! ## Leaves -/

namespace SyntaxTree

mutual

/-- The tokens of a tree. -/
def leaves : SyntaxTree Label → List Token
  | .leaf token => [token]
  | .node _ children => leavesOf children

/-- The tokens of some trees. -/
def leavesOf : List (SyntaxTree Label) → List Token
  | [] => []
  | tree :: rest => leaves tree ++ leavesOf rest

end

@[simp] theorem leaves_leaf (token : Token) :
    leaves (.leaf token : SyntaxTree Label) = [token] := by
  rw [leaves]

@[simp] theorem leaves_node (label : Label) (children : List (SyntaxTree Label)) :
    leaves (.node label children) = leavesOf children := by
  rw [leaves]

@[simp] theorem leavesOf_nil : leavesOf ([] : List (SyntaxTree Label)) = [] := by
  rw [leavesOf]

@[simp] theorem leavesOf_cons (tree : SyntaxTree Label) (rest : List (SyntaxTree Label)) :
    leavesOf (tree :: rest) = leaves tree ++ leavesOf rest := by
  rw [leavesOf]

@[simp] theorem leavesOf_append (trees others : List (SyntaxTree Label)) :
    leavesOf (trees ++ others) = leavesOf trees ++ leavesOf others := by
  induction trees with
  | nil => simp
  | cons tree trees ih => rw [List.cons_append, leavesOf_cons, ih, leavesOf_cons, List.append_assoc]

mutual

theorem first?_eq_head? : ∀ tree : SyntaxTree Label, first? tree = (leaves tree).head?
  | .leaf _ => by simp [first?]
  | .node _ children => by rw [first?, leaves_node, firstOf?_eq_head? children]

/-- Trees start with their first leaf. -/
theorem firstOf?_eq_head? :
    ∀ trees : List (SyntaxTree Label), firstOf? trees = (leavesOf trees).head?
  | [] => by simp [firstOf?]
  | tree :: rest => by
    rw [firstOf?, first?_eq_head? tree, firstOf?_eq_head? rest, leavesOf_cons, List.head?_append]

end

mutual

theorem last?_eq_getLast? : ∀ tree : SyntaxTree Label, last? tree = (leaves tree).getLast?
  | .leaf _ => by simp [last?]
  | .node _ children => by rw [last?, leaves_node, lastOf?_eq_getLast? children]

/-- And end with their last one. -/
theorem lastOf?_eq_getLast? :
    ∀ trees : List (SyntaxTree Label), lastOf? trees = (leavesOf trees).getLast?
  | [] => by simp [lastOf?]
  | tree :: rest => by
    rw [lastOf?, last?_eq_getLast? tree, lastOf?_eq_getLast? rest, leavesOf_cons,
      List.getLast?_append]

end

end SyntaxTree

namespace Grammar

open SyntaxTree

variable {g part first second : Grammar Label Rule} {tokens rest : List Token}
variable {trees : List (SyntaxTree Label)}

/-- **What is read is what the trees hold.** -/
theorem Reads.leaves (h : Reads rules g tokens trees rest) : tokens = leavesOf trees ++ rest := by
  induction h with
  | empty | done | ahead | absent => simp
  | token => simp
  | both _ _ ih ih' | more _ _ ih ih' => rw [ih, ih', leavesOf_append, List.append_assoc]
  | left _ ih | right _ ih | rule _ ih => exact ih
  | node _ ih => simpa using ih

/-! ## The last step of a reading -/

namespace Reads

variable {fits : Token → Bool} {t : Token} {label : Label} {name : Rule}

theorem of_both (h : Reads rules (.both first second) tokens trees rest) :
    ∃ before middle after, trees = before ++ after ∧ Reads rules first tokens before middle ∧
      Reads rules second middle after rest := by
  cases h with
  | both h h' => exact ⟨_, _, _, rfl, h, h'⟩

theorem of_either (h : Reads rules (.either first second) tokens trees rest) :
    Reads rules first tokens trees rest ∨ Reads rules second tokens trees rest := by
  cases h with
  | left h => exact .inl h
  | right h => exact .inr h

theorem of_opt (h : Reads rules (opt part) tokens trees rest) :
    Reads rules part tokens trees rest ∨ trees = [] ∧ rest = tokens := by
  cases h with
  | left h => exact .inl h
  | right h =>
    cases h
    exact .inr ⟨rfl, rfl⟩

theorem of_token (h : Reads rules (.token fits) tokens trees rest) :
    ∃ t, tokens = t :: rest ∧ trees = [.leaf t] ∧ fits t = true := by
  cases h with
  | token hfits => exact ⟨_, rfl, rfl, hfits⟩

theorem of_symbol {text : String} (h : Reads rules (symbol text) tokens trees rest) :
    ∃ t, tokens = t :: rest ∧ trees = [.leaf t] ∧ t.kind = .symbol ∧ t.text = text.toList := by
  obtain ⟨t, rfl, rfl, hfits⟩ := h.of_token
  simp only [Bool.and_eq_true, beq_iff_eq] at hfits
  exact ⟨t, rfl, rfl, hfits⟩

theorem of_node (h : Reads rules (.node label part) tokens trees rest) :
    ∃ children, trees = [.node label children] ∧ Reads rules part tokens children rest := by
  cases h with
  | node h => exact ⟨_, rfl, h⟩

theorem of_many (h : Reads rules (.many part) tokens trees rest) :
    trees = [] ∧ rest = tokens ∨ ∃ before middle after, trees = before ++ after ∧
      Reads rules part tokens before middle ∧ Reads rules (.many part) middle after rest := by
  cases h with
  | done => exact .inl ⟨rfl, rfl⟩
  | more h h' => exact .inr ⟨_, _, _, rfl, h, h'⟩

theorem of_rule (h : Reads rules (.rule name) tokens trees rest) :
    Reads rules (rules name) tokens trees rest := by
  cases h with
  | rule h => exact h

end Reads

/-! ## Tokens that no part fits -/

/-- No token part of a grammar fits a token, and it goes on by some rules only. -/
def avoids (t : Token) (allowed : Rule → Bool) : Grammar Label Rule → Bool
  | .empty | .ahead _ | .absent _ => true
  | .token fits => !fits t
  | .both first second | .either first second => avoids t allowed first && avoids t allowed second
  | .many part | .node _ part => avoids t allowed part
  | .rule name => allowed name

/-- **Such a token is not read.** -/
theorem Reads.not_mem_leaves {t : Token} {allowed : Rule → Bool}
    (hrules : ∀ name, allowed name = true → avoids t allowed (rules name) = true)
    (h : Reads rules g tokens trees rest) (hg : avoids t allowed g = true) :
    t ∉ leavesOf trees := by
  induction h with
  | empty | done | ahead | absent => simp
  | @token fits u rest hfits =>
    rw [avoids, Bool.not_eq_true'] at hg
    rw [leavesOf_cons, leaves_leaf, leavesOf_nil, List.append_nil, List.mem_singleton]
    rintro rfl
    rw [hfits] at hg
    cases hg
  | both _ _ ih ih' =>
    obtain ⟨hfirst, hsecond⟩ := Bool.and_eq_true_iff.1 hg
    rw [leavesOf_append, List.mem_append, not_or]
    exact ⟨ih hfirst, ih' hsecond⟩
  | more _ _ ih ih' =>
    rw [leavesOf_append, List.mem_append, not_or]
    exact ⟨ih hg, ih' hg⟩
  | left _ ih => exact ih (Bool.and_eq_true_iff.1 hg).1
  | right _ ih => exact ih (Bool.and_eq_true_iff.1 hg).2
  | node _ ih => simpa using ih hg
  | rule _ ih => exact ih (hrules _ hg)

/-- What is read starts with the first of the tokens that it is read from. -/
theorem Opens.head {P : Token → Prop} {t : Token} (hg : Opens rules P g)
    (h : Reads rules g (t :: tokens) trees rest) : P t := by
  obtain ⟨u, hu, hp⟩ := hg _ _ _ h
  have hleaves := h.leaves
  rw [firstOf?_eq_head?] at hu
  cases htrees : leavesOf trees with
  | nil =>
    rw [htrees] at hu
    cases hu
  | cons v leaves =>
    rw [htrees] at hu hleaves
    cases hu
    exact (List.cons.inj hleaves).1 ▸ hp

theorem Opens.either {P : Token → Prop} (h : Opens rules P first) (h' : Opens rules P second) :
    Opens rules P (.either first second) := by
  intro tokens trees rest hread
  cases hread with
  | left hread => exact h _ _ _ hread
  | right hread => exact h' _ _ _ hread

/-! ## Runs -/

variable {State : Type} (step : State → Token → Option State) (holds : Rule → State → Prop)

/-- Whatever a piece of a grammar reads, the machine moves over it from one state
to another, as long as it comes back to the state it was in over each rule that
holds there. -/
inductive Moves : Grammar Label Rule → State → State → Prop where
  | empty {s} : Moves .empty s s
  | token {fits s s'} (h : ∀ t, fits t = true → step s t = some s') : Moves (.token fits) s s'
  | both {first second s s' s''} (h : Moves first s s') (h' : Moves second s' s'') :
      Moves (.both first second) s s''
  | either {first second s s'} (h : Moves first s s') (h' : Moves second s s') :
      Moves (.either first second) s s'
  | many {part s} (h : Moves part s s) : Moves (.many part) s s
  | node {label part s s'} (h : Moves part s s') : Moves (.node label part) s s'
  | ahead {part s} : Moves (.ahead part) s s
  | absent {part s} : Moves (.absent part) s s
  | rule {name s} (h : holds name s) : Moves (.rule name) s s

variable {step holds}

/-- **The machine runs over what is read** as its moves over the pieces say. -/
theorem Reads.run (hrules : ∀ name s, holds name s → Moves step holds (rules name) s s)
    (h : Reads rules g tokens trees rest) :
    ∀ {s s'}, Moves step holds g s s' → (leavesOf trees).foldlM step s = some s' := by
  induction h with
  | empty | done | ahead | absent =>
    intro s s' hg
    cases hg
    simp
  | token hfits =>
    intro s s' hg
    cases hg with
    | token hstep => simp [hstep _ hfits]
  | both _ _ ih ih' =>
    intro s s' hg
    cases hg with
    | both hfirst hsecond =>
      rw [leavesOf_append, List.foldlM_append, ih hfirst]
      exact ih' hsecond
  | more _ _ ih ih' =>
    intro s s' hg
    cases hg with
    | many hpart =>
      rw [leavesOf_append, List.foldlM_append, ih hpart]
      exact ih' (.many hpart)
  | left _ ih =>
    intro s s' hg
    cases hg with
    | either hfirst _ => exact ih hfirst
  | right _ ih =>
    intro s s' hg
    cases hg with
    | either _ hsecond => exact ih hsecond
  | node _ ih =>
    intro s s' hg
    cases hg with
    | node hpart => simpa using ih hpart
  | rule _ ih =>
    intro s s' hg
    cases hg with
    | rule hrule => exact ih (hrules _ _ hrule)

namespace Moves

variable {s s' : State}

theorem opt (h : Moves step holds part s s) : Moves step holds (opt part) s s :=
  .either h .empty

/-- Commas between parts must not move the machine. -/
theorem commaList (hpart : Moves step holds part s s)
    (hcomma : Moves step holds (symbol "," : Grammar Label Rule) s s) :
    Moves step holds (commaList part) s s :=
  .both hpart (.many (.both hcomma hpart))

end Moves

end Grammar

end Docsmith.Source.Syntax
