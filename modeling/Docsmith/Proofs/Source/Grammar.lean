import Docsmith.Source.Syntax.Grammar
import Mathlib.Tactic.SplitIfs
/-!
# Syntax — what a grammar can read

The reader of grammars works with fuel and with choices that are ordered.
What it can read is a relation with one rule for each piece of a grammar
(`Reads`), in which either choice may be taken and a part may be repeated
any number of times; the reader never reads anything else
(`reads_of_read`). So what holds of everything that the marked parts of a
grammar read holds of every node of its trees (`Reads.satisfies`).
-/


namespace Docsmith.Source.Syntax

variable {Label Rule : Type} {rules : Rule → Grammar Label Rule}

namespace Grammar

/-- A grammar takes some tokens off the front of a list and makes trees of
them. -/
inductive Reads (rules : Rule → Grammar Label Rule) :
    Grammar Label Rule → List Token → List (SyntaxTree Label) → List Token → Prop where
  | empty {tokens} : Reads rules .empty tokens [] tokens
  | token {fits t rest} (h : fits t = true) : Reads rules (.token fits) (t :: rest) [.leaf t] rest
  | both {first second tokens before middle after rest}
      (h : Reads rules first tokens before middle) (h' : Reads rules second middle after rest) :
      Reads rules (.both first second) tokens (before ++ after) rest
  | left {first second tokens trees rest} (h : Reads rules first tokens trees rest) :
      Reads rules (.either first second) tokens trees rest
  | right {first second tokens trees rest} (h : Reads rules second tokens trees rest) :
      Reads rules (.either first second) tokens trees rest
  | done {part tokens} : Reads rules (.many part) tokens [] tokens
  | more {part tokens before middle after rest} (h : Reads rules part tokens before middle)
      (h' : Reads rules (.many part) middle after rest) :
      Reads rules (.many part) tokens (before ++ after) rest
  | node {label part tokens children rest} (h : Reads rules part tokens children rest) :
      Reads rules (.node label part) tokens [.node label children] rest
  | ahead {part tokens} : Reads rules (.ahead part) tokens [] tokens
  | absent {part tokens} : Reads rules (.absent part) tokens [] tokens
  | rule {name tokens trees rest} (h : Reads rules (rules name) tokens trees rest) :
      Reads rules (.rule name) tokens trees rest

variable {g part first second : Grammar Label Rule} {tokens rest : List Token}
variable {trees : List (SyntaxTree Label)}

/-- What a loop has found is followed by what repeating its part reads. -/
theorem reads_of_repeated {read : List Token → Reading Label}
    (hread : ∀ tokens trees rest, read tokens = some (trees, rest) →
      Reads rules part tokens trees rest) (fuel : Nat) :
    ∀ found tokens trees rest, repeated read fuel found tokens = (trees, rest) →
      ∃ after, trees = found.reverse.flatten ++ after ∧
        Reads rules (.many part) tokens after rest := by
  induction fuel with
  | zero =>
    intro found tokens trees rest h
    cases h
    exact ⟨[], (List.append_nil _).symm, .done⟩
  | succ fuel ih =>
    intro found tokens trees rest h
    rw [repeated] at h
    cases hr : read tokens with
    | none =>
      rw [hr] at h
      cases h
      exact ⟨[], (List.append_nil _).symm, .done⟩
    | some reading =>
      obtain ⟨before, middle⟩ := reading
      rw [hr] at h
      obtain ⟨after, rfl, hafter⟩ := ih _ _ _ _ h
      exact ⟨before ++ after, by simp, .more (hread _ _ _ hr) hafter⟩

/-- **The reader reads nothing that the grammar cannot.** -/
theorem reads_of_read (fuel : Nat) :
    ∀ g tokens trees rest, read rules fuel g tokens = some (trees, rest) →
      Reads rules g tokens trees rest := by
  induction fuel with
  | zero => exact fun g tokens trees rest h => nomatch h
  | succ fuel ih =>
    intro g tokens trees rest h
    cases g with
    | empty =>
      cases h
      exact .empty
    | token fits =>
      cases tokens with
      | nil => cases h
      | cons t tokens =>
        simp only [read] at h
        split at h
        · next hfits =>
          cases h
          exact .token hfits
        · cases h
    | both first second =>
      simp only [read] at h
      split at h
      · next hfirst =>
        split at h
        · next hsecond =>
          cases h
          exact .both (ih _ _ _ _ hfirst) (ih _ _ _ _ hsecond)
        · cases h
      · cases h
    | either first second =>
      simp only [read] at h
      split at h
      · next hfirst =>
        cases h
        exact .left (ih _ _ _ _ hfirst)
      · exact .right (ih _ _ _ _ h)
    | many part =>
      obtain ⟨after, rfl, hafter⟩ := reads_of_repeated (ih part) fuel [] tokens trees rest
        (Option.some.inj h)
      exact hafter
    | node label part =>
      simp only [read] at h
      split at h
      · next hpart =>
        cases h
        exact .node (ih _ _ _ _ hpart)
      · cases h
    | ahead part =>
      simp only [read] at h
      split at h
      · cases h
        exact .ahead
      · cases h
    | absent part =>
      simp only [read] at h
      split at h
      · cases h
      · cases h
        exact .absent
    | rule name => exact .rule (ih _ _ _ _ h)

/-- So do the trees of a whole text. -/
theorem reads_of_readAll {start : Rule} (h : readAll rules start tokens = some trees) :
    Reads rules (.rule start) tokens trees [] := by
  unfold readAll at h
  split at h
  · next hread =>
    cases h
    exact reads_of_read _ _ _ _ _ hread
  · cases h

/-- Tokens are taken off the front. -/
theorem Reads.suffix (h : Reads rules g tokens trees rest) : rest <:+ tokens := by
  induction h with
  | empty | done | ahead | absent => exact List.suffix_rfl
  | token => exact List.suffix_cons _ _
  | both _ _ ih ih' | more _ _ ih ih' => exact ih'.trans ih
  | left _ ih | right _ ih | node _ ih | rule _ ih => exact ih

theorem firstOf?_append (trees others : List (SyntaxTree Label)) :
    SyntaxTree.firstOf? (trees ++ others) =
      (SyntaxTree.firstOf? trees).or (SyntaxTree.firstOf? others) := by
  induction trees with
  | nil => rfl
  | cons tree trees ih =>
    rw [List.cons_append, SyntaxTree.firstOf?, SyntaxTree.firstOf?, ih, Option.or_assoc]

/-- What trees start with is one of the tokens that they were read from. -/
theorem Reads.firstOf?_mem (h : Reads rules g tokens trees rest) :
    ∀ t, SyntaxTree.firstOf? trees = some t → t ∈ tokens := by
  induction h with
  | empty | done | ahead | absent => exact nofun
  | token =>
    intro t ht
    cases ht
    exact List.mem_cons_self
  | both h _ ih ih' | more h _ ih ih' =>
    intro t ht
    rw [firstOf?_append, Option.or_eq_some_iff] at ht
    rcases ht with ht | ⟨-, ht⟩
    · exact ih t ht
    · exact h.suffix.subset (ih' t ht)
  | left _ ih | right _ ih | rule _ ih => exact ih
  | node _ ih =>
    intro t ht
    rw [SyntaxTree.firstOf?, SyntaxTree.firstOf?, Option.or_none] at ht
    exact ih t ht

/-! ## Openings -/

/-- Whatever a grammar reads starts with a token of the sort `P`. -/
def Opens (rules : Rule → Grammar Label Rule) (P : Token → Prop) (g : Grammar Label Rule) : Prop :=
  ∀ tokens trees rest, Reads rules g tokens trees rest →
    ∃ t, SyntaxTree.firstOf? trees = some t ∧ P t

namespace Opens

variable {P : Token → Prop} {fits : Token → Bool} {label : Label} {name : Rule}

theorem token (h : ∀ t, fits t = true → P t) : Opens rules P (.token fits) := by
  intro tokens trees rest hread
  cases hread with
  | token hfits => exact ⟨_, rfl, h _ hfits⟩

theorem both (h : Opens rules P first) : Opens rules P (.both first second) := by
  intro tokens trees rest hread
  cases hread with
  | both hfirst hsecond =>
    obtain ⟨t, ht, hp⟩ := h _ _ _ hfirst
    exact ⟨t, by rw [firstOf?_append, ht, Option.some_or], hp⟩

/-- The first part may be missing. -/
theorem opt_both (h : Opens rules P first) (h' : Opens rules P second) :
    Opens rules P (.both (opt first) second) := by
  intro tokens trees rest hread
  cases hread with
  | both hfirst hsecond =>
    cases hfirst with
    | left hfirst => exact both h _ _ _ (.both hfirst hsecond)
    | right hempty =>
      cases hempty
      exact h' _ _ _ hsecond

theorem node (h : Opens rules P part) : Opens rules P (.node label part) := by
  intro tokens trees rest hread
  cases hread with
  | node hpart =>
    obtain ⟨t, ht, hp⟩ := h _ _ _ hpart
    exact ⟨t, by rw [SyntaxTree.firstOf?, SyntaxTree.first?, ht, Option.some_or], hp⟩

theorem rule (h : Opens rules P (rules name)) : Opens rules P (.rule name) := by
  intro tokens trees rest hread
  cases hread with
  | rule hrule => exact h _ _ _ hrule

end Opens

/-! ## Nodes -/

/-- Every marked part of a grammar is of a kind; a part that is only looked
at makes no node. -/
def Marks (N : Label → Grammar Label Rule → Prop) : Grammar Label Rule → Prop
  | .empty | .token _ | .rule _ | .ahead _ | .absent _ => True
  | .both first second | .either first second => Marks N first ∧ Marks N second
  | .many part => Marks N part
  | .node label part => N label part ∧ Marks N part

end Grammar

/-- A condition holds of every node of a tree. -/
inductive SyntaxTree.Satisfies (T : Label → List (SyntaxTree Label) → Prop) :
    SyntaxTree Label → Prop where
  | leaf {t} : Satisfies T (.leaf t)
  | node {label children} (h : T label children) (below : ∀ tree ∈ children, Satisfies T tree) :
      Satisfies T (.node label children)

namespace SyntaxTree

variable {T : Label → List (SyntaxTree Label) → Prop} {label : Label}
variable {trees children : List (SyntaxTree Label)}

/-- A node among trees that satisfy a condition does too. -/
theorem satisfies_of_mem (htrees : ∀ tree ∈ trees, tree.Satisfies T)
    (h : .node label children ∈ trees) :
    T label children ∧ ∀ tree ∈ children, tree.Satisfies T := by
  cases htrees _ h with
  | node hnode below => exact ⟨hnode, below⟩

variable [DecidableEq Label]

theorem mem_of_mem_findAll (h : children ∈ findAll label trees) : .node label children ∈ trees := by
  obtain ⟨tree, htree, hsome⟩ := List.mem_filterMap.1 h
  cases tree with
  | leaf t => cases hsome
  | node l parts =>
    dsimp only at hsome
    split_ifs at hsome with hl
    cases hsome
    exact hl ▸ htree

theorem mem_of_find? (h : find? label trees = some children) : .node label children ∈ trees :=
  mem_of_mem_findAll (List.mem_filterMap.2 (List.exists_of_findSome?_eq_some h))

end SyntaxTree

namespace Grammar

variable {N : Label → Grammar Label Rule → Prop} {T : Label → List (SyntaxTree Label) → Prop}
variable {Q : Token → Prop} {g : Grammar Label Rule} {tokens rest : List Token}
variable {trees : List (SyntaxTree Label)}

/-- **What the marked parts of a grammar read, every node holds**, as long
as the tokens are of a sort `Q`. -/
theorem Reads.satisfies (hrules : ∀ name, (rules name).Marks N)
    (hparts : ∀ label part tokens children rest, N label part → (∀ t ∈ tokens, Q t) →
      Reads rules part tokens children rest → T label children)
    (h : Reads rules g tokens trees rest) (hg : g.Marks N) (hq : ∀ t ∈ tokens, Q t) :
    ∀ tree ∈ trees, tree.Satisfies T := by
  induction h with
  | empty | done | ahead | absent => exact List.forall_mem_nil _
  | token =>
    intro tree htree
    rw [List.mem_singleton.1 htree]
    exact .leaf
  | both h h' ih ih' =>
    intro tree htree
    rcases List.mem_append.1 htree with htree | htree
    · exact ih hg.1 hq tree htree
    · exact ih' hg.2 (fun t ht => hq t (h.suffix.subset ht)) tree htree
  | more h h' ih ih' =>
    intro tree htree
    rcases List.mem_append.1 htree with htree | htree
    · exact ih hg hq tree htree
    · exact ih' hg (fun t ht => hq t (h.suffix.subset ht)) tree htree
  | left h ih => exact ih hg.1 hq
  | right h ih => exact ih hg.2 hq
  | node h ih =>
    intro tree htree
    rw [List.mem_singleton.1 htree]
    exact .node (hparts _ _ _ _ _ hg.1 hq h) (ih hg.2 hq)
  | rule h ih => exact ih (hrules _) hq

end Grammar

end Docsmith.Source.Syntax
