import Docsmith.Proofs.Element.Ownership
import Docsmith.Proofs.Text.Lines
import Docsmith.Source.Python.Declarations
import Mathlib.Tactic.SplitIfs
import Docsmith.Proofs.Source.Grammar
/-!
# Python — elements read by syntax

Wherever the grammar of Python marks a name it has read a word, and a
declaration starts with a token that is no mark (`rules_marks`), so both stand
in a line of the source (`isPlaced_of_reads`). The elements of a tree are made
with the qualified name of the class around them in front of their own, the
class before what stands in its body, so what is read of a source is in order
(`inOrder_of_read`).
-/

/-! ## Where tokens stand

The tokens of a source are marks, which have no text and may stand behind the
last line, and pieces of the source, for every round of the reading finds such
(`Round.arePieces`). A piece is cut where its line says: as many line feeds
stand before it. So its line is a line of the source, and a word is a simple
name on one line.
-/

namespace Docsmith.Source.Python

open Syntax

variable {content text chars rest : List Char} {kind : Token.Kind} {n : Nat} {t : Token}
variable {p : Place} {found : List Token}

/-! ## Words -/

/-- A token that is a word starts with a character that may start one, and
goes on as far as it can. -/
theorem token?_word (h : token? text = some (.word, n)) :
    ∃ c, ∃ rest : List Char, text = c :: rest ∧ startsWord c = true ∧
      text.take n = c :: rest.takeWhile Unicode.isWordChar := by
  unfold token? at h
  dsimp only at h
  split at h
  · obtain ⟨_, _, hliteral⟩ := Option.map_eq_some_iff.1 h
    cases hliteral
  · cases text with
    | nil => cases h
    | cons c rest =>
      dsimp only at h
      split_ifs at h with hstart
      · cases h
        refine ⟨c, rest, rfl, hstart, ?_⟩
        rw [Nat.add_comm, List.take_succ_cons,
          ← List.prefix_iff_eq_take.1 (List.takeWhile_prefix _)]
      · cases h
      · split at h <;> cases h

/-- A word holds no character that neither starts nor continues words. -/
theorem not_mem_of_token?_word {c : Char} (hstarts : startsWord c = false)
    (hpart : Unicode.isWordChar c = false) (h : token? text = some (.word, n)) :
    c ∉ text.take n := by
  obtain ⟨first, rest, -, hfirst, htake⟩ := token?_word h
  rw [htake]
  exact Text.not_mem_cons_takeWhile hfirst hstarts hpart

/-! ## Places -/

/-- A token is a piece of a text, cut in the token's line. -/
def IsPiece (content : List Char) (t : Token) : Prop :=
  ∃ before c rest n, content = before ++ c :: rest ∧ t.line = lineCount before + 1 ∧
    Text.isBlank c = false ∧ token? (c :: rest) = some (t.kind, n) ∧ t.text = (c :: rest).take n

/-- Of some tokens, those that are no marks are pieces. -/
def ArePieces (content : List Char) (tokens : List Token) : Prop :=
  ∀ t ∈ tokens, isMark t = false → IsPiece content t

/-- A place stands before the rest of a text, in the line of that rest. -/
def Place.IsBefore (content : List Char) (p : Place) (rest : List Char) : Prop :=
  ∃ before, content = before ++ rest ∧ p.line = lineCount before + 1

/-- Behind some characters stands what follows them. -/
theorem Place.IsBefore.after (chars : List Char) (h : p.IsBefore content (chars ++ rest)) :
    (p.after chars).IsBefore content rest := by
  obtain ⟨before, hcontent, hline⟩ := h
  refine ⟨before ++ chars, by rw [hcontent, List.append_assoc], ?_⟩
  simp only [Place.after, hline, lineCount, List.countP_append]
  omega

theorem Place.IsBefore.after_take (h : p.IsBefore content text) (n : Nat) :
    (p.after (text.take n)).IsBefore content (text.drop n) :=
  Place.IsBefore.after _ (by rwa [List.take_append_drop])

/-- A comment ends before the line feed. -/
theorem Place.IsBefore.after_comment (h : p.IsBefore content ('#' :: text)) :
    (p.after ('#' :: text.takeWhile (· != '\n'))).IsBefore content
      (text.dropWhile (· != '\n')) := by
  refine Place.IsBefore.after _ ?_
  rw [List.cons_append, List.takeWhile_append_dropWhile]
  exact h

/-- Blocks and brackets are no part of where a place stands. -/
theorem Place.IsBefore.congr {q : Place} (h : p.IsBefore content rest) (hline : q.line = p.line) :
    q.IsBefore content rest := by
  obtain ⟨before, hcontent, hp⟩ := h
  exact ⟨before, hcontent, hline.trans hp⟩

/-- A mark need not be a piece. -/
theorem ArePieces.marks_append {marks : List Token} (hmarks : ∀ t ∈ marks, isMark t = true)
    (h : ArePieces content found) : ArePieces content (marks ++ found) := by
  intro t ht hsolid
  rcases List.mem_append.1 ht with ht | ht
  · rw [hmarks t ht] at hsolid
    cases hsolid
  · exact h t ht hsolid

/-! ## Rounds -/

/-- A character between tokens. -/
def isSkipped (c : Char) : Bool :=
  Text.isBlank c || c = '\ufeff' || c = '\u200b' || c = '\u2060'

/-- What one round of the reading does with a text that stands at a place, where a line
starts or within one: the place and the text it goes on with, and what is found then, the
last token first. -/
inductive Round (p : Place) (found : List Token) :
    (fresh : Bool) → List Char → (goesOnFresh : Bool) → Place → List Char → List Token →
      Prop where
  | margin {text : List Char} {q : Place} (count : Nat) (marks : List Token)
      (hline : q.line = (p.after (text.take count)).line) (hmarks : ∀ t ∈ marks, isMark t = true) :
      Round p found true text false q (text.drop count) (marks ++ found)
  | feed {text : List Char} :
      Round p found false ('\n' :: text) true (p.after ['\n']) text (p.mark .newline :: found)
  | feedInBrackets {text : List Char} :
      Round p found false ('\n' :: text) false (p.after ['\n']) text found
  | skip {c : Char} {text : List Char} (hfeed : c ≠ '\n') (hskip : isSkipped c = true) :
      Round p found false (c :: text) false (p.after [c]) text found
  | comment {text : List Char} :
      Round p found false ('#' :: text) false (p.after ('#' :: text.takeWhile (· != '\n')))
        (text.dropWhile (· != '\n')) found
  | continued {text : List Char} (ending : List Char) (hending : ending ∈ [['\n'], ['\r', '\n']]) :
      Round p found false ('\\' :: (ending ++ text)) false (p.after ('\\' :: ending)) text found
  | token {c : Char} {text : List Char} {kind : Token.Kind} {n : Nat} (brackets : Nat)
      (hskip : isSkipped c = false) (htoken : token? (c :: text) = some (kind, n)) :
      Round p found false (c :: text) false { p.after ((c :: text).take n) with brackets }
        ((c :: text).drop n)
        (⟨kind, (c :: text).take n,
          ⟨p.offset, (p.after ((c :: text).take n)).offset⟩, p.line, []⟩ :: found)

/-- The marks at the start of a line come in front of what is found. -/
theorem exists_blockMarks (p : Place) (width : Nat) (found : List Token) :
    (blockMarks p width found).1.line = p.line ∧
      ∃ marks, (∀ t ∈ marks, isMark t = true) ∧ (blockMarks p width found).2 = marks ++ found := by
  unfold blockMarks
  dsimp only
  split_ifs
  · exact ⟨rfl, [p.mark .indent], List.forall_mem_singleton.2 rfl, rfl⟩
  · exact ⟨rfl, [], List.forall_mem_nil _, rfl⟩
  · refine ⟨rfl, _, fun t ht => ?_, rfl⟩
    rw [List.eq_of_mem_replicate ht]
    rfl

/-- **A reading stops or goes on with a round**; within a line it stops at the end of the
text only. -/
theorem round_of_tokensFrom {fuel : Nat} {fresh : Bool} {tokens : List Token}
    (h : tokensFrom (fuel + 1) fresh p text found = some tokens) :
    ((fresh = true ∨ text = []) ∧
      ∃ marks, (∀ t ∈ marks, isMark t = true) ∧ tokens = (marks ++ found).reverse) ∨
    ∃ goesOnFresh q rest found', Round p found fresh text goesOnFresh q rest found' ∧
      tokensFrom fuel goesOnFresh q rest found' = some tokens := by
  cases fresh with
  | true =>
    rw [tokensFrom.eq_def] at h
    dsimp only at h
    generalize margin (text.length + 1) 0 0 text = m at h
    obtain ⟨hline, marks, hmarks, heq⟩ := exists_blockMarks (p.after (text.take m.1)) m.2 found
    rw [heq] at h
    split at h
    · cases h
      exact .inl ⟨.inl rfl, marks, hmarks, rfl⟩
    · exact .inr ⟨_, _, _, _, .margin m.1 marks hline hmarks, h⟩
  | false =>
    cases text with
    | nil =>
      rw [tokensFrom.eq_def] at h
      cases h
      -- at the end every block is closed
      refine .inl ⟨.inr rfl, List.replicate p.blocks.length (p.mark .dedent) ++ [p.mark .newline],
        fun t ht => ?_, by rw [List.append_assoc, List.singleton_append]⟩
      rcases List.mem_append.1 ht with ht | ht
      · rw [List.eq_of_mem_replicate ht]
        rfl
      · rw [List.mem_singleton.1 ht]
        rfl
    | cons c text =>
      refine .inr ?_
      rw [tokensFrom.eq_def] at h
      dsimp only at h
      split at h
      · next hfeed =>
        subst hfeed
        split at h
        · exact ⟨_, _, _, _, .feed, h⟩
        · exact ⟨_, _, _, _, .feedInBrackets, h⟩
      next hfeed =>
      split at h
      · next hskip => exact ⟨_, _, _, _, .skip hfeed hskip, h⟩
      next hskip =>
      split at h
      · next hcomment =>
        subst hcomment
        rw [List.length_cons, Nat.add_sub_cancel, Text.drop_length_takeWhile] at h
        exact ⟨_, _, _, _, .comment, h⟩
      split at h
      · next hcontinued =>
        subst hcontinued
        split at h
        · exact ⟨_, _, _, _, .continued ['\n'] List.mem_cons_self, h⟩
        · exact ⟨_, _, _, _,
            .continued ['\r', '\n'] (List.mem_cons_of_mem _ List.mem_cons_self), h⟩
        · cases h
      · split at h
        · cases h
        · next htoken => exact ⟨_, _, _, _, .token _ (Bool.not_eq_true _ ▸ hskip) htoken, h⟩

/-- **What every round keeps holds where the reading stops.** -/
theorem holds_of_tokensFrom (holds : Place → List Char → List Token → Prop)
    (hround : ∀ {p text found fresh goesOnFresh q rest found'},
      Round p found fresh text goesOnFresh q rest found' → holds p text found → holds q rest found')
    {tokens : List Token} {fuel : Nat} : ∀ {fresh p text found}, holds p text found →
      tokensFrom fuel fresh p text found = some tokens →
      ∃ q rest found' marks, holds q rest found' ∧ (∀ t ∈ marks, isMark t = true) ∧
        tokens = (marks ++ found').reverse := by
  induction fuel with
  | zero => exact fun _ h => nomatch h
  | succ fuel ih =>
    intro fresh p text found hholds h
    rcases round_of_tokensFrom h with ⟨-, marks, hmarks, rfl⟩ | ⟨_, _, _, _, hnext, h⟩
    · exact ⟨p, text, found, marks, hholds, hmarks, rfl⟩
    · exact ih (hround hnext hholds) h

/-- A round finds marks and pieces. -/
theorem Round.arePieces {fresh goesOnFresh : Bool} {q : Place} {found' : List Token}
    (h : Round p found fresh text goesOnFresh q rest found')
    (hholds : p.IsBefore content text ∧ ArePieces content found) :
    q.IsBefore content rest ∧ ArePieces content found' := by
  obtain ⟨hp, hfound⟩ := hholds
  cases h with
  | margin count marks hline hmarks =>
    exact ⟨(hp.after_take count).congr hline, hfound.marks_append hmarks⟩
  | feed => exact ⟨hp.after ['\n'], hfound.marks_append (List.forall_mem_singleton.2 rfl)⟩
  | feedInBrackets => exact ⟨hp.after ['\n'], hfound⟩
  | @skip c => exact ⟨hp.after [c], hfound⟩
  | comment => exact ⟨hp.after_comment, hfound⟩
  | continued ending => exact ⟨hp.after ('\\' :: ending), hfound⟩
  | @token c _ _ n _ hskip htoken =>
    refine ⟨(hp.after_take n).congr rfl, List.forall_mem_cons.2 ⟨fun _ => ?_, hfound⟩⟩
    simp only [isSkipped, Bool.or_eq_false_iff] at hskip
    obtain ⟨before, hcontent, hline⟩ := hp
    exact ⟨before, c, _, n, hcontent, hline, hskip.1.1.1, htoken, rfl⟩

/-- **The tokens of a source are marks and pieces of it.** -/
theorem arePieces_of_tokens? {tokens : List Token} (h : tokens? content = some tokens) :
    ArePieces content tokens := by
  have hstart : Place.IsBefore content {} content ∧ ArePieces content [] :=
    ⟨⟨[], rfl, rfl⟩, List.forall_mem_nil _⟩
  obtain ⟨_, _, _, marks, ⟨-, hfound⟩, hmarks, rfl⟩ := holds_of_tokensFrom
    (fun p text found => p.IsBefore content text ∧ ArePieces content found) Round.arePieces hstart h
  exact fun t ht => hfound.marks_append hmarks t (List.mem_reverse.1 ht)

namespace IsPiece

/-- A piece stands in a line of the source. -/
theorem line_le (h : IsPiece content t) : t.line ≤ (Text.lines content).length := by
  obtain ⟨before, c, rest, n, rfl, hline, -⟩ := h
  rw [hline]
  exact Text.lineCount_lt_length_lines before rest c

theorem line_pos (h : IsPiece content t) : 1 ≤ t.line := by
  obtain ⟨before, -, -, -, -, hline, -⟩ := h
  omega

/-- **A word is a simple name.** -/
theorem isSimpleName (h : IsPiece content t) (hword : t.kind = .word) :
    IsSimpleName (String.ofList t.text) := by
  obtain ⟨-, c, rest, n, -, -, hblank, htoken, htext⟩ := h
  rw [hword] at htoken
  obtain ⟨_, _, hcons, -, htake⟩ := token?_word htoken
  cases hcons
  have hdot := not_mem_of_token?_word (c := '.') (by decide +kernel) (by decide +kernel) htoken
  rw [htake, List.mem_cons, not_or] at hdot
  rw [htext, htake]
  exact .ofList_cons hblank (Ne.symm hdot.1) hdot.2

/-- And stands on one line. -/
theorem feed_not_mem (h : IsPiece content t) (hword : t.kind = .word) : '\n' ∉ t.text := by
  obtain ⟨-, c, rest, n, -, -, -, htoken, htext⟩ := h
  rw [htext]
  exact not_mem_of_token?_word (by decide +kernel) (by decide +kernel) (hword ▸ htoken)

end IsPiece

end Docsmith.Source.Python

namespace Docsmith.Source.Python

open Syntax Syntax.Grammar

variable {content : List Char}

/-! ## Declarations -/

/-- The part declares something, or decorates what does. -/
def isDeclaration : Label → Bool
  | .type | .function | .decorated | .assignment => true
  | _ => false

/-- What is marked as a name is one, and what is marked as a declaration opens
with no mark. -/
def MarksStart (label : Label) (part : Part) : Prop :=
  (label = .name → part = ident) ∧
    (isDeclaration label = true → Opens rules (isMark · = false) part)

/-- A node that is marked as a name starts with a word of the source, and a
declaration with a piece of it. -/
structure IsPlaced (content : List Char) (label : Label) (children : List (SyntaxTree Label)) :
    Prop where
  name : label = .name →
    ∃ t, SyntaxTree.firstOf? children = some t ∧ IsPiece content t ∧ t.kind = .word
  declaration : isDeclaration label = true →
    ∃ t, SyntaxTree.firstOf? children = some t ∧ IsPiece content t

/-- A word is no mark. -/
theorem opens_word (more : Token → Bool) :
    Opens rules (isMark · = false) (.token fun t => t.kind == .word && more t) :=
  .token fun t ht => by
    simp only [Bool.and_eq_true, beq_iff_eq] at ht
    simp [isMark, ht.1]

/-- Nor is a symbol. -/
theorem opens_symbol (more : Token → Bool) :
    Opens rules (isMark · = false) (.token fun t => t.kind == .symbol && more t) :=
  .token fun t ht => by
    simp only [Bool.and_eq_true, beq_iff_eq] at ht
    simp [isMark, ht.1]

/-- The grammar marks nothing else as a name or a declaration. -/
theorem rules_marks (name : Rule) : (rules name).Marks MarksStart := by
  cases name <;>
    simp [rules, Marks, MarksStart, isDeclaration, seq, oneOf, opt, commaList, symbol, symbols,
      word, words, ofKind, ident, Python.name, newline, listOf, dotted, binaryOperator, collected,
      blockOf]
  case type => exact .both (opens_word _)
  case function => exact .opt_both (opens_word _) (.both (opens_word _))
  case decorated => exact .both (.rule (.node (.both (opens_symbol _))))
  case expressionStatement => exact .both (.node (opens_word _))

/-- **What the grammar marks as a name or a declaration starts in the source.** -/
theorem isPlaced_of_reads {label : Label} {part : Part} {tokens rest : List Token}
    {children : List (SyntaxTree Label)} (hpart : MarksStart label part)
    (htokens : ArePieces content tokens) (h : Reads rules part tokens children rest) :
    IsPlaced content label children := by
  constructor
  · intro hlabel
    rw [hpart.1 hlabel] at h
    unfold ident at h
    cases h with
    | @token _ t _ hfits =>
      simp only [Bool.and_eq_true, beq_iff_eq] at hfits
      exact ⟨t, rfl, htokens t List.mem_cons_self (by simp [isMark, hfits.1]), hfits.1⟩
  · intro hlabel
    obtain ⟨t, ht, hsolid⟩ := hpart.2 hlabel _ _ _ h
    exact ⟨t, ht, htokens t (h.firstOf?_mem t ht) hsolid⟩

/-- So every node in the trees of a source is placed in it. -/
theorem satisfies_of_readAll {tokens : List Token} {trees : List (SyntaxTree Label)}
    (htokens : tokens? content = some tokens) (h : readAll rules .unit tokens = some trees) :
    ∀ tree ∈ trees, tree.Satisfies (IsPlaced content) :=
  (reads_of_readAll h).satisfies (Q := fun t => isMark t = false → IsPiece content t) rules_marks
    (fun _ _ _ _ _ => isPlaced_of_reads) trivial (arePieces_of_tokens? htokens)

/-- A declaration is called by a word of the source. -/
theorem isPiece_of_nameOf? {parts : List (SyntaxTree Label)} {name : Token}
    (hparts : ∀ tree ∈ parts, tree.Satisfies (IsPlaced content)) (h : nameOf? parts = some name) :
    IsPiece content name ∧ name.kind = .word := by
  obtain ⟨children, hfind, hfirst⟩ := Option.bind_eq_some_iff.1 h
  have hplaced := (SyntaxTree.satisfies_of_mem hparts (SyntaxTree.mem_of_find? hfind)).1
  obtain ⟨t, ht, hpiece⟩ := hplaced.name rfl
  cases ht.symm.trans hfirst
  exact hpiece

/-- Some parts start in a line of the source. -/
def StartsIn (content : List Char) (parts : List (SyntaxTree Label)) : Prop :=
  ∃ t, SyntaxTree.firstOf? parts = some t ∧ IsPiece content t

theorem StartsIn.lineOf_mem {parts : List (SyntaxTree Label)} (h : StartsIn content parts) :
    1 ≤ lineOf parts ∧ lineOf parts ≤ (Text.lines content).length := by
  obtain ⟨t, ht, hpiece⟩ := h
  rw [lineOf, ht, Option.map_some, Option.getD_some]
  exact ⟨hpiece.line_pos, hpiece.line_le⟩

/-! ## Signatures -/

theorem feed_not_mem_elide {value : List Char} (h : '\n' ∉ value) : '\n' ∉ elide value := by
  unfold elide
  split_ifs
  · exact h
  · rw [List.mem_append, not_or]
    exact ⟨fun hmem => h (List.mem_of_mem_take hmem), by decide⟩

namespace Context

variable {c : Context} {owner : Option String} {name : Token}
variable {outer : Option (List (SyntaxTree Label))}
variable {parts trees : List (SyntaxTree Label)} {tree : SyntaxTree Label}

/-- A labelled part of a signature stays on the line. -/
theorem feed_not_mem_labelled {label : String} {shorten : List Char → List Char}
    (hlabel : '\n' ∉ label.toList) (hshorten : ∀ text, '\n' ∉ text → '\n' ∉ shorten text)
    (part : Option (List (SyntaxTree Label))) : '\n' ∉ (c.labelled label part shorten).toList := by
  cases part with
  | none => exact List.not_mem_nil
  | some trees =>
    rw [labelled, String.toList_append, String.toList_ofList, List.mem_append, not_or]
    exact ⟨hlabel, hshorten _ (Text.feed_not_mem_collapse _)⟩

/-! ## Elements -/

/-- What is called by a qualified name has the class around it for an owner. -/
theorem isCalledIn_of_qualify {e : Element} (h : e.qualifiedName = qualify owner e.name) :
    e.IsCalledIn owner :=
  h.trans (by cases owner <;> rfl)

variable (hname : IsPiece c.content name ∧ name.kind = .word)

include hname

theorem isSound_typeElement (owner : Option String)
    (hstart : StartsIn c.content (outer.getD parts)) :
    (c.typeElement (qualify owner (String.ofList name.text)) name outer parts).IsSound c.path
      (Text.lines c.content).length := by
  refine ⟨rfl, hname.1.isSimpleName hname.2, (isCalledIn_of_qualify rfl).exists_before,
    hstart.lineOf_mem.1, hstart.lineOf_mem.2, ?_⟩
  have hbases : '\n' ∉ ((SyntaxTree.find? .bases parts).map c.collapsed).getD [] :=
    Text.not_mem_getD_map (fun _ => Text.feed_not_mem_collapse _) _
  have hshown (bases : List Char) (h : '\n' ∉ bases) :
      '\n' ∉ (if bases = ['(', ')'] then "" else String.ofList bases).toList := by
    split_ifs
    · exact List.not_mem_nil
    · rwa [String.toList_ofList]
  simp only [typeElement, String.toList_append, String.toList_ofList, List.mem_append, not_or]
  exact ⟨⟨⟨by decide, hname.1.feed_not_mem hname.2⟩, hshown _ hbases⟩, by decide⟩

theorem isSound_functionElement (owner : Option String)
    (hstart : StartsIn c.content (outer.getD parts)) :
    (c.functionElement owner name outer parts).IsSound c.path (Text.lines c.content).length := by
  refine ⟨rfl, hname.1.isSimpleName hname.2, (isCalledIn_of_qualify rfl).exists_before,
    hstart.lineOf_mem.1, hstart.lineOf_mem.2, ?_⟩
  have hkeyword (isAsync : Prop) [Decidable isAsync] :
      '\n' ∉ (if isAsync then "async def " else "def ").toList := by
    split_ifs <;> decide
  simp only [functionElement, String.toList_append, String.toList_ofList, List.mem_append, not_or]
  exact ⟨⟨⟨⟨hkeyword _, hname.1.feed_not_mem hname.2⟩,
    feed_not_mem_labelled (by decide) (fun _ => id) _⟩,
    feed_not_mem_labelled (by decide) (fun _ => id) _⟩, by decide⟩

theorem isSound_fieldElement (owner : Option String) (hstart : StartsIn c.content parts) :
    (c.fieldElement owner name parts).IsSound c.path (Text.lines c.content).length := by
  refine ⟨rfl, hname.1.isSimpleName hname.2, (isCalledIn_of_qualify rfl).exists_before,
    hstart.lineOf_mem.1, hstart.lineOf_mem.2, ?_⟩
  simp only [fieldElement, String.toList_append, String.toList_ofList, List.mem_append, not_or]
  exact ⟨⟨hname.1.feed_not_mem hname.2, feed_not_mem_labelled (by decide) (fun _ => id) _⟩,
    feed_not_mem_labelled (by decide) (fun _ => feed_not_mem_elide) _⟩

omit hname

theorem inOrder_elementsOf {count : Nat} {free : Element → Prop}
    (h : ∀ tree ∈ trees, InOrder c.path count free owner.toList (c.elements owner outer tree)) :
    InOrder c.path count free owner.toList (c.elementsOf owner outer trees) := by
  induction trees with
  | nil => exact .nil
  | cons tree trees ih =>
    rw [elementsOf]
    exact (h tree List.mem_cons_self).append (ih fun t ht => h t (List.mem_cons_of_mem _ ht))

/-- **The elements of a tree are in order** behind the class around it; what
decorates the tree starts in the source too. -/
theorem inOrder_elements (h : tree.Satisfies (IsPlaced c.content)) :
    ∀ owner outer, (∀ parts ∈ outer, StartsIn c.content parts) →
      InOrder c.path (Text.lines c.content).length (fun e => e.qualifiedName = e.name)
        owner.toList (c.elements owner outer tree) := by
  induction h with
  | leaf => exact fun owner outer _ => .nil
  | @node label parts hplaced below ih =>
    intro owner outer houter
    have hstart (hlabel : isDeclaration label = true) : StartsIn c.content (outer.getD parts) := by
      cases outer with
      | none => exact hplaced.declaration hlabel
      | some parts => exact houter parts rfl
    have hnone : ∀ parts ∈ (none : Option (List (SyntaxTree Label))), StartsIn c.content parts :=
      nofun
    cases label with
    | type =>
      simp only [elements]
      split
      · next name hname =>
        have hpiece := isPiece_of_nameOf? below hname
        have hsound := isSound_typeElement hpiece owner (hstart rfl)
        refine .cons_type rfl hsound ((isCalledIn_of_qualify rfl).isUnder hsound.named) ?_
        exact (inOrder_elementsOf fun tree ht => ih tree ht _ _ hnone).mono (by simp [typeElement])
      · exact .nil
    | function =>
      simp only [elements]
      refine .of_forall fun e he => ?_
      obtain ⟨name, hname, rfl⟩ := Option.map_eq_some_iff.1 (Option.mem_toList.1 he)
      have hsound := isSound_functionElement (isPiece_of_nameOf? below hname) owner (hstart rfl)
      exact ⟨hsound, (isCalledIn_of_qualify rfl).isUnder hsound.named⟩
    | decorated =>
      simp only [elements]
      refine inOrder_elementsOf fun tree ht => ih tree ht _ _ ?_
      rintro _ ⟨⟩
      exact hplaced.declaration rfl
    | body =>
      simp only [elements]
      exact inOrder_elementsOf fun tree ht => ih tree ht _ _ hnone
    | expression =>
      simp only [elements]
      refine .of_forall fun e he => ?_
      obtain ⟨a, hfind, hfield⟩ := Option.bind_eq_some_iff.1 (Option.mem_toList.1 he)
      obtain ⟨name, hname, rfl⟩ := Option.map_eq_some_iff.1 hfield
      obtain ⟨hassignment, hbelow⟩ :=
        SyntaxTree.satisfies_of_mem below (SyntaxTree.mem_of_find? hfind)
      have hsound := isSound_fieldElement (isPiece_of_nameOf? hbelow hname) owner
        (hassignment.declaration rfl)
      exact ⟨hsound, (isCalledIn_of_qualify rfl).isUnder hsound.named⟩
    | _ => exact .nil

end Context

/-- **What is read of a source by its syntax is in order.** -/
theorem inOrder_of_read {path content : String} {es : List Element}
    (h : read path content = .ok es) :
    InOrder path (Text.lines content.toList).length (fun e => e.qualifiedName = e.name) [] es := by
  unfold read at h
  dsimp only at h
  split at h
  · next trees htrees =>
    cases h
    obtain ⟨tokens, htokens, hread⟩ := Option.bind_eq_some_iff.1 htrees
    let context : Context := ⟨path, content.toList⟩
    have hinOrder : InOrder context.path _ _ (none : Option String).toList
        (context.elementsOf none none trees) :=
      Context.inOrder_elementsOf fun tree ht =>
        Context.inOrder_elements (satisfies_of_readAll htokens hread tree ht) none none nofun
    exact hinOrder
  · cases h

end Docsmith.Source.Python
