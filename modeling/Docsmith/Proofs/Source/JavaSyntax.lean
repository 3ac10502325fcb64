import Docsmith.Proofs.Element.Ownership
import Docsmith.Proofs.Text.Lines
import Docsmith.Source.Java.Lexer
import Mathlib.Tactic.SplitIfs
import Docsmith.Proofs.Source.Grammar
import Docsmith.Source.Java.Declarations
/-!
# Java — elements read by syntax

Wherever the grammar of Java marks a name it has read a word first
(`rules_marks`), and whatever a marked part starts with is a token of the
source (`isPlaced_of_reads`). The elements of a tree are made with the
qualified name of the type around them in front of their own, the type before
what stands in its body, so what is read of a source is in order
(`inOrder_of_read`): no method or field comes without its type.
-/

/-! ## Where tokens stand

A token of a source is a piece of it, cut where the token's line says: as many
line feeds stand before it (`isPiece_of_mem_tokens`). So its line is a line of
the source, and a word, which starts and goes on with characters of words, is a
simple name on one line.
-/

namespace Docsmith.Source.Java

open Syntax

variable {content text : List Char} {kind : Token.Kind} {n : Nat} {t : Token}

/-! ## Words -/

/-- A piece that is a word starts with a character that may start one, and
goes on as far as it can. -/
theorem piece?_word (h : piece? text = some (.token .word, n)) :
    ∃ c, ∃ rest : List Char, Text.isBlank c = false ∧ startsWord c = true ∧
      text.take n = c :: rest.takeWhile isWordPart := by
  unfold piece? at h
  split at h
  case h_7 c rest _ _ _ _ _ =>
    split_ifs at h with hblank hstart
    · cases h
    · cases h
      refine ⟨c, rest, by simpa using hblank, hstart, ?_⟩
      rw [Nat.add_comm, List.take_succ_cons, ← List.prefix_iff_eq_take.1 (List.takeWhile_prefix _)]
    · cases h
    · split at h <;> cases h
  -- the other pieces are comments and literals
  case h_1 | h_2 => cases h
  case h_3 | h_4 | h_5 => simp at h
  case h_6 =>
    split at h
    · split_ifs at h
      cases h
    · cases h

/-- A word holds no character that neither starts nor continues words. -/
theorem not_mem_of_piece?_word {c : Char} (hstarts : startsWord c = false)
    (hpart : isWordPart c = false) (h : piece? text = some (.token .word, n)) :
    c ∉ text.take n := by
  obtain ⟨first, rest, -, hfirst, htake⟩ := piece?_word h
  rw [htake]
  exact Text.not_mem_cons_takeWhile hfirst hstarts hpart

theorem dot_not_mem_of_piece?_word (h : piece? text = some (.token .word, n)) :
    '.' ∉ text.take n :=
  not_mem_of_piece?_word (by decide +kernel) (by decide +kernel) h

theorem feed_not_mem_of_piece?_word (h : piece? text = some (.token .word, n)) :
    '\n' ∉ text.take n :=
  not_mem_of_piece?_word (by decide +kernel) (by decide +kernel) h

/-! ## Places -/

/-- A token is a piece of a text, cut in the token's line. -/
def IsPiece (content : List Char) (t : Token) : Prop :=
  ∃ before text n, content = before ++ text ∧ t.line = lineCount before + 1 ∧
    piece? text = some (.token t.kind, n) ∧ t.text = text.take n

/-- By induction on the rounds: what is found from a place on. -/
theorem isPiece_of_mem_tokensFrom {fuel : Nat} :
    ∀ before place line comment text found tokens, content = before ++ text →
      line = lineCount before + 1 → (∀ t ∈ found, IsPiece content t) →
      tokensFrom fuel place line comment text found = some tokens →
      ∀ t ∈ tokens, IsPiece content t := by
  induction fuel with
  | zero =>
    intro before place line comment text found tokens hcontent hline hfound h t ht
    cases text with
    | nil =>
      cases h
      exact hfound t (List.mem_reverse.1 ht)
    | cons c text => cases h
  | succ fuel ih =>
    intro before place line comment text found tokens hcontent hline hfound h
    cases text with
    | nil =>
      cases h
      exact fun t ht => hfound t (List.mem_reverse.1 ht)
    | cons c text =>
      simp only [tokensFrom] at h
      split at h
      · cases h
      · next piece n hpiece =>
        have hcontent' : content =
            (before ++ (c :: text).take n) ++ (c :: text).drop n := by
          rw [List.append_assoc, List.take_append_drop, hcontent]
        have hline' : line + lineCount ((c :: text).take n) =
            lineCount (before ++ (c :: text).take n) + 1 := by
          rw [hline, lineCount, lineCount, lineCount, List.countP_append]
          omega
        cases piece with
        | blank => exact ih _ _ _ _ _ _ _ hcontent' hline' hfound h
        | comment => exact ih _ _ _ _ _ _ _ hcontent' hline' hfound h
        | token kind =>
          refine ih _ _ _ _ _ _ _ hcontent' hline' (fun t ht => ?_) h
          rcases List.mem_cons.1 ht with rfl | ht
          · exact ⟨before, c :: text, n, hcontent, hline, hpiece, rfl⟩
          · exact hfound t ht

/-- **The tokens of a source are pieces of it.** -/
theorem isPiece_of_mem_tokens {tokens : List Token} (h : tokens? content = some tokens) :
    ∀ t ∈ tokens, IsPiece content t :=
  isPiece_of_mem_tokensFrom [] 0 1 [] content [] tokens rfl rfl (List.forall_mem_nil _) h

namespace IsPiece

/-- A token stands in a line of the source. -/
theorem line_le (h : IsPiece content t) : t.line ≤ (Text.lines content).length := by
  obtain ⟨before, text, n, rfl, hline, hpiece, -⟩ := h
  cases text with
  | nil => cases hpiece
  | cons c text =>
    rw [hline]
    exact Text.lineCount_lt_length_lines before text c

theorem line_pos (h : IsPiece content t) : 1 ≤ t.line := by
  obtain ⟨before, -, -, -, hline, -⟩ := h
  omega

/-- **A word is a simple name.** -/
theorem isSimpleName (h : IsPiece content t) (hword : t.kind = .word) :
    IsSimpleName (String.ofList t.text) := by
  obtain ⟨-, text, n, -, -, hpiece, htext⟩ := h
  rw [hword] at hpiece
  obtain ⟨c, rest, hblank, -, htake⟩ := piece?_word hpiece
  have hdot := dot_not_mem_of_piece?_word hpiece
  rw [htake, List.mem_cons, not_or] at hdot
  rw [htext, htake]
  exact .ofList_cons hblank (Ne.symm hdot.1) hdot.2

/-- And stands on one line. -/
theorem feed_not_mem (h : IsPiece content t) (hword : t.kind = .word) : '\n' ∉ t.text := by
  obtain ⟨-, text, n, -, -, hpiece, htext⟩ := h
  rw [htext]
  exact feed_not_mem_of_piece?_word (hword ▸ hpiece)

end IsPiece

end Docsmith.Source.Java

namespace Docsmith.Source.Java

open Syntax Syntax.Grammar

variable {content : List Char}

/-! ## Names -/

/-- A part that is marked as a name starts with one. -/
def MarksName (label : Label) (part : Part) : Prop :=
  label = .name → part = ident ∨ part = qualified

/-- A node starts with a token of the source, and with a word where it is
marked as a name. -/
structure IsPlaced (content : List Char) (label : Label) (children : List (SyntaxTree Label)) :
    Prop where
  first : ∀ t, SyntaxTree.firstOf? children = some t → IsPiece content t
  name : label = .name → ∃ t, SyntaxTree.firstOf? children = some t ∧ t.kind = .word

/-- The grammar marks nothing else as a name. -/
theorem rules_marks (name : Rule) : (rules name).Marks MarksName := by
  cases name <;>
    simp [rules, Marks, MarksName, seq, oneOf, opt, commaList, symbol, symbols, word, words,
      ofKind, ident, Java.name, qualified, inParens, inBraces, annotations, primitive, modified,
      typeList, binaryOperator, superTypes]

/-- **What the grammar marks as a name starts with a word.** -/
theorem isPlaced_of_reads {label : Label} {part : Part} {tokens rest : List Token}
    {children : List (SyntaxTree Label)} (hpart : MarksName label part)
    (htokens : ∀ t ∈ tokens, IsPiece content t) (h : Reads rules part tokens children rest) :
    IsPlaced content label children := by
  have hident : ∀ {found middle}, Reads rules ident tokens found middle →
      ∃ t, found = [.leaf t] ∧ t.kind = .word := by
    intro found middle hread
    unfold ident at hread
    cases hread with
    | @token _ t _ hfits =>
      simp only [Bool.and_eq_true, beq_iff_eq] at hfits
      exact ⟨t, rfl, hfits.1⟩
  refine ⟨fun t ht => htokens t (h.firstOf?_mem t ht), fun hlabel => ?_⟩
  rcases hpart hlabel with rfl | rfl
  · obtain ⟨t, rfl, hword⟩ := hident h
    exact ⟨t, rfl, hword⟩
  · unfold qualified at h
    cases h with
    | both hfirst hmore =>
      obtain ⟨t, rfl, hword⟩ := hident hfirst
      exact ⟨t, rfl, hword⟩

/-- So every node in the trees of a source is placed in it. -/
theorem satisfies_of_readAll {tokens : List Token} {trees : List (SyntaxTree Label)}
    (htokens : tokens? content = some tokens) (h : readAll rules .unit tokens = some trees) :
    ∀ tree ∈ trees, tree.Satisfies (IsPlaced content) :=
  (reads_of_readAll h).satisfies rules_marks (fun _ _ _ _ _ => isPlaced_of_reads) trivial
    (isPiece_of_mem_tokens htokens)

/-- A declaration is called by a word of the source. -/
theorem isPiece_of_nameOf? {parts : List (SyntaxTree Label)} {name : Token}
    (hparts : ∀ tree ∈ parts, tree.Satisfies (IsPlaced content)) (h : nameOf? parts = some name) :
    IsPiece content name ∧ name.kind = .word := by
  obtain ⟨children, hfind, hfirst⟩ := Option.bind_eq_some_iff.1 h
  have hplaced := (SyntaxTree.satisfies_of_mem hparts (SyntaxTree.mem_of_find? hfind)).1
  obtain ⟨t, ht, hword⟩ := hplaced.name rfl
  cases ht.symm.trans hfirst
  exact ⟨hplaced.first _ hfirst, hword⟩

/-- A declaration starts in a line of the source; `name` is any token of it. -/
theorem lineOf_mem {parts : List (SyntaxTree Label)} {name : Token}
    (hparts : ∀ t, SyntaxTree.firstOf? parts = some t → IsPiece content t)
    (hname : IsPiece content name) :
    1 ≤ lineOf parts ∧ lineOf parts ≤ (Text.lines content).length := by
  unfold lineOf
  cases hfirst : SyntaxTree.firstOf? parts with
  | none => exact ⟨Nat.le_refl 1, Nat.le_trans hname.line_pos hname.line_le⟩
  | some t => exact ⟨(hparts t hfirst).line_pos, (hparts t hfirst).line_le⟩

/-! ## Elements -/

namespace Context

variable {c : Context} {owner : Option String} {name : Token}
variable {parts trees : List (SyntaxTree Label)} {tree : SyntaxTree Label}

/-- The text of a declaration without its annotations is one line. -/
theorem feed_not_mem_without (range : Range) : '\n' ∉ c.without parts range :=
  Text.feed_not_mem_collapse _

/-- A qualified name ends with the name. -/
theorem exists_qualify (name : String) : ∃ before, c.qualify owner name = before ++ name := by
  unfold qualify
  split
  · exact ⟨_, rfl⟩
  · exact ⟨_, rfl⟩
  · exact ⟨"", (String.empty_append).symm⟩

variable (hfirst : ∀ t, SyntaxTree.firstOf? parts = some t → IsPiece c.content t)
variable (hname : IsPiece c.content name ∧ name.kind = .word)

include hfirst hname

theorem isSound_typeElement :
    (c.typeElement (c.qualify owner (String.ofList name.text)) name parts).IsSound c.path
      (Text.lines c.content).length := by
  have hline := lineOf_mem hfirst hname.1
  refine ⟨rfl, hname.1.isSimpleName hname.2, exists_qualify _, hline.1, hline.2, ?_⟩
  simp only [typeElement, String.toList_ofList]
  exact feed_not_mem_without _

theorem isSound_methodElement (owner : String) :
    (c.methodElement owner name parts).IsSound c.path (Text.lines c.content).length := by
  have hline := lineOf_mem hfirst hname.1
  refine ⟨rfl, hname.1.isSimpleName hname.2, ⟨_, rfl⟩, hline.1, hline.2, ?_⟩
  simp only [methodElement, String.toList_ofList]
  exact fun h => feed_not_mem_without _
    (Text.mem_of_mem_dropEndWhile (Text.mem_of_mem_dropEndWhile h))

omit hfirst hname

/-- The fields of one declaration. -/
theorem isSound_fieldElements (owner : String)
    (hparts : ∀ tree ∈ parts, tree.Satisfies (IsPlaced c.content)) :
    ∀ e ∈ c.fieldElements owner parts, e.IsSound c.path (Text.lines c.content).length ∧
      e.qualifiedName = owner ++ "." ++ e.name := by
  intro e he
  obtain ⟨d, hd, hsome⟩ := List.mem_filterMap.1 he
  obtain ⟨name, hname, rfl⟩ := Option.map_eq_some_iff.1 hsome
  obtain ⟨hplaced, below⟩ := SyntaxTree.satisfies_of_mem hparts (SyntaxTree.mem_of_mem_findAll hd)
  obtain ⟨hpiece, hword⟩ := isPiece_of_nameOf? below hname
  have hline := lineOf_mem hplaced.first hpiece
  refine ⟨⟨rfl, hpiece.isSimpleName hword, ⟨_, rfl⟩, hline.1, hline.2, ?_⟩, rfl⟩
  simp only [String.toList_ofList]
  intro h
  rcases Text.mem_of_mem_join h with h | ⟨piece, hmem, h⟩
  · exact absurd h (by decide)
  · simp only [List.mem_filter, List.mem_cons, List.not_mem_nil, or_false] at hmem
    obtain ⟨rfl | rfl | rfl, -⟩ := hmem
    · exact Text.not_mem_getD_map (fun _ => feed_not_mem_without _) _ h
    · exact Text.not_mem_getD_map (fun _ => Text.feed_not_mem_collapse _) _ h
    · exact hpiece.feed_not_mem hword h

theorem inOrder_elementsOf {count : Nat} {free : Element → Prop}
    (h : ∀ tree ∈ trees, InOrder c.path count free owner.toList (c.elements owner tree)) :
    InOrder c.path count free owner.toList (c.elementsOf owner trees) := by
  induction trees with
  | nil => exact .nil
  | cons tree trees ih =>
    rw [elementsOf]
    exact (h tree List.mem_cons_self).append (ih fun t ht => h t (List.mem_cons_of_mem _ ht))

/-- **The elements of a tree are in order** behind the type around it. -/
theorem inOrder_elements (h : tree.Satisfies (IsPlaced c.content)) :
    ∀ owner, InOrder c.path (Text.lines c.content).length (·.kind = .type) owner.toList
      (c.elements owner tree) := by
  induction h with
  | leaf => exact fun owner => .nil
  | @node label parts hplaced below ih =>
    intro owner
    cases label with
    | type =>
      simp only [elements]
      split
      · next name hname =>
        refine .cons_type rfl (isSound_typeElement hplaced.first (isPiece_of_nameOf? below hname))
          (.inl rfl) ?_
        exact (inOrder_elementsOf fun tree ht => ih tree ht _).mono (by simp [typeElement])
      · exact .nil
    | body =>
      simp only [elements]
      exact inOrder_elementsOf fun tree ht => ih tree ht owner
    | method =>
      simp only [elements]
      split
      · next owner name hname =>
        refine .of_forall fun e he => ?_
        have hpiece := isPiece_of_nameOf? below hname
        rw [List.mem_singleton.1 he]
        exact ⟨isSound_methodElement hplaced.first hpiece owner, .inr ⟨owner, by simp, _,
          hpiece.1.isSimpleName hpiece.2, rfl⟩⟩
      · exact .nil
    | field =>
      simp only [elements]
      cases owner with
      | none => exact .nil
      | some owner =>
        refine .of_forall fun e he => ?_
        obtain ⟨hsound, hq⟩ := isSound_fieldElements owner below e he
        exact ⟨hsound, .inr ⟨owner, by simp, _, hsound.named, hq⟩⟩
    | _ => exact .nil

end Context

/-- **What is read of a source by its syntax is in order.** -/
theorem inOrder_of_read {path content : String} {es : List Element}
    (h : read path content = .ok es) :
    InOrder path (Text.lines content.toList).length (·.kind = .type) [] es := by
  unfold read at h
  dsimp only at h
  split at h
  · next trees htrees =>
    cases h
    obtain ⟨tokens, htokens, hread⟩ := Option.bind_eq_some_iff.1 htrees
    let context : Context := ⟨path, content.toList, packageOf content.toList trees⟩
    have hinOrder : InOrder context.path _ _ (none : Option String).toList
        (context.elementsOf none trees) :=
      Context.inOrder_elementsOf fun tree ht =>
        Context.inOrder_elements (satisfies_of_readAll htokens hread tree ht) none
    exact hinOrder
  · cases h

end Docsmith.Source.Java
