import Docsmith.Proofs.Source.PythonNesting
/-!
# Python — parameters of a header, by syntax

A file that starts with the header of a function is read as that function first, and its
parameters are read between the parentheses of the header (`read_header`). A parameter ends
before the first comma on the outside, so a text that is read as the only parameter of some
header is read as one wherever it stands (`isWhole_of_read`), and texts with commas between
them are read text by text (`parameters_of_read`).
-/


namespace Docsmith.Source.Python

open Syntax Syntax.Grammar SyntaxTree

/-! ## A definition is read as one -/

variable {tokens rest : List Token} {trees : List (SyntaxTree Label)}

/-- The word that a definition starts with. -/
def defToken : Token :=
  tokenAt .word "def".toList 0

/-- The rules that hold no definition. -/
def isPlain : Rule → Bool
  | .unit | .statement | .suite | .type | .function | .decorated | .ifStatement | .whileStatement
  | .forStatement | .tryStatement | .withStatement | .matchStatement | .caseClause => false
  | _ => true

theorem avoids_rules (name : Rule) (h : isPlain name = true) :
    avoids defToken isPlain (rules name) = true := by
  revert h
  cases name <;> decide +kernel

/-- A simple line holds no definition, but it ends with a token. -/
theorem not_simpleLine (h : Reads rules (.rule .simpleLine) (defToken :: tokens) trees rest) :
    False := by
  have hnot := h.not_mem_leaves avoids_rules rfl
  have hleaves := h.leaves
  obtain ⟨simple, _, _, rfl, -, h⟩ := h.of_rule.of_both
  obtain ⟨more, _, _, rfl, -, h⟩ := h.of_both
  obtain ⟨stop, _, _, rfl, -, h⟩ := h.of_both
  obtain ⟨t, -, rfl, -⟩ := h.of_token
  cases hread : leavesOf (simple ++ (more ++ (stop ++ [.leaf t]))) with
  | nil => simp at hread
  | cons u leaves =>
    rw [hread] at hnot hleaves
    exact hnot ((List.cons.inj hleaves).1 ▸ List.mem_cons_self)

/-- Not with the word of a definition. -/
theorem opens_other {text : String} (h : text ≠ "def") :
    Opens rules (· ≠ defToken) (word text : Part) :=
  .token fun t ht => by
    rintro rfl
    simp only [Bool.and_eq_true, beq_iff_eq] at ht
    exact h (String.toList_inj.1 ht.2.symm)

theorem opens_type : Opens rules (· ≠ defToken) (.rule .type) :=
  .rule (.node (.both (opens_other (by decide))))

theorem opens_decorated : Opens rules (· ≠ defToken) (.rule .decorated) := by
  refine .rule (.node (.both (.rule (.node (.both (.token fun t ht => ?_))))))
  rintro rfl
  cases ht

theorem opens_compound {label : Label} : Opens rules (· ≠ defToken) (.node label (oneOf [
    .rule .ifStatement, .rule .whileStatement, .rule .forStatement, .rule .tryStatement,
    .rule .withStatement, .rule .matchStatement])) := by
  have hasync {after : Part} {text : String} (h : text ≠ "def") :
      Opens rules (· ≠ defToken) (.both (opt (word "async")) (.both (word text) after)) :=
    .opt_both (opens_other (by decide)) (.both (opens_other h))
  refine .node (.either (.rule (.both (.both (opens_other (by decide))))) <|
    .either (.rule (.both (.both (opens_other (by decide))))) <|
    .either (.rule (.both (hasync (by decide)))) <|
    .either (.rule (.both (.both (opens_other (by decide))))) <|
    .either (.rule (.either (hasync (by decide)) (hasync (by decide))))
      (.rule (.both (opens_other (by decide)))))

/-- **A statement that starts so is a function.** -/
theorem function_of_statement
    (h : Reads rules (.rule .statement) (defToken :: tokens) trees rest) :
    Reads rules (.rule .function) (defToken :: tokens) trees rest := by
  rcases h.of_rule.of_either with h | h
  · exact absurd rfl (opens_type.head h)
  rcases h.of_either with h | h
  · exact h
  rcases h.of_either with h | h
  · exact absurd rfl (opens_decorated.head h)
  rcases h.of_either with h | h
  · exact absurd rfl (opens_compound.head h)
  · exact (not_simpleLine h).elim

/-- The name and the parenthesis behind it. -/
def nameToken : Token :=
  tokenAt .word ['f'] 4

def openToken : Token :=
  tokenAt .symbol ['('] 5

/-- **Its parameters stand behind its name.** -/
theorem parameters_of_function
    (h : Reads rules (.rule .function) (defToken :: nameToken :: openToken :: tokens) trees rest) :
    ∃ parameters after rest', trees = [.node .function (.leaf defToken ::
        .node .name [.leaf nameToken] :: .node .parameters parameters :: after)] ∧
      Reads rules (rules .parameters) (openToken :: tokens) parameters rest' := by
  obtain ⟨children, rfl, hdefinition⟩ := h.of_rule.of_node
  obtain ⟨async, _, _, rfl, hasync, hword⟩ := hdefinition.of_both
  -- `async` and type parameters would be other tokens than those that are there
  obtain ⟨rfl, rfl⟩ : async = [] ∧ _ := by
    refine hasync.of_opt.resolve_left fun h => ?_
    obtain ⟨t, heq, -, hfits⟩ := h.of_token
    cases heq
    cases hfits
  obtain ⟨_, _, _, rfl, hdef, hnamed⟩ := hword.of_both
  obtain ⟨_, heq, rfl, -⟩ := hdef.of_token
  cases heq
  obtain ⟨_, _, _, rfl, hname, htyped⟩ := hnamed.of_both
  obtain ⟨_, rfl, hident⟩ := hname.of_node
  obtain ⟨_, heq, rfl, -⟩ := hident.of_token
  cases heq
  obtain ⟨types, _, _, rfl, htypes, hlist⟩ := htyped.of_both
  obtain ⟨rfl, rfl⟩ : types = [] ∧ _ := by
    refine htypes.of_opt.resolve_left fun h => ?_
    obtain ⟨_, _, _, -, hopen, -⟩ := h.of_rule.of_both
    obtain ⟨t, heq, -, hfits⟩ := hopen.of_token
    cases heq
    cases hfits
  obtain ⟨_, rest', after, rfl, hmarked, -⟩ := hlist.of_both
  obtain ⟨parameters, rfl, hparameters⟩ := hmarked.of_node
  exact ⟨parameters, after, rest', rfl, hparameters.of_rule⟩

/-- The parameters of the first function, as its header reads them. -/
theorem parameters_of_unit
    (h : Reads rules (.rule .unit) (defToken :: nameToken :: openToken :: tokens) trees []) :
    ∃ parameters after others rest, trees = .node .function (.leaf defToken ::
        .node .name [.leaf nameToken] :: .node .parameters parameters :: after) :: others ∧
      Reads rules (rules .parameters) (openToken :: tokens) parameters rest := by
  obtain ⟨-, hnil⟩ | ⟨first, _, others, rfl, hfirst, -⟩ := h.of_rule.of_many
  · cases hnil
  · obtain ⟨parameters, after, rest, rfl, hparameters⟩ :=
      parameters_of_function (function_of_statement hfirst)
    exact ⟨parameters, after, others, rest, rfl, hparameters⟩

/-! ## Lists of parameters -/

variable {before after : List (SyntaxTree Label)} {middle segment more : List Token} {close : Token}

/-- One of a function's parameters. -/
def marked : Part :=
  .node .parameter (.rule .parameter)

/-- What stands behind the last one. -/
def listEnd : Part :=
  .both (opt (symbol ",")) (symbol ")")

/-- No parameter goes on behind a comma or a closing parenthesis. -/
theorem nest_stop {t : Token} (hkind : t.kind = .symbol) (htext : t.text = [','] ∨ t.text = [')']) :
    nest [] t = none := by
  rcases htext with htext | htext
  · rw [nest_comma hkind htext, if_pos rfl]
  · rw [nest_close hkind (by simp [htext])]
    rfl

theorem of_listEnd (h : Reads rules listEnd tokens trees rest) :
    ∃ t more, tokens = t :: more ∧ t.kind = .symbol ∧ (t.text = [','] ∨ t.text = [')']) ∧
      findAll .parameter trees = [] := by
  obtain ⟨_, _, _, rfl, hcomma, hclose⟩ := h.of_both
  obtain ⟨u, rfl, rfl, hkind, htext⟩ := hclose.of_symbol
  rcases hcomma.of_opt with hcomma | ⟨rfl, rfl⟩
  · obtain ⟨t, rfl, rfl, hkind', htext'⟩ := hcomma.of_symbol
    exact ⟨t, _, rfl, hkind', .inl htext', rfl⟩
  · exact ⟨u, _, rfl, hkind, .inr htext, rfl⟩

/-- A parameter ends before one of these. -/
theorem stop_behind (h : Reads rules (.many (.both (symbol ",") marked)) tokens before middle)
    (hend : Reads rules listEnd middle after rest) :
    ∃ stop more, tokens = stop :: more ∧ nest [] stop = none := by
  rcases h.of_many with ⟨-, rfl⟩ | ⟨_, _, _, -, h, -⟩
  · obtain ⟨t, more, rfl, hkind, htext, -⟩ := of_listEnd hend
    exact ⟨t, more, rfl, nest_stop hkind htext⟩
  · obtain ⟨_, _, _, -, hcomma, -⟩ := h.of_both
    obtain ⟨t, rfl, -, hkind, htext⟩ := hcomma.of_symbol
    exact ⟨t, _, rfl, nest_stop hkind (.inl htext)⟩

/-- Only a closing parenthesis stands behind the last comma. -/
theorem nest_behind_comma {comma t : Token}
    (h : Reads rules listEnd (comma :: t :: tokens) trees rest) (htext : comma.text = [',']) :
    nest [] t = none := by
  obtain ⟨_, _, _, -, hcomma, hclose⟩ := h.of_both
  obtain ⟨u, heq, -, hkind, hparen⟩ := hclose.of_symbol
  rcases hcomma.of_opt with hcomma | ⟨-, rfl⟩
  · obtain ⟨_, hfront, -⟩ := hcomma.of_symbol
    cases hfront
    cases heq
    exact nest_stop hkind (.inr hparen)
  · cases heq
    rw [htext] at hparen
    exact absurd hparen (by decide)

/-- **The parameters between the parentheses**: there are none, or they are a list. -/
theorem list_of_parameters (h : Reads rules (rules .parameters) (openToken :: tokens) trees rest) :
    Reads rules listEnd tokens trees.tail rest ∧ findAll .parameter trees = [] ∨
      ∃ list middle after, Reads rules (commaList marked) tokens list middle ∧
        Reads rules listEnd middle after rest ∧
        findAll .parameter trees = findAll .parameter list := by
  obtain ⟨_, _, _, rfl, hopen, h⟩ := h.of_both
  obtain ⟨_, heq, rfl, -⟩ := hopen.of_symbol
  cases heq
  obtain ⟨_, _, close, rfl, hlist, hclose⟩ := h.of_both
  rcases hlist.of_opt with hlist | ⟨rfl, rfl⟩
  · obtain ⟨list, middle, comma, rfl, hlist, hcomma⟩ := hlist.of_both
    have hend : Reads rules listEnd middle (comma ++ close) rest := .both hcomma hclose
    obtain ⟨_, _, _, _, _, hnone⟩ := of_listEnd hend
    refine .inr ⟨list, middle, _, hlist, hend, ?_⟩
    rw [List.append_assoc, findAll, List.singleton_append, List.filterMap_cons_none rfl,
      List.filterMap_append, ← findAll, ← findAll, hnone, List.append_nil]
  · have hend : Reads rules listEnd _ close rest := .both (.right .empty) hclose
    obtain ⟨_, _, _, _, _, hnone⟩ := of_listEnd hend
    exact .inl ⟨hend, hnone⟩

/-- The first of them, and what stands behind it. -/
theorem of_list (h : Reads rules (commaList marked) tokens trees middle)
    (hend : Reads rules listEnd middle after rest) :
    ∃ children others stop more, trees = .node .parameter children :: others ∧
      tokens = leavesOf children ++ stop :: more ∧ leavesOf children ≠ [] ∧
      (leavesOf children).foldlM nest [] = some [] ∧ nest [] stop = none ∧
      Reads rules (.many (.both (symbol ",") marked)) (stop :: more) others middle := by
  obtain ⟨_, behind, others, rfl, hfirst, hothers⟩ := h.of_both
  obtain ⟨children, rfl, hparameter⟩ := hfirst.of_node
  obtain ⟨stop, more, rfl, hstop⟩ := stop_behind hothers hend
  exact ⟨children, others, stop, more, rfl, hparameter.leaves, leavesOf_parameter_ne_nil hparameter,
    run_parameter hparameter, hstop, hothers⟩

/-- **A text that is read alone is read as one parameter**, so it closes all that it opens. -/
theorem run_of_alone (hnested : AreNested segment) (hne : segment ≠ [])
    (hkind : close.kind = .symbol) (htext : close.text = [')'])
    (h : Reads rules (rules .parameters) (openToken :: (segment ++ close :: more)) trees rest) :
    segment.foldlM nest [] = some [] := by
  rcases list_of_parameters h with ⟨hend, -⟩ | ⟨_, _, _, hlist, hend, -⟩
  · -- the list would end in front of the text's first token
    obtain ⟨t, segment, rfl⟩ := List.exists_cons_of_ne_nil hne
    obtain ⟨_, _, heq, hkind', htext', -⟩ := of_listEnd hend
    cases heq
    have hfront : ([] : List Token).foldlM nest [] = some [] := rfl
    exact absurd (nest_stop hkind' htext') (hnested.nest_ne_none hfront)
  · obtain ⟨children, _, stop, behind, -, heq, -, hrun, hstop, -⟩ := of_list hlist hend
    rcases List.append_eq_append_iff.1 heq with ⟨extra, hextra, hclose⟩ | ⟨extra, hextra, hclose⟩
    · cases extra with
      | nil => rwa [hextra, List.append_nil] at hrun
      | cons t extra =>
        -- the parameter would go on behind the closing parenthesis
        cases hclose
        rw [hextra] at hrun
        exact absurd hrun (hnested.not_inside hkind htext)
    · cases extra with
      | nil => rwa [hextra, List.append_nil]
      | cons t extra =>
        -- the parameter would end inside the text, which has no comma on the outside
        cases hclose
        rw [hextra] at hnested
        exact absurd hstop (hnested.nest_ne_none hrun)

/-! ## Texts in their places -/

variable {p text : List Char} {line offset : Nat}

/-- A text that starts and ends with a token. -/
structure IsVisible (text : List Char) : Prop where
  first : ∃ c ∈ text.head?, isSkipped c = false
  last : ∃ c ∈ text.getLast?, isSkipped c = false

/-- **What is read of a text is shown as it stands.** -/
theorem collapsed_of_lexed {c : Context} {before text after : List Char}
    (hcontent : c.content = before ++ (text ++ after)) (htext : IsVisible text)
    (hlexed : Lexed line (byteCount before) text (leavesOf trees)) :
    c.collapsed trees = Text.collapse text := by
  obtain ⟨t, ht, hstart⟩ := hlexed.head?_eq htext.first
  obtain ⟨u, hu, hstop⟩ := hlexed.getLast?_eq htext.last
  have hrange : rangeOf trees = ⟨byteCount before, byteCount before + byteCount text⟩ := by
    rw [rangeOf, firstOf?_eq_head?, lastOf?_eq_getLast?, Option.mem_def.1 ht, Option.mem_def.1 hu]
    simp [hstart, hstop]
  rw [Context.collapsed, hrange, hcontent]
  exact congrArg Text.collapse (slice_append before text after)

/-! ## Lists of texts -/

variable {q : List Char} {ps : List (List Char)}

/-- Texts as they stand in a header. -/
def joined (ps : List (List Char)) : List Char :=
  Text.join [',', ' '] ps

theorem joined_cons_cons (p q : List Char) (ps : List (List Char)) :
    joined (p :: q :: ps) = p ++ ',' :: ' ' :: joined (q :: ps) := by
  simp [joined, Text.join, List.intercalate_cons_cons]

/-- A text that the tokens of a parameter, and no others, are made of. -/
structure IsWhole (text : List Char) : Prop where
  plain : IsPlainText text
  visible : IsVisible text
  closed : ∀ {line offset segment}, Lexed line offset text segment →
    segment.foldlM nest [] = some []

/-- What stands in front of the first comma. -/
theorem lexed_cons_cons (hp : IsPlainText p)
    (h : Lexed line offset (joined (p :: q :: ps)) tokens) :
    ∃ segment comma behind, tokens = segment ++ comma :: behind ∧ Lexed line offset p segment ∧
      comma.kind = .symbol ∧ comma.text = [','] ∧
      Lexed line (offset + byteCount p + 2) (joined (q :: ps)) behind := by
  rw [joined_cons_cons] at h
  obtain ⟨segment, behind, rfl, hsegment, hbehind⟩ :=
    h.split (by decide) hp.isInline.isQuoteFree
  exact ⟨segment, _, behind, rfl, hsegment, rfl, rfl, hbehind.of_space⟩

/-- No list of parameters ends in front of one. -/
theorem exists_first (hp : IsWhole p) (h : Lexed line offset (joined (p :: ps)) tokens) :
    ∃ t more, tokens = t :: more ∧ nest [] t ≠ none := by
  obtain ⟨segment, behind, rfl, hsegment⟩ : ∃ segment behind, tokens = segment ++ behind ∧
      Lexed line offset p segment := by
    cases ps with
    | nil => exact ⟨tokens, [], (List.append_nil _).symm, by simpa [joined, Text.join] using h⟩
    | cons q ps =>
      obtain ⟨segment, comma, behind, rfl, hsegment, -⟩ := lexed_cons_cons hp.plain h
      exact ⟨segment, _, rfl, hsegment⟩
  obtain ⟨t, ht, -⟩ := hsegment.head?_eq hp.visible.first
  obtain ⟨more, rfl⟩ := List.head?_eq_some_iff.1 (Option.mem_def.1 ht)
  refine ⟨t, more ++ behind, rfl, fun hnone => ?_⟩
  have hrun := hp.closed hsegment
  rw [List.foldlM_cons, hnone] at hrun
  cases hrun

/-- **A list of parameters is read text by text.** By induction on the texts: a
parameter ends where its text does. -/
theorem collapsed_of_list {c : Context} (hkind : close.kind = .symbol)
    (htext : close.text = [')']) : ∀ {ps p before after tokens trees}, (∀ q ∈ p :: ps, IsWhole q) →
      c.content = before ++ (joined (p :: ps) ++ after) →
      Lexed line (byteCount before) (joined (p :: ps)) tokens →
      Reads rules (commaList marked) (tokens ++ close :: more) trees middle →
      (∃ others, Reads rules listEnd middle others rest) →
      (findAll .parameter trees).map c.collapsed = (p :: ps).map Text.collapse := by
  intro ps
  induction ps with
  | nil =>
    intro p before after tokens trees hps hcontent hlexed h hends
    obtain ⟨others, hend⟩ := hends
    obtain ⟨children, others, stop, behind, rfl, heq, -, hrun, hstop, hothers⟩ := of_list h hend
    have hp := hps p List.mem_cons_self
    simp only [joined, Text.join, List.intercalate_singleton] at hcontent hlexed
    obtain ⟨rfl, rfl, rfl⟩ := segment_unique (hp.closed hlexed) hrun
      (nest_stop hkind (.inr htext)) hstop heq
    rcases hothers.of_many with ⟨rfl, -⟩ | ⟨_, _, _, -, hmore, -⟩
    · exact congrArg (· :: []) (collapsed_of_lexed hcontent hp.visible hlexed)
    · -- what is behind a comma cannot stand here, for there is a parenthesis
      obtain ⟨_, _, _, -, hcomma, -⟩ := hmore.of_both
      obtain ⟨_, heq, -, -, htext'⟩ := hcomma.of_symbol
      cases heq
      rw [htext] at htext'
      exact absurd htext' (by decide)
  | cons q ps ih =>
    intro p before after tokens trees hps hcontent hlexed h hends
    obtain ⟨others, hend⟩ := hends
    obtain ⟨children, others, stop, behind, rfl, heq, -, hrun, hstop, hothers⟩ := of_list h hend
    have hp := hps p List.mem_cons_self
    have hqs : ∀ r ∈ q :: ps, IsWhole r := fun r hr => hps r (List.mem_cons_of_mem _ hr)
    obtain ⟨segment, comma, tokens, rfl, hsegment, hkind', htext', hnext⟩ :=
      lexed_cons_cons hp.plain hlexed
    rw [List.append_assoc, List.cons_append] at heq
    obtain ⟨rfl, rfl, rfl⟩ := segment_unique (hp.closed hsegment) hrun
      (nest_stop hkind' (.inl htext')) hstop heq
    have hcontent' : c.content = before ++ (p ++ (',' :: ' ' :: joined (q :: ps) ++ after)) := by
      rw [hcontent, joined_cons_cons, List.append_assoc]
    have hfirst := collapsed_of_lexed hcontent' hp.visible hsegment
    rcases hothers.of_many with ⟨rfl, rfl⟩ | ⟨_, _, others, rfl, hmore, hrest⟩
    · -- the list cannot end here, for another text follows
      obtain ⟨t, more', rfl, ht⟩ := exists_first (hqs q List.mem_cons_self) hnext
      exact absurd (nest_behind_comma hend htext') ht
    · obtain ⟨_, _, list, rfl, hcomma, hlist⟩ := hmore.of_both
      obtain ⟨_, heq, rfl, -⟩ := hcomma.of_symbol
      cases heq
      have hplace : byteCount before + byteCount p + 2 = byteCount (before ++ p ++ [',', ' ']) := by
        rw [byteCount_append, byteCount_append]
        rfl
      rw [hplace] at hnext
      have hbehind : c.content = before ++ p ++ [',', ' '] ++ (joined (q :: ps) ++ after) := by
        rw [hcontent']
        simp
      have hread : Reads rules (commaList marked) (tokens ++ close :: more) (list ++ others)
          middle := .both hlist hrest
      have htrees : findAll .parameter
          (.node .parameter children :: ([.leaf comma] ++ list ++ others)) =
            children :: findAll .parameter (list ++ others) := rfl
      rw [htrees, List.map_cons, List.map_cons, hfirst, ih hqs hbehind hnext hread ⟨_, hend⟩]

/-! ## Whole headers -/

variable {path content : String} {es : List Element} {behind : List Char}

/-- What a file that starts with the header of a function is read as. -/
structure IsFunction (path : String) (parameters : List String) (e : Element) : Prop where
  kind : e.kind = .method
  name : e.name = "f"
  file : e.file = path
  line : e.line = 1
  parameters : e.parameters = parameters

/-- **The header is read as it stands**: its parameters are read between its
parentheses, and shown in single spaces. -/
theorem read_header (hcontent : content.toList = header text ++ behind) (hinline : IsInline text)
    (h : read path content = .ok es) :
    ∃ lexed more parameters rest e others, Lexed 1 6 text lexed ∧
      Reads rules (rules .parameters)
        (openToken :: (lexed ++ tokenAt .symbol [')'] (6 + byteCount text) :: more))
        parameters rest ∧
      es = e :: others ∧ IsFunction path
        (((findAll .parameter parameters).map fun p =>
          String.ofList ((⟨path, content.toList⟩ : Context).collapsed p)).filter fun p =>
            p != "self" && p != "cls") e := by
  unfold read at h
  dsimp only at h
  split at h
  · next trees htrees =>
    cases h
    obtain ⟨tokens, htokens, hread⟩ := Option.bind_eq_some_iff.1 htrees
    rw [hcontent] at htokens
    obtain ⟨lexed, more, hlexed, rfl⟩ := tokens_of_header hinline htokens
    obtain ⟨parameters, after, others, rest, rfl, hparameters⟩ :=
      parameters_of_unit (reads_of_readAll hread)
    exact ⟨lexed, more, parameters, rest, _, _, hlexed, hparameters, rfl, ⟨rfl, rfl, rfl, rfl, rfl⟩⟩
  · cases h

/-- **A text that is a header's only parameter is a parameter in every header.** -/
theorem isWhole_of_read (hplain : IsPlainText p) (hvisible : IsVisible p) (hnested : IsNested p)
    (hcontent : content.toList = header p ++ behind) (h : read path content = .ok es) :
    IsWhole p where
  plain := hplain
  visible := hvisible
  closed := by
    intro line offset segment hsegment
    obtain ⟨lexed, more, _, _, _, _, hlexed, hparameters, -, -⟩ :=
      read_header hcontent hplain.isInline h
    obtain ⟨t, ht, -⟩ := hlexed.head?_eq hvisible.first
    rw [← run_congr (hlexed.look_eq hsegment)]
    exact run_of_alone (areNested_of_lexed hplain hnested hlexed)
      (List.ne_nil_of_mem (List.mem_of_mem_head? ht)) rfl rfl hparameters

theorem isPlainText_joined {ps : List (List Char)} (hps : ∀ p ∈ ps, IsPlainText p) :
    IsPlainText (joined ps) := by
  intro c hc
  rcases Text.mem_of_mem_join hc with hc | ⟨p, hp, hc⟩
  · have hseparator : IsPlainText [',', ' '] := by decide
    exact hseparator c hc
  · exact hps p hp c hc

/-- **The parameters of a header are its texts**, each in single spaces. -/
theorem parameters_of_read {ps : List (List Char)} (hps : ∀ p ∈ ps, IsWhole p)
    (hcontent : content.toList = header (joined ps) ++ behind) (h : read path content = .ok es) :
    ∃ e others, es = e :: others ∧ IsFunction path
      ((ps.map fun p => String.ofList (Text.collapse p)).filter fun p =>
        p != "self" && p != "cls") e := by
  obtain ⟨lexed, more, parameters, rest, e, others, hlexed, hparameters, rfl, he⟩ :=
    read_header hcontent (isPlainText_joined fun p hp => (hps p hp).plain).isInline h
  refine ⟨e, others, rfl, ?_⟩
  suffices hshown : (findAll .parameter parameters).map
      (⟨path, content.toList⟩ : Context).collapsed = ps.map Text.collapse by
    have htexts := congrArg (List.map String.ofList) hshown
    simp only [List.map_map, Function.comp_def] at htexts
    rwa [htexts] at he
  rcases list_of_parameters hparameters with ⟨hend, hnone⟩ | ⟨list, middle, after, hlist, hend, heq⟩
  · cases ps with
    | nil => rw [hnone, List.map_nil, List.map_nil]
    | cons p ps =>
      obtain ⟨t, behind, rfl, hnext⟩ := exists_first (hps p List.mem_cons_self) hlexed
      obtain ⟨_, _, hfront, hkind, htext, -⟩ := of_listEnd hend
      cases hfront
      exact absurd (nest_stop hkind htext) hnext
  · cases ps with
    | nil =>
      cases hlexed
      obtain ⟨children, _, _, _, -, hfront, hne, hrun, -, -⟩ := of_list hlist hend
      obtain ⟨t, leaves, hleaves⟩ := List.exists_cons_of_ne_nil hne
      rw [hleaves] at hfront hrun
      cases hfront
      cases hrun
    | cons p ps =>
      have hplace : content.toList =
          "def f(".toList ++ (joined (p :: ps) ++ ("):".toList ++ behind)) :=
        hcontent.trans (header_append _ behind)
      rw [heq]
      exact collapsed_of_list rfl rfl hps hplace hlexed hlist ⟨after, hend⟩

end Docsmith.Source.Python
