import Docsmith.Proofs.Source.Places
import Docsmith.Proofs.Source.PythonTokens
/-!
# Python — the tokens of a header

The tokens of a text within a line are those that its characters make one after the
other (`Lexed`). Commas and brackets cut them where they cut the text (`Lexed.split`),
and what they are does not depend on where the text stands (`Lexed.look_eq`). So the
tokens of a function's parameters stand between the parentheses of its header
(`tokens_of_header`).
-/


namespace Docsmith.Source.Python

open Syntax

variable {text more : List Char} {b c : Char} {kind : Token.Kind} {n : Nat}

/-! ## The tokens of a text -/

/-- A text in which nothing but tokens and blanks stands, within a line. -/
def IsInline (text : List Char) : Prop :=
  ∀ c ∈ text, c ∉ ['"', '\'', '#', '\n']

instance (text : List Char) : Decidable (IsInline text) :=
  decidable_of_iff _ List.all_iff_forall_prop

theorem IsInline.isQuoteFree (h : IsInline text) : IsQuoteFree text :=
  ⟨fun hmem => h _ hmem (by decide), fun hmem => h _ hmem (by decide)⟩

theorem IsInline.drop (h : IsInline text) (n : Nat) : IsInline (text.drop n) :=
  fun c hc => h c (List.mem_of_mem_drop hc)

/-- The tokens of a text in a line of the source, from a place on. -/
inductive Lexed (line : Nat) : Nat → List Char → List Token → Prop where
  | nil {offset} : Lexed line offset [] []
  | skip {offset c text tokens} (h : isSkipped c = true)
      (h' : Lexed line (offset + c.utf8Size) text tokens) : Lexed line offset (c :: text) tokens
  | token {offset c text kind n tokens} (h : isSkipped c = false)
      (htoken : token? (c :: text) = some (kind, n))
      (h' : Lexed line (offset + byteCount ((c :: text).take n)) ((c :: text).drop n) tokens) :
      Lexed line offset (c :: text)
        (⟨kind, (c :: text).take n, ⟨offset, offset + byteCount ((c :: text).take n)⟩, line, []⟩ ::
          tokens)

namespace Lexed

variable {line offset : Nat} {tokens : List Token}

/-- **A stop cuts the tokens** where it cuts the text. -/
theorem split (hb : b ∈ stops) {before after : List Char} (hquote : IsQuoteFree before)
    (h : Lexed line offset (before ++ b :: after) tokens) :
    ∃ first second, tokens = first ++ ⟨.symbol, [b], ⟨offset + byteCount before,
        offset + byteCount before + 1⟩, line, []⟩ :: second ∧
      Lexed line offset before first ∧
      Lexed line (offset + byteCount before + 1) after second := by
  have hsize := of_mem_stops (fun b => b.utf8Size = 1) (by decide) hb
  generalize htext : before ++ b :: after = text at h
  induction h generalizing before with
  | nil => simp at htext
  | @skip offset c text tokens hskip hrest ih =>
    cases before with
    | nil =>
      obtain ⟨rfl, -⟩ := List.cons.inj htext
      have hnot := of_mem_stops (fun b => isSkipped b = false) (by decide) hb
      rw [hnot] at hskip
      cases hskip
    | cons d before =>
      obtain ⟨rfl, rfl⟩ := List.cons.inj htext
      obtain ⟨first, second, rfl, hfirst, hsecond⟩ :=
        ih (hquote.mono (List.subset_cons_self _ _)) rfl
      refine ⟨first, second, ?_, .skip hskip hfirst, ?_⟩ <;>
        rw [byteCount_cons, ← Nat.add_assoc]
      exact hsecond
  | @token offset c text kind n tokens hskip htoken hrest ih =>
    cases before with
    | nil =>
      obtain ⟨rfl, rfl⟩ := List.cons.inj htext
      rw [token?_stop hb] at htoken
      cases htoken
      refine ⟨[], tokens, ?_, .nil, ?_⟩
      · simp [hsize]
      · simpa [hsize] using hrest
    | cons d before =>
      have hne : d :: before ≠ [] := List.cons_ne_nil _ _
      rw [← htext, token?_append_stop hb hne hquote] at htoken
      have hle := token?_le hquote htoken
      rw [← htext, List.take_append_of_le_length hle] at hrest ih ⊢
      rw [List.drop_append_of_le_length hle] at hrest ih
      obtain ⟨first, second, rfl, hfirst, hsecond⟩ :=
        ih (hquote.mono (List.drop_subset n _)) rfl
      have hskip : isSkipped d = false := (List.cons.inj htext).1 ▸ hskip
      have hcount : offset + byteCount ((d :: before).take n) + byteCount ((d :: before).drop n) =
          offset + byteCount (d :: before) := by
        rw [Nat.add_assoc, ← byteCount_append, List.take_append_drop]
      rw [hcount] at hsecond ⊢
      exact ⟨_, second, rfl, .token hskip htoken hfirst, hsecond⟩

/-- A space in front is no token. -/
theorem of_space (h : Lexed line offset (' ' :: text) tokens) :
    Lexed line (offset + 1) text tokens := by
  cases h with
  | skip _ h => exact h
  | token hnot => cases hnot

/-- **What reads a text by its characters reads it by its tokens**, if it passes over
what stands between them. -/
theorem foldlM_text {State : Type} {step : State → Char → Option State}
    (hstep : ∀ s c, isSkipped c = true → step s c = some s) (h : Lexed line offset text tokens) :
    ∀ s, text.foldlM step s = tokens.foldlM (fun s t => t.text.foldlM step s) s := by
  induction h with
  | nil => exact fun s => rfl
  | skip hskip _ ih =>
    intro s
    rw [List.foldlM_cons, hstep _ _ hskip]
    exact ih s
  | @token offset c text kind n tokens _ _ _ ih =>
    intro s
    calc (c :: text).foldlM step s
      _ = ((c :: text).take n ++ (c :: text).drop n).foldlM step s := by
        rw [List.take_append_drop]
      _ = ((c :: text).take n).foldlM step s >>= fun s => ((c :: text).drop n).foldlM step s :=
        List.foldlM_append
      _ = _ := by rw [List.foldlM_cons, funext ih]

/-- What the tokens of a text are does not depend on where it stands. -/
theorem look_eq {line' offset' : Nat} {tokens' : List Token} (h : Lexed line offset text tokens)
    (h' : Lexed line' offset' text tokens') :
    tokens.map (fun t => (t.kind, t.text)) = tokens'.map fun t => (t.kind, t.text) := by
  induction h generalizing offset' tokens' with
  | nil =>
    cases h'
    rfl
  | skip hskip _ ih =>
    cases h' with
    | skip _ h' => exact ih h'
    | token hnot => simp [hskip] at hnot
  | token hnot htoken _ ih =>
    cases h' with
    | skip hskip => simp [hskip] at hnot
    | token _ htoken' h' =>
      cases htoken.symm.trans htoken'
      rw [List.map_cons, List.map_cons, ih h']

/-- A text in its place has its tokens. -/
theorem unique {tokens' : List Token} (h : Lexed line offset text tokens)
    (h' : Lexed line offset text tokens') : tokens = tokens' := by
  induction h generalizing tokens' with
  | nil =>
    cases h'
    rfl
  | skip hskip _ ih =>
    cases h' with
    | skip _ h' => exact ih h'
    | token hnot => simp [hskip] at hnot
  | token hnot htoken _ ih =>
    cases h' with
    | skip hskip => simp [hskip] at hnot
    | token _ htoken' h' =>
      cases htoken.symm.trans htoken'
      rw [ih h']

theorem isTidy (hquote : IsQuoteFree text) (h : Lexed line offset text tokens) :
    ∀ t ∈ tokens, IsTidy t := by
  induction h with
  | nil => exact List.forall_mem_nil _
  | skip _ _ ih => exact ih (hquote.mono (List.subset_cons_self _ _))
  | token _ htoken _ ih =>
    exact List.forall_mem_cons.2
      ⟨isTidy_of_token? hquote htoken rfl, ih (hquote.mono (List.drop_subset _ _))⟩

/-- A token is made of the text's characters. -/
theorem mem_text {c : Char} (h : Lexed line offset text tokens) :
    ∀ t ∈ tokens, c ∈ t.text → c ∈ text := by
  induction h with
  | nil => exact List.forall_mem_nil _
  | skip _ _ ih => exact fun t ht hc => List.mem_cons_of_mem _ (ih t ht hc)
  | token _ _ _ ih =>
    exact List.forall_mem_cons.2 ⟨List.mem_of_mem_take, fun t ht hc =>
      List.mem_of_mem_drop (ih t ht hc)⟩

/-- A text that starts with a token has it in front. -/
theorem head?_eq (h : Lexed line offset text tokens)
    (hhead : ∃ c ∈ text.head?, isSkipped c = false) :
    ∃ t ∈ tokens.head?, t.range.start = offset := by
  obtain ⟨c, hc, hnot⟩ := hhead
  cases h with
  | nil => cases hc
  | skip hskip _ =>
    cases hc
    rw [hskip] at hnot
    cases hnot
  | token => exact ⟨_, rfl, rfl⟩

/-- A text that ends with a token has it at the end. -/
theorem getLast?_eq (h : Lexed line offset text tokens)
    (hlast : ∃ c ∈ text.getLast?, isSkipped c = false) :
    ∃ t ∈ tokens.getLast?, t.range.stop = offset + byteCount text := by
  obtain ⟨d, hd, hnot⟩ := hlast
  induction h with
  | nil => cases hd
  | @skip offset c text tokens hskip _ ih =>
    cases text with
    | nil =>
      obtain rfl : c = d := by simpa using hd
      rw [hskip] at hnot
      cases hnot
    | cons e text =>
      rw [List.getLast?_cons_cons] at hd
      obtain ⟨t, ht, hstop⟩ := ih hd
      exact ⟨t, ht, by rw [hstop, byteCount_cons c, Nat.add_assoc]⟩
  | @token offset c text kind n tokens _ _ hrest ih =>
    by_cases hle : (c :: text).length ≤ n
    · rw [List.drop_eq_nil_of_le hle] at hrest
      cases hrest
      exact ⟨_, List.getLast?_singleton, by rw [List.take_of_length_le hle]⟩
    · rw [List.getLast?_drop, if_neg hle] at ih
      obtain ⟨t, ht, hstop⟩ := ih hd
      refine ⟨t, ?_, ?_⟩
      · rw [List.getLast?_cons, Option.mem_def.1 ht]
        rfl
      · rw [hstop, Nat.add_assoc, ← byteCount_append, List.take_append_drop]

end Lexed

/-! ## Reading on -/

variable {p : Place} {found tokens : List Token} {fuel : Nat}

/-- A round leaves what is found. -/
theorem Round.suffix {fresh goesOnFresh : Bool} {q : Place} {rest : List Char}
    {found' : List Token} (h : Round p found fresh text goesOnFresh q rest found') :
    found <:+ found' := by
  cases h with
  | margin _ marks => exact List.suffix_append marks found
  | feed | token => exact List.suffix_cons _ found
  | feedInBrackets | skip | comment | continued => exact List.suffix_refl found

/-- **What is found stays.** -/
theorem prefix_of_tokensFrom {fresh : Bool} (h : tokensFrom fuel fresh p text found = some tokens) :
    found.reverse <+: tokens := by
  obtain ⟨_, _, found', marks, hfound, -, rfl⟩ := holds_of_tokensFrom
    (fun _ _ found' => found <:+ found') (fun hround hfound => hfound.trans hround.suffix)
    (List.suffix_refl found) h
  exact List.reverse_prefix.2 (hfound.trans (List.suffix_append marks found'))

/-- Without line feeds the line stays. -/
theorem Place.line_after {chars : List Char} (p : Place) (h : '\n' ∉ chars) :
    (p.after chars).line = p.line := by
  have hcount : lineCount chars = 0 :=
    List.countP_eq_zero.2 fun c hc hfeed => h (beq_iff_eq.1 hfeed ▸ hc)
  rw [Place.after, hcount, Nat.add_zero]

/-- Up to a stop no line is continued in a text without line feeds. -/
theorem append_stop_ne (hb : b ∈ stops) (hfeed : '\n' ∉ text) {ending rest : List Char}
    (hending : ending ∈ [['\n'], ['\r', '\n']]) : text ++ b :: more ≠ ending ++ rest := by
  have hne : b ≠ '\n' ∧ b ≠ '\r' := ⟨ne_of_stop hb (by decide), ne_of_stop hb (by decide)⟩
  have hfirst : ∀ {text : List Char}, '\n' ∉ text → text ++ b :: more ≠ '\n' :: rest := by
    intro text hfeed heq
    cases text with
    | nil => exact hne.1 (List.cons.inj heq).1
    | cons c text => exact hfeed ((List.cons.inj heq).1 ▸ List.mem_cons_self)
  simp only [List.mem_cons, List.not_mem_nil, or_false] at hending
  rcases hending with rfl | rfl
  · exact hfirst hfeed
  · intro heq
    cases text with
    | nil => exact hne.2 (List.cons.inj heq).1
    | cons c text => exact hfirst (List.not_mem_of_not_mem_cons hfeed) (List.cons.inj heq).2

/-- **The tokens of a text up to a stop.** -/
theorem lexed_of_tokensFrom (hb : b ∈ stops) {fuel : Nat} : ∀ {text p found tokens},
    IsInline text → tokensFrom fuel false p (text ++ b :: more) found = some tokens →
    ∃ fuel' q lexed, Lexed p.line p.offset text lexed ∧ q.line = p.line ∧
      q.offset = p.offset + byteCount text ∧
      tokensFrom fuel' false q (b :: more) (lexed.reverse ++ found) = some tokens := by
  induction fuel with
  | zero => exact fun _ h => nomatch h
  | succ fuel ih =>
    intro text p found tokens hinline h
    cases text with
    | nil => exact ⟨fuel + 1, p, [], .nil, rfl, rfl, h⟩
    | cons c text =>
      have hfeed : '\n' ∉ c :: text := fun hmem => hinline _ hmem (by decide)
      have hc := hinline c List.mem_cons_self
      rw [List.cons_append] at h
      obtain ⟨_, q, _, _, hround, h⟩ := (round_of_tokensFrom h).resolve_left (by simp)
      generalize htext : c :: (text ++ b :: more) = line at hround
      cases hround with
      | feed | feedInBrackets | comment =>
        obtain ⟨rfl, -⟩ := List.cons.inj htext
        exact absurd (by decide) hc
      | continued ending hending =>
        exact absurd (List.cons.inj htext).2
          (append_stop_ne hb (List.not_mem_of_not_mem_cons hfeed) hending)
      | skip _ hskip =>
        obtain ⟨rfl, rfl⟩ := List.cons.inj htext
        obtain ⟨fuel', r, lexed, hlexed, hline, hoffset, htokens⟩ :=
          ih (fun d hd => hinline d (List.mem_cons_of_mem _ hd)) h
        have hafter : (p.after [c]).line = p.line :=
          p.line_after fun hmem => hfeed (List.mem_cons.2 (.inl (List.mem_singleton.1 hmem)))
        have hcount : (p.after [c]).offset = p.offset + c.utf8Size := by simp [Place.after]
        rw [hafter, hcount] at hlexed
        refine ⟨fuel', r, lexed, .skip hskip hlexed, hline.trans hafter, ?_, htokens⟩
        rw [hoffset, hcount, byteCount_cons, Nat.add_assoc]
      | @token _ _ kind n brackets hskip htoken =>
        obtain ⟨rfl, rfl⟩ := List.cons.inj htext
        rw [← List.cons_append] at htoken h
        rw [token?_append_stop hb (List.cons_ne_nil _ _) hinline.isQuoteFree] at htoken
        have hle := token?_le hinline.isQuoteFree htoken
        rw [List.take_append_of_le_length hle, List.drop_append_of_le_length hle] at h
        obtain ⟨fuel', r, lexed, hlexed, hline, hoffset, htokens⟩ := ih (hinline.drop n) h
        have hafter : (p.after ((c :: text).take n)).line = p.line :=
          p.line_after fun hmem => hfeed (List.mem_of_mem_take hmem)
        have hcount : (p.after ((c :: text).take n)).offset =
          p.offset + byteCount ((c :: text).take n) := rfl
        rw [hafter, hcount] at hlexed
        refine ⟨fuel', r, _, .token hskip htoken hlexed, hline.trans hafter, ?_, ?_⟩
        · rw [hoffset, hcount, Nat.add_assoc, ← byteCount_append, List.take_append_drop]
        · rw [List.reverse_cons, List.append_assoc]
          exact htokens

/-- The stop itself. -/
theorem stop_of_tokensFrom (hb : b ∈ stops)
    (h : tokensFrom fuel false p (b :: more) found = some tokens) :
    ∃ fuel' q, q.line = p.line ∧ q.offset = p.offset + 1 ∧
      tokensFrom fuel' false q more
        (⟨.symbol, [b], ⟨p.offset, p.offset + 1⟩, p.line, []⟩ :: found) = some tokens := by
  have hsize := of_mem_stops (fun b => b.utf8Size = 1) (by decide) hb
  have hnot := of_mem_stops (fun b => isSkipped b = false) (by decide) hb
  cases fuel with
  | zero => cases h
  | succ fuel =>
    obtain ⟨_, q, _, _, hround, h⟩ := (round_of_tokensFrom h).resolve_left (by simp)
    generalize htext : b :: more = line at hround
    cases hround with
    | feed | feedInBrackets | comment | continued =>
      exact absurd (List.cons.inj htext).1 (ne_of_stop hb (by decide))
    | skip _ hskip =>
      rw [← (List.cons.inj htext).1, hnot] at hskip
      cases hskip
    | token brackets _ htoken =>
      obtain ⟨rfl, rfl⟩ := List.cons.inj htext
      rw [token?_stop hb] at htoken
      cases htoken
      have hafter : (p.after [b]).line = p.line :=
        p.line_after fun hmem => ne_of_stop hb (by decide) (List.mem_singleton.1 hmem).symm
      have hcount : (p.after [b]).offset = p.offset + 1 := by simp [Place.after, hsize]
      dsimp only [List.take, List.drop] at h
      rw [hcount] at h
      exact ⟨fuel, ⟨p.offset + 1, (p.after [b]).line, (p.after [b]).blocks, _⟩, hafter, rfl, h⟩

/-! ## Headers -/

/-- The header of a function with some parameters. -/
def header (parameters : List Char) : List Char :=
  "def f(".toList ++ (parameters ++ "):".toList)

/-- A header in front of a text. -/
theorem header_append (parameters rest : List Char) :
    header parameters ++ rest = "def f(".toList ++ (parameters ++ ("):".toList ++ rest)) := by
  change ("def f(".toList ++ (parameters ++ "):".toList)) ++ rest = _
  rw [List.append_assoc, List.append_assoc]

/-- A piece of a line that is one token. -/
def tokenAt (kind : Token.Kind) (text : List Char) (offset : Nat) : Token :=
  ⟨kind, text, ⟨offset, offset + byteCount text⟩, 1, []⟩

theorem lexed_start : Lexed 1 0 "def f".toList
    [tokenAt .word "def".toList 0, tokenAt .word ['f'] 4] := by
  have hdef : token? "def f".toList = some (.word, 3) := by decide +kernel
  have hname : token? "f".toList = some (.word, 1) := by decide +kernel
  exact .token (by decide) hdef (.skip (by decide) (.token (by decide) hname .nil))

/-- **The tokens of a header**: those of the parameters stand between the
parentheses. -/
theorem tokens_of_header {parameters rest : List Char} (hinline : IsInline parameters)
    (h : tokens? (header parameters ++ rest) = some tokens) :
    ∃ lexed after, Lexed 1 6 parameters lexed ∧
      tokens = tokenAt .word "def".toList 0 :: tokenAt .word ['f'] 4 :: tokenAt .symbol ['('] 5 ::
        (lexed ++ tokenAt .symbol [')'] (6 + byteCount parameters) :: after) := by
  have hopen : '(' ∈ stops := by decide
  have hclose : ')' ∈ stops := by decide
  have hstart : header parameters ++ rest =
      "def f".toList ++ '(' :: (parameters ++ ')' :: ':' :: rest) := by
    rw [header_append]
    rfl
  -- no blank and no mark stands in front
  have hfresh : ∃ fuel, tokensFrom fuel false {}
      ("def f".toList ++ '(' :: (parameters ++ ')' :: ':' :: rest)) [] = some tokens := by
    rw [tokens?, hstart, tokensFrom.eq_def] at h
    exact ⟨_, h⟩
  obtain ⟨fuel, h⟩ := hfresh
  obtain ⟨fuel, p, first, hfirst, hline, hoffset, h⟩ :=
    lexed_of_tokensFrom hopen (by decide) h
  obtain ⟨fuel, q, hline', hoffset', h⟩ := stop_of_tokensFrom hopen h
  obtain ⟨fuel, r, lexed, hlexed, hline'', hoffset'', h⟩ := lexed_of_tokensFrom hclose hinline h
  obtain ⟨fuel, s, -, -, h⟩ := stop_of_tokensFrom hclose h
  have hp : p.line = 1 ∧ p.offset = 5 := ⟨hline, hoffset⟩
  have hq : q.line = 1 ∧ q.offset = 6 := ⟨hline'.trans hp.1, by rw [hoffset', hp.2]⟩
  obtain rfl := hfirst.unique lexed_start
  obtain ⟨after, hafter⟩ := prefix_of_tokensFrom h
  rw [hq.1, hq.2] at hlexed
  refine ⟨lexed, after, hlexed, ?_⟩
  rw [← hafter, hoffset'', hq.2, hline'', hq.1, hp.1, hp.2]
  simp only [List.reverse_cons, List.reverse_append, List.reverse_reverse, List.append_assoc,
    List.cons_append, List.nil_append, List.reverse_nil, List.append_nil]
  rfl

end Docsmith.Source.Python
