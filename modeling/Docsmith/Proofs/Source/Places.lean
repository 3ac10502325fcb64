import Docsmith.Proofs.Text.Split
import Docsmith.Source.Comment
import Docsmith.Source.Lines.JavaHeader
import Docsmith.Source.Syntax.Token
import Mathlib.Tactic.SplitIfs
/-!
# Sources — reading by places

Places in a text are counted in bytes. A text can be cut at a place only if the place
lies within it and between two characters, and lines can be taken from a number on only
if there are as many. Here documentation strings and annotations are read so, with
places and numbers that are looked for first, and every cut can fail
(`docstringAt?`, `annotationsAt?`). None fails on any text, the loops come to their end,
and what is read is the same as without places (`docstringAt?_eq`,
`annotationsAt?_eq`).
-/


namespace Docsmith.Source

open Lines (afterArguments afterClosing annotation? annotationsFrom isAnnotationChar
  splitAnnotations)
open Syntax (byteCount)

variable {text : List Char} {σ ρ : Type}

/-! ## Bytes -/

theorem foldl_byteCount (text : List Char) (n : Nat) :
    text.foldl (fun n c => n + c.utf8Size) n = n + byteCount text := by
  induction text generalizing n with
  | nil => rfl
  | cons c text ih =>
    rw [byteCount, List.foldl_cons, List.foldl_cons, ih, ih]
    omega

@[simp] theorem byteCount_nil : byteCount [] = 0 := rfl

@[simp] theorem byteCount_cons (c : Char) (text : List Char) :
    byteCount (c :: text) = c.utf8Size + byteCount text := by
  rw [byteCount, List.foldl_cons, foldl_byteCount, Nat.zero_add]

@[simp] theorem byteCount_append (text more : List Char) :
    byteCount (text ++ more) = byteCount text + byteCount more := by
  rw [byteCount, List.foldl_append, foldl_byteCount]
  rfl

/-- The text behind a place. -/
theorem dropBytes?_append (before after : List Char) :
    dropBytes? (byteCount before) (before ++ after) = some after := by
  induction before with
  | nil => cases after <;> rfl
  | cons c before ih =>
    obtain ⟨n, hn⟩ : ∃ n, c.utf8Size + byteCount before = n + 1 :=
      Nat.exists_eq_add_of_le' (Nat.add_pos_left c.utf8Size_pos _)
    rw [byteCount_cons, hn, List.cons_append, dropBytes?, if_pos (by omega), ← hn,
      Nat.add_sub_cancel_left, ih]

/-- The text before a place. -/
theorem takeBytes?_append (text after : List Char) :
    takeBytes? (byteCount text) (text ++ after) = some text := by
  induction text with
  | nil => cases after <;> rfl
  | cons c text ih =>
    obtain ⟨n, hn⟩ : ∃ n, c.utf8Size + byteCount text = n + 1 :=
      Nat.exists_eq_add_of_le' (Nat.add_pos_left c.utf8Size_pos _)
    rw [byteCount_cons, hn, List.cons_append, takeBytes?, if_pos (by omega), ← hn,
      Nat.add_sub_cancel_left, ih, Option.map_some]

/-- **A text stands between the places** before and behind it. -/
theorem slice_append (before text after : List Char) :
    slice (before ++ (text ++ after)) (byteCount before) (byteCount before + byteCount text) =
      text := by
  rw [slice, if_neg (by omega), dropBytes?_append, Option.bind_some, Nat.add_sub_cancel_left,
    takeBytes?_append, Option.getD_some]

/-! ## Places that are looked for -/

/-- The place of the first character with a property. -/
def placeOf? (p : Char → Bool) : List Char → Option Nat
  | [] => none
  | c :: text => if p c then some 0 else (placeOf? p text).map (c.utf8Size + ·)

/-- The first place of a needle. -/
def placeOfText? (needle text : List Char) : Option Nat :=
  (Text.splitOnce? needle text).map fun (before, _) => byteCount before

/-- The place of a character is behind all that lack the property. -/
theorem placeOf?_eq (p : Char → Bool) (text : List Char) :
    placeOf? p text = if text.dropWhile (!p ·) = [] then none
      else some (byteCount (text.takeWhile (!p ·))) := by
  induction text with
  | nil => rfl
  | cons c text ih =>
    cases hc : p c with
    | true => simp [placeOf?, hc]
    | false =>
      rw [placeOf?, if_neg (by simp [hc]), ih, List.dropWhile_cons_of_pos (by simp [hc]),
        List.takeWhile_cons_of_pos (by simp [hc]), byteCount_cons]
      split <;> rfl

/-- Where no character has the property, its place is the end of the text. -/
theorem getD_placeOf? (p : Char → Bool) (text : List Char) :
    (placeOf? p text).getD (byteCount text) = byteCount (text.takeWhile (!p ·)) := by
  rw [placeOf?_eq]
  split_ifs with hnone
  · have hall := List.takeWhile_append_dropWhile (p := fun c => !p c) (l := text)
    rw [hnone, List.append_nil] at hall
    rw [hall]
    rfl
  · rfl

theorem takeBytes?_takeWhile (p : Char → Bool) (text : List Char) :
    takeBytes? (byteCount (text.takeWhile p)) text = some (text.takeWhile p) := by
  have hcut := takeBytes?_append (text.takeWhile p) (text.dropWhile p)
  rwa [List.takeWhile_append_dropWhile] at hcut

theorem dropBytes?_takeWhile (p : Char → Bool) (text : List Char) :
    dropBytes? (byteCount (text.takeWhile p)) text = some (text.dropWhile p) := by
  have hcut := dropBytes?_append (text.takeWhile p) (text.dropWhile p)
  rwa [List.takeWhile_append_dropWhile] at hcut

/-! ## Documentation strings -/

/-- The text in front of a needle's first place; the outer result is missing if the cut
fails, and the inner one if the needle does not occur. -/
def beforeAt? (needle text : List Char) : Option (Option (List Char)) :=
  match placeOfText? needle text with
  | none => some none
  | some place => (takeBytes? place text).map some

/-- The quote that opens a documentation string and what is behind it, cut at places. -/
def openingAt? (line : List Char) : Option (Option (List Char × List Char)) :=
  let trimmed := Text.trim line
  match placeOf? (fun c => c == '"' || c == '\'') trimmed with
  | none => some none
  | some place => do
    let letters ← takeBytes? place trimmed
    if 2 < byteCount letters || !letters.all isStringPrefix then some none
    else
      let rest ← dropBytes? place trimmed
      match tripleQuotes.find? (·.isPrefixOf rest) with
      | none => some none
      | some quote => (dropBytes? (byteCount quote) rest).map fun opening => some (quote, opening)

/-- The lines up to the closing quote behind those that were passed, and how many lines
that were. -/
def closingAt? (quote : List Char) : (offset : Nat) → (parts lines : List (List Char)) →
    Option (Option (List (List Char) × Nat))
  | _, _, [] => some none
  | offset, parts, line :: rest => do
    match ← beforeAt? quote line with
    | some before => some (some (parts ++ [before], offset + 1))
    | none => closingAt? quote (offset + 1) (parts ++ [line]) rest

/-- The lines from a number on. -/
def linesFrom? (start : Nat) (lines : List (List Char)) : Option (List (List Char)) :=
  if start ≤ lines.length then some (lines.drop start) else none

/-- The documentation string that starts in the line with a number, and the number of the
line behind it. -/
def docstringAt? (lines : List (List Char)) (start : Nat) : Option (List Char × Nat) :=
  match lines[start]? with
  | none => some ([], start)
  | some first => do
    match ← openingAt? first with
    | none => some ([], start)
    | some (quote, opening) =>
      match ← beforeAt? quote opening with
      | some inner => some (joinTrimmed [inner], start + 1)
      | none =>
        let following ← linesFrom? (start + 1) lines
        match ← closingAt? quote 0 [opening] following with
        | some (parts, count) => some (joinTrimmed parts, start + (count + 1))
        | none => some ([], start)

theorem beforeAt?_eq (needle text : List Char) :
    beforeAt? needle text = some ((Text.splitOnce? needle text).map (·.1)) := by
  unfold beforeAt? placeOfText?
  cases hcut : Text.splitOnce? needle text with
  | none => rfl
  | some cut =>
    obtain ⟨before, after⟩ := cut
    obtain ⟨rfl, -⟩ := Text.splitOnce?_eq_some hcut
    have htake := takeBytes?_append before (needle ++ after)
    rw [← List.append_assoc] at htake
    simp only [Option.map_some, htake]

/-- Two letters that may stand before a quote have two bytes. -/
theorem byteCount_of_isStringPrefix (h : ∀ c ∈ text, isStringPrefix c = true) :
    byteCount text = text.length := by
  have hletter : ∀ c, isStringPrefix c = true → c.utf8Size = 1 := by
    intro c hc
    rw [isStringPrefix, List.contains_iff_mem] at hc
    simp only [List.mem_cons, List.not_mem_nil, or_false] at hc
    rcases hc with rfl | rfl | rfl | rfl | rfl | rfl | rfl | rfl <;> rfl
  induction text with
  | nil => rfl
  | cons c text ih =>
    obtain ⟨hc, htext⟩ := List.forall_mem_cons.1 h
    rw [byteCount_cons, hletter c hc, ih htext, List.length_cons, Nat.add_comm]

/-- **The opening quote is found by places.** The letters before it are counted in bytes,
which counts more of them only where some are no letters of a string. -/
theorem openingAt?_eq (line : List Char) : openingAt? line = some (openingQuote? line) := by
  unfold openingAt? openingQuote?
  dsimp only
  rw [placeOf?_eq]
  by_cases hrest : (Text.trim line).dropWhile (fun c => !(c == '"' || c == '\'')) = []
  · rw [if_pos hrest, hrest]
    rfl
  · rw [if_neg hrest]
    dsimp only
    rw [takeBytes?_takeWhile, dropBytes?_takeWhile]
    generalize (Text.trim line).takeWhile (fun c => !(c == '"' || c == '\'')) = letters
    generalize (Text.trim line).dropWhile (fun c => !(c == '"' || c == '\'')) = rest at hrest ⊢
    have hcount : (decide (2 < byteCount letters) || !letters.all isStringPrefix) =
        (rest.isEmpty || decide (2 < letters.length) || !letters.all isStringPrefix) := by
      cases hall : letters.all isStringPrefix with
      | false => simp
      | true => simp [byteCount_of_isStringPrefix (List.all_eq_true.1 hall), hrest]
    simp only [Option.bind_eq_bind, Option.bind_some, hcount]
    split_ifs
    · rfl
    · cases hquote : tripleQuotes.find? (·.isPrefixOf rest) with
      | none => rfl
      | some quote =>
        have hstart : quote.isPrefixOf rest = true := by
          have hfound := List.find?_some hquote
          exact hfound
        obtain ⟨tail, rfl⟩ := List.isPrefixOf_iff_prefix.1 hstart
        simp only [dropBytes?_append, Option.map_some, List.drop_left]

theorem closingAt?_eq (quote : List Char) (lines : List (List Char)) :
    ∀ offset parts, closingAt? quote offset parts lines =
      some ((closing? quote lines).map fun (more, count) => (parts ++ more, offset + count)) := by
  induction lines with
  | nil =>
    intro offset parts
    rfl
  | cons line lines ih =>
    intro offset parts
    rw [closingAt?, beforeAt?_eq, closing?]
    cases Text.splitOnce? quote line with
    | some cut => rfl
    | none =>
      simp only [Option.map_none, Option.bind_eq_bind, Option.bind_some, ih, Option.map_map]
      congr 2
      funext ⟨more, count⟩
      simp only [Function.comp_apply, List.append_assoc, List.singleton_append, Nat.add_assoc,
        Nat.add_comm 1]

/-- **No cut of a documentation string fails**, and it is the one that the lines start
with. -/
theorem docstringAt?_eq (lines : List (List Char)) (start : Nat) :
    docstringAt? lines start =
      some ((docstring (lines.drop start)).1, start + (docstring (lines.drop start)).2) := by
  unfold docstringAt?
  cases hfirst : lines[start]? with
  | none =>
    rw [List.drop_eq_nil_of_le (List.getElem?_eq_none_iff.1 hfirst)]
    rfl
  | some first =>
    obtain ⟨hlt, hget⟩ := List.getElem?_eq_some_iff.1 hfirst
    have hdrop : lines.drop start = first :: lines.drop (start + 1) := by
      rw [List.drop_eq_getElem_cons hlt, hget]
    have hfollowing : linesFrom? (start + 1) lines = some (lines.drop (start + 1)) := if_pos hlt
    rw [hdrop]
    simp only [openingAt?_eq, beforeAt?_eq, closingAt?_eq, hfollowing, Option.bind_eq_bind,
      Option.bind_some, docstring]
    cases openingQuote? first with
    | none => rfl
    | some found =>
      obtain ⟨quote, opening⟩ := found
      dsimp only
      cases Text.splitOnce? quote opening with
      | some cut => rfl
      | none =>
        dsimp only [Option.map_none]
        cases closing? quote (lines.drop (start + 1)) with
        | none => rfl
        | some closed => simp

theorem closing?_le {quote : List Char} {lines parts : List (List Char)} {count : Nat}
    (h : closing? quote lines = some (parts, count)) : count ≤ lines.length := by
  induction lines generalizing parts count with
  | nil => cases h
  | cons line lines ih =>
    rw [closing?] at h
    split at h
    · cases h
      simp
    · obtain ⟨⟨more, n⟩, hclosing, hcount⟩ := Option.map_eq_some_iff.1 h
      cases hcount
      exact Nat.succ_le_succ (ih hclosing)

/-- A documentation string takes no more lines than there are. -/
theorem docstring_le (lines : List (List Char)) : (docstring lines).2 ≤ lines.length := by
  unfold docstring
  cases lines with
  | nil => exact Nat.le_refl 0
  | cons first rest =>
    dsimp only
    split
    · exact Nat.zero_le _
    · split
      · simp
      · split
        · next hclosing =>
          exact Nat.succ_le_succ (closing?_le hclosing)
        · exact Nat.zero_le _

/-! ## Loops -/

/-- What a turn of a loop comes to: the loop goes on from a state or is left with a
result. -/
inductive Turn (σ ρ : Type) where
  | again (s : σ)
  | leave (r : ρ)

/-- A loop of at most some turns. Its result is missing if a turn fails and if the turns
do not suffice. -/
def loop (turn : σ → Option (Turn σ ρ)) : (turns : Nat) → σ → Option ρ
  | 0, _ => none
  | turns + 1, s => do
    match ← turn s with
    | .again s => loop turn turns s
    | .leave r => some r

theorem loop_again {turn : σ → Option (Turn σ ρ)} {s s' : σ} (h : turn s = some (.again s'))
    (turns : Nat) : loop turn (turns + 1) s = loop turn turns s' := by
  rw [loop, h]
  rfl

theorem loop_leave {turn : σ → Option (Turn σ ρ)} {s : σ} {r : ρ} (h : turn s = some (.leave r))
    (turns : Nat) : loop turn (turns + 1) s = some r := by
  rw [loop, h]
  rfl

/-! ## Annotations -/

/-- The place behind the parenthesis that closes the first one, for a text that starts
at a place with some parentheses open; the end of the text if there is none. -/
def closingPlace (place : Nat) (level : Int) : List Char → Nat
  | [] => place
  | c :: text =>
    if c = '(' then closingPlace (place + c.utf8Size) (level + 1) text
    else if c = ')' then
      if level - 1 = 0 then place + 1 else closingPlace (place + c.utf8Size) (level - 1) text
    else closingPlace (place + c.utf8Size) level text

/-- The text behind the arguments that it starts with, if it starts with some. -/
def behindArguments? (text : List Char) : Option (List Char) :=
  if text.head? = some '(' then dropBytes? (closingPlace 0 0 text) text else some text

/-- One turn over the annotations in front of a text, with those found so far. The text
is cut behind the name and behind the arguments. -/
def annotationTurn (s : List (List Char) × List Char) :
    Option (Turn (List (List Char) × List Char) (List (List Char) × List Char)) :=
  match s with
  | (found, '@' :: text) =>
    let nameEnd := (placeOf? (!isAnnotationChar ·) text).getD (byteCount text)
    if "interface".toList.isPrefixOf text || nameEnd = 0 then some (.leave s)
    else do
      let name ← takeBytes? nameEnd text
      let tail ← dropBytes? nameEnd text
      let rest ← behindArguments? (Text.trimStart tail)
      some (.again (found ++ ['@' :: name], Text.trimStart rest))
  | s => some (.leave s)

/-- The annotations in front of a text and the rest, in at most some turns. -/
def annotationsAt? (turns : Nat) (text : List Char) : Option (List (List Char) × List Char) :=
  loop annotationTurn turns ([], Text.trimStart text)

/-- **The closing parenthesis is found by places**: by induction on the text with at
least one parenthesis open. -/
theorem closingPlace_eq (text : List Char) : ∀ place level, ∃ before,
    text = before ++ afterClosing (level + 1) text ∧
      closingPlace place (level + 1 : Nat) text = place + byteCount before := by
  induction text with
  | nil => exact fun place level => ⟨[], rfl, rfl⟩
  | cons c text ih =>
    intro place level
    -- what a character in front adds
    have hcons : ∀ level' : Nat,
        afterClosing (level + 1) (c :: text) = afterClosing (level' + 1) text →
        closingPlace place (level + 1 : Nat) (c :: text) =
          closingPlace (place + c.utf8Size) (level' + 1 : Nat) text →
        ∃ before, c :: text = before ++ afterClosing (level + 1) (c :: text) ∧
          closingPlace place (level + 1 : Nat) (c :: text) = place + byteCount before := by
      intro level' hafter hplace
      obtain ⟨before, htext, hbefore⟩ := ih (place + c.utf8Size) level'
      refine ⟨c :: before, ?_, ?_⟩
      · rw [hafter, List.cons_append, ← htext]
      · rw [hplace, hbefore, byteCount_cons, Nat.add_assoc]
    by_cases hopen : c = '('
    · subst hopen
      exact hcons (level + 1) rfl rfl
    by_cases hclose : c = ')'
    · subst hclose
      cases level with
      | zero => exact ⟨[')'], rfl, rfl⟩
      | succ level =>
        have hlevel : ((level + 1 + 1 : Nat) : Int) - 1 = (level + 1 : Nat) := by omega
        refine hcons level rfl ?_
        rw [closingPlace, if_neg (by decide), if_pos rfl, if_neg (by omega), hlevel]
    · refine hcons level ?_ ?_
      · simp [afterClosing]
      · rw [closingPlace, if_neg hopen, if_neg hclose]

theorem behindArguments?_trimStart (text : List Char) :
    behindArguments? (Text.trimStart text) = some (afterArguments text) := by
  unfold afterArguments behindArguments?
  generalize Text.trimStart text = tail
  split_ifs with hopen
  · obtain ⟨rest, rfl⟩ : ∃ rest, tail = '(' :: rest := List.head?_eq_some_iff.1 hopen
    obtain ⟨before, hrest, hplace⟩ := closingPlace_eq rest 1 0
    have hcut := dropBytes?_append ('(' :: before) (afterClosing 1 rest)
    have hfirst : closingPlace 0 0 ('(' :: rest) = byteCount ('(' :: before) := by
      rw [byteCount_cons, closingPlace, if_pos rfl]
      exact hplace
    rw [hfirst]
    rw [List.cons_append, ← hrest] at hcut
    exact hcut
  · split
    · next rest => exact absurd rfl hopen
    · rfl

/-- **A turn takes the next annotation.** -/
theorem annotationTurn_eq (found : List (List Char)) (text : List Char) :
    annotationTurn (found, text) = some (match annotation? text with
      | some (name, rest) => .again (found ++ [name], rest)
      | none => .leave (found, text)) := by
  unfold annotationTurn annotation?
  split
  · next text heq =>
    cases heq
    simp only [getD_placeOf?, Bool.not_not, takeBytes?_takeWhile, dropBytes?_takeWhile,
      Option.bind_eq_bind, Option.bind_some, behindArguments?_trimStart]
    generalize List.isPrefixOf _ text = isType
    cases isType with
    | true => rfl
    | false =>
      cases text.takeWhile isAnnotationChar with
      | nil => rfl
      | cons c name =>
        have hpos := Nat.ne_of_gt c.utf8Size_pos
        simp [hpos]
  · next hno =>
    split
    · next heq =>
      split at heq
      · exact absurd rfl (hno _ _)
      · cases heq
    · rfl

/-- What is behind the arguments is the end of the text. -/
theorem afterArguments_suffix (text : List Char) : afterArguments text <:+ text := by
  have htrim : Text.trimStart text <:+ text := List.dropWhile_suffix _
  unfold afterArguments
  split
  · next rest heq =>
    obtain ⟨before, hrest, -⟩ := closingPlace_eq rest 1 0
    rw [heq] at htrim
    have hafter : afterClosing 1 rest <:+ '(' :: rest := ⟨'(' :: before, congrArg _ hrest.symm⟩
    exact hafter.trans htrim
  · next heq => exact htrim

/-- What is behind an annotation is the end of the text behind its sign. -/
theorem annotation?_suffix {name rest : List Char} (h : annotation? text = some (name, rest)) :
    ∃ tail, text = '@' :: tail ∧ rest <:+ tail := by
  unfold annotation? at h
  split at h
  · next tail =>
    split_ifs at h
    split at h
    · cases h
    · cases h
      exact ⟨tail, rfl, ((List.dropWhile_suffix Text.isBlank).trans
        (afterArguments_suffix (tail.dropWhile isAnnotationChar))).trans (List.dropWhile_suffix _)⟩
  · cases h

theorem length_annotation?_lt {name rest : List Char} (h : annotation? text = some (name, rest)) :
    rest.length < text.length := by
  obtain ⟨tail, rfl, hsuffix⟩ := annotation?_suffix h
  exact Nat.lt_succ_of_le hsuffix.length_le

/-- The turns over a text are fewer than its characters: by induction on what bounds the
number of annotations. -/
theorem loop_annotationTurn (fuel : Nat) : ∀ found text turns, text.length ≤ fuel →
    text.length < turns → loop annotationTurn turns (found, text) =
      some (found ++ (annotationsFrom fuel text).1, (annotationsFrom fuel text).2) := by
  induction fuel with
  | zero =>
    intro found text turns hfuel hturns
    obtain rfl := List.length_eq_zero_iff.1 (Nat.le_zero.1 hfuel)
    obtain ⟨n, rfl⟩ : ∃ n, turns = n + 1 := ⟨turns - 1, by omega⟩
    rw [loop_leave (annotationTurn_eq found []), annotationsFrom, List.append_nil]
  | succ fuel ih =>
    intro found text turns hfuel hturns
    obtain ⟨n, rfl⟩ : ∃ n, turns = n + 1 := ⟨turns - 1, by omega⟩
    have hturn := annotationTurn_eq found text
    rw [annotationsFrom]
    cases hnext : annotation? text with
    | none =>
      rw [hnext] at hturn
      rw [loop_leave hturn, List.append_nil]
    | some next =>
      obtain ⟨name, rest⟩ := next
      have hlength := length_annotation?_lt hnext
      rw [hnext] at hturn
      rw [loop_again hturn, ih (found ++ [name]) rest n (by omega) (by omega), List.append_assoc]
      rfl

/-- **No cut behind an annotation fails**, and there are no more turns than characters. -/
theorem annotationsAt?_eq {turns : Nat} (text : List Char) (h : text.length < turns) :
    annotationsAt? turns text = some (splitAnnotations text) := by
  have hlength : (Text.trimStart text).length ≤ text.length :=
    (List.dropWhile_suffix _).length_le
  rw [annotationsAt?, loop_annotationTurn text.length [] _ turns hlength (by omega),
    List.nil_append]
  rfl

end Docsmith.Source
