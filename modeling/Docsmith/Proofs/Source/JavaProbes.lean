import Docsmith.Proofs.Source.Annotations
import Docsmith.Proofs.Source.JavaOutline
import Mathlib.Data.List.TakeWhile
/-!
# Java — lines that tell states apart

What the reader knows before a line shows in what it makes of the lines that
follow. A line of braces declares nothing and leads from depth to depth
(`step_braces`), and a plain field behind it is read exactly in the body of the
type on top, under that type's name (`outlines_field`). So states with a type on
top that differ in their depth or in their types differ in what some braces and
a field give, and states without one in what braces and a class give.
-/


namespace Docsmith.Source.Lines.Java

variable {package : Option String} {path : String} {number depth : Nat} {st : State}
variable {s : Scope} {scopes rest : List Scope} {text : List Char} {c : Char}

/-! ## Lines of braces -/

/-- Nothing but braces. -/
def IsBraces (text : List Char) : Prop :=
  ∀ c ∈ text, c = '\x7b' ∨ c = '\x7d'

/-- A brace is no character of a name, a keyword or anything else in front of a
declaration. -/
theorem IsBraces.forall {p : Char → Prop} (h : IsBraces text) (hopen : p '\x7b')
    (hclose : p '\x7d') : ∀ c ∈ text, p c := by
  intro c hc
  rcases h c hc with rfl | rfl
  · exact hopen
  · exact hclose

theorem IsBraces.of_cons (h : IsBraces (c :: text)) : IsBraces text :=
  fun d hd => h d (List.mem_cons_of_mem c hd)

theorem dropWhile_braces {p : Char → Bool} (h : IsBraces text) (hopen : p '\x7b' = false)
    (hclose : p '\x7d' = false) : text.dropWhile p = text := by
  cases text with
  | nil => rfl
  | cons c text =>
    have hc := h.forall (p := fun c => p c = false) hopen hclose c List.mem_cons_self
    exact List.dropWhile_cons_of_neg (by simp [hc])

theorem trimStart_braces (h : IsBraces text) : Text.trimStart text = text :=
  dropWhile_braces h (by decide) (by decide)

theorem trim_braces (h : IsBraces text) : Text.trim text = text := by
  have hreverse : IsBraces text.reverse := fun c hc => h c (List.mem_reverse.1 hc)
  rw [Text.trim, trimStart_braces h, Text.trimEnd, Text.dropEndWhile,
    dropWhile_braces hreverse (by decide) (by decide), List.reverse_reverse]

theorem stripNoise_braces (h : IsBraces text) : stripNoise none text = text := by
  induction text with
  | nil => rfl
  | cons c text ih =>
    have hc := h.forall (p := fun c => c ≠ '/' ∧ c ≠ '"' ∧ c ≠ '\'') (by decide) (by decide) c
      List.mem_cons_self
    simp [stripNoise, hc, ih h.of_cons]

theorem splitAnnotations_braces (h : IsBraces text) : splitAnnotations text = ([], text) := by
  refine splitAnnotations_append (List.forall_mem_nil _) [] fun c hc => ?_
  exact h.forall (p := fun c => Text.isBlank c = false ∧ c ≠ '@' ∧ c ≠ '(') (by decide)
    (by decide) c (List.mem_of_mem_head? hc)

/-- No keyword that starts with a letter stands in front of braces. -/
theorem afterKeyword?_braces {keyword : List Char} (h : IsBraces text)
    (hkeyword : ∃ c, keyword.head? = some c ∧ c.isAlpha = true) :
    afterKeyword? keyword text = none := by
  obtain ⟨c, hc, halpha⟩ := hkeyword
  obtain ⟨keyword, rfl⟩ := List.head?_eq_some_iff.1 hc
  cases text with
  | nil => rfl
  | cons d text =>
    have hd := h.forall (p := fun d => d.isAlpha = false) (by decide) (by decide) d
      List.mem_cons_self
    have hne : c ≠ d := by
      rintro rfl
      rw [halpha] at hd
      cases hd
    simp [afterKeyword?, Text.dropStart?, hne]

/-- The words start with letters. -/
def AreWords (words : List String) : Prop :=
  ∀ w ∈ words, ∃ c, w.toList.head? = some c ∧ c.isAlpha = true

theorem findSome?_braces {words : List String} (h : IsBraces text) (hwords : AreWords words) :
    (words.findSome? fun w => afterKeyword? w.toList text) = none :=
  List.findSome?_eq_none_iff.2 fun w hw => afterKeyword?_braces h (hwords w hw)

theorem dropModifiers_braces {words : List String} (h : IsBraces text) (hwords : AreWords words) :
    dropModifiers words text = text := by
  rw [dropModifiers]
  cases text.length with
  | zero => rfl
  | succ fuel => rw [dropModifiersFrom, findSome?_braces h hwords]

theorem typeForm?_braces (h : IsBraces text) : typeForm? text = none := by
  have hmodifiers : AreWords typeModifiers := by simp [AreWords, typeModifiers]
  have hkinds : AreWords ["class", "interface", "enum", "record"] := by simp [AreWords]
  rw [typeForm?, dropModifiers_braces h hmodifiers, findSome?_braces h hkinds]
  rfl

theorem member?_braces (h : IsBraces text) (path : String) (number : Nat) (s : Scope) :
    member? path number s text = none := by
  have hconstructor : constructorForm? s.name.toList text = none := by
    have hmodifiers : AreWords constructorModifiers := by simp [AreWords, constructorModifiers]
    rw [constructorForm?, dropModifiers_braces h hmodifiers]
    cases text with
    | nil => rfl
    | cons c text =>
      have hc := h.forall (p := fun c => c ≠ '(' ∧ startsName c = false) (by decide) (by decide) c
        List.mem_cons_self
      simp [name?, hc]
  have hbody : ∀ code, methodBody? code text = none := by
    intro code
    have hdrop : text.dropWhile (· != '(') = [] :=
      List.dropWhile_eq_nil_iff.2 (h.forall (by decide) (by decide))
    rw [methodBody?, hdrop]
    rfl
  have hmethod : methodForm? text = none := by
    have hmodifiers : AreWords methodModifiers := by simp [AreWords, methodModifiers]
    have hgeneric : genericMethod? text text = none := by
      cases text with
      | nil => rfl
      | cons c text =>
        have hc := h.forall (p := (· ≠ '<')) (by decide) (by decide) c List.mem_cons_self
        simp [genericMethod?, afterTypeParameters?, hc]
    rw [methodForm?, dropModifiers_braces h hmodifiers, hgeneric]
    exact hbody text
  have hfield : fieldForm? text = none := by
    have hmodifiers : AreWords fieldModifiers := by simp [AreWords, fieldModifiers]
    have hend : ';' ∉ text := fun hmem => by
      rcases h ';' hmem with h | h <;> cases h
    rw [fieldForm?, dropModifiers_braces h hmodifiers]
    rw [if_pos]
    simpa using fun hmem => hend ((List.dropWhile_suffix _).subset hmem)
  rw [member?, hconstructor, hmethod, hfield]
  rfl

theorem declare_braces (h : IsBraces text) (package : Option String) (path : String)
    (number : Nat) (st : State) : declare package path number st text = (none, st.scopes) := by
  rw [declare, typeForm?_braces h]
  cases st.scopes with
  | nil => simp
  | cons s scopes => simp [member?_braces h]

/-- Where some braces lead. -/
def walk (text : List Char) (st : State) : Nat × List Scope :=
  let after := braces text (st.depth, st.scopes)
  (after.1, leave after.1 after.2)

/-- **A line of braces declares nothing**, and leads where its braces lead. -/
theorem step_braces (h : IsBraces text) (hmode : st.mode = .code)
    (hsettled : leave st.depth st.scopes = st.scopes) (package : Option String) (path : String)
    (number : Nat) :
    (step package path number st text).2 = none ∧
      (step package path number st text).1.mode = .code ∧
      ((step package path number st text).1.depth, (step package path number st text).1.scopes) =
        walk text st := by
  have hslash (first : List Char) (hfirst : first.head? = some '/') :
      first.isPrefixOf text = false := by
    obtain ⟨first, rfl⟩ := List.head?_eq_some_iff.1 hfirst
    cases text with
    | nil => rfl
    | cons c text =>
      have hc := h.forall (p := fun c => '/' ≠ c) (by decide) (by decide) c List.mem_cons_self
      simp [List.isPrefixOf, hc]
  simp only [step, hmode, trim_braces h, hslash ['/', '*', '*'] rfl, hslash ['/', '*'] rfl,
    hslash ['/', '/'] rfl, Bool.or_false, Bool.false_eq_true, if_false]
  cases hempty : text.isEmpty with
  | true =>
    rw [List.isEmpty_iff.1 hempty]
    exact ⟨rfl, hmode, Prod.ext rfl hsettled.symm⟩
  | false =>
    simp only [Bool.false_eq_true, if_false, stepCode, stripNoise_braces h,
      splitAnnotations_braces h, trim_braces h, hempty, declare_braces h]
    exact ⟨rfl, trivial, rfl⟩

/-! ## A field and a class -/

/-- A line that declares a field. -/
def fieldLine : List Char :=
  "int x;".toList

/-- The field of that line in a type. -/
def fieldIn (path : String) (number : Nat) (s : Scope) : Element :=
  { kind := .field, name := "x", qualifiedName := s.qualified ++ "." ++ "x", file := path
    line := number, signature := "int x" }

/-- A line that declares a class. -/
def classLine : List Char :=
  "class X".toList

/-- The class of that line outside all types. -/
def classOf (path : String) (number : Nat) : Element :=
  { kind := .type, name := "X", qualifiedName := "X", file := path, line := number
    signature := "class X" }

/-- A line of plain code declares what its text declares. -/
theorem outline_step (hmode : st.mode = .code) (package : Option String) (path : String)
    (number : Nat) (htrim : Text.trim text = text) (hcomment : isComment text = false)
    (hempty : text.isEmpty = false) (hstrip : stripNoise none text = text)
    (hsplit : splitAnnotations text = ([], text)) :
    (step package path number st text).2.map Element.outline =
      (declare package path number st text).1.map Element.outline := by
  rw [isComment, Bool.or_eq_false_iff] at hcomment
  have hdocumentation : ['/', '*', '*'].isPrefixOf text = false := by
    rw [← Bool.not_eq_true]
    intro h
    have := isComment_of_documentation h
    rw [isComment, hcomment.1, hcomment.2] at this
    cases this
  simp only [step, hmode, htrim, hdocumentation, hcomment.1, hcomment.2, hempty, Bool.or_false,
    Bool.false_eq_true, if_false, stepCode, hstrip, hsplit, Option.map_map]
  rfl

/-- **A field is read in the body of the type on top.** -/
theorem outline_field (hmode : st.mode = .code) (package : Option String) (path : String)
    (number : Nat) :
    (step package path number st fieldLine).2.map Element.outline =
      if atMemberLevel st.scopes st.depth then st.scopes.head?.map (fieldIn path number)
      else none := by
  have htype : typeForm? fieldLine = none := by decide +kernel
  have hconstructor (className : List Char) : constructorForm? className fieldLine = none := by
    have hname : name? fieldLine = some ("int".toList, " x;".toList) := by decide +kernel
    rw [constructorForm?, show dropModifiers constructorModifiers fieldLine = fieldLine by
      decide +kernel, if_neg (by decide), hname]
    dsimp only [Option.bind_eq_bind, Option.bind_some]
    split <;> rfl
  have hmethod : methodForm? fieldLine = none := by decide +kernel
  have hfield : (fieldForm? fieldLine).filter (fun f => isType f.type) =
      some { type := "int".toList, name := "x".toList, text := fieldLine } := by decide +kernel
  rw [outline_step hmode package path number (by decide +kernel) (by decide +kernel)
    (by decide +kernel) (by decide +kernel) (by decide +kernel), declare, htype]
  cases hlevel : atMemberLevel st.scopes st.depth with
  | false => rfl
  | true =>
    cases st.scopes with
    | nil => rfl
    | cons s scopes =>
      simp only [member?, hconstructor, hmethod, hfield, Option.filter_none]
      rfl

/-- **A class is read outside all braces** where no type is open. -/
theorem outline_class (hmode : st.mode = .code) (hscopes : st.scopes = []) (path : String)
    (number : Nat) :
    (step none path number st classLine).2.map Element.outline =
      if st.depth = 0 then some (classOf path number) else none := by
  have htype : typeForm? classLine = some { name := "X".toList, text := classLine } := by
    decide +kernel
  rw [outline_step hmode none path number (by decide +kernel) (by decide +kernel)
    (by decide +kernel) (by decide +kernel) (by decide +kernel), declare, htype, hscopes,
    atMemberLevel]
  by_cases hdepth : st.depth = 0
  · have hsignature : String.ofList (Text.collapse classLine) = "class X" := by decide +kernel
    rw [if_pos hdepth, hdepth]
    simp only [hsignature]
    rfl
  · rw [if_neg hdepth, if_pos (by simpa using hdepth)]
    rfl

/-! ## Walks -/

/-- Braces that lead up. -/
def climb (count : Nat) : List Char :=
  List.replicate count '\x7b'

/-- Braces that lead down. -/
def fall (count : Nat) : List Char :=
  List.replicate count '\x7d'

theorem isBraces_climb (count : Nat) : IsBraces (climb count) :=
  fun _ hc => .inl (List.eq_of_mem_replicate hc)

theorem isBraces_fall (count : Nat) : IsBraces (fall count) :=
  fun _ hc => .inr (List.eq_of_mem_replicate hc)

@[simp] theorem foldl_follow_climb (count : Nat) :
    ∀ depth, (climb count).foldl follow depth = depth + count := by
  induction count with
  | zero => exact fun depth => rfl
  | succ count ih =>
    intro depth
    rw [climb, List.replicate_succ, List.foldl_cons, ← climb, ih]
    simp only [follow, if_true]
    omega

@[simp] theorem foldl_follow_fall (count : Nat) :
    ∀ depth, (fall count).foldl follow depth = depth - count := by
  induction count with
  | zero => exact fun depth => rfl
  | succ count ih =>
    intro depth
    rw [fall, List.replicate_succ, List.foldl_cons, ← fall, ih]
    have hdown : follow depth '\x7d' = depth - 1 := rfl
    omega

/-- The way goes on from its peak. -/
theorem peak_le_append (before after : List Char) :
    ∀ depth, peak depth before ≤ peak depth (before ++ after) := by
  induction before with
  | nil => exact fun depth => le_peak depth after
  | cons c before ih =>
    intro depth
    rw [List.cons_append, peak, peak]
    have := ih (follow depth c)
    omega

/-- The way to a depth from another one. -/
def pathTo (level depth : Nat) : List Char :=
  if depth < level then climb (level - depth) else fall (depth - level)

theorem isBraces_pathTo (level depth : Nat) : IsBraces (pathTo level depth) := by
  rw [pathTo]
  split
  · exact isBraces_climb _
  · exact isBraces_fall _

theorem foldl_follow_pathTo (level depth : Nat) : (pathTo level depth).foldl follow depth = level := by
  rw [pathTo]
  split
  · rw [foldl_follow_climb]
    omega
  · rw [foldl_follow_fall]
    omega

/-- From further up the same way ends further up. -/
theorem lt_foldl_follow_pathTo {level other : Nat} (h : depth < other) :
    level < (pathTo level depth).foldl follow other := by
  rw [pathTo]
  split
  · rw [foldl_follow_climb]
    omega
  · rw [foldl_follow_fall]
    omega

/-! ## States told apart -/

/-- What the scopes of a state are like at its depth: each one is inside those
below it, all below the top are open, and the top is open if its body is
reached. -/
structure IsSettled (st : State) : Prop where
  nested : st.scopes.Pairwise fun inner outer => outer.qualified.length < inner.qualified.length
  below : ∀ s ∈ st.scopes.tail, s.opened = true
  top : ∀ s ∈ st.scopes.head?, s.opened = decide (s.bodyDepth ≤ st.depth)
  bodyDepth_pos : ∀ s ∈ st.scopes, 0 < s.bodyDepth

variable {lines : List (List Char)} {n : Nat}

theorem isSettled_stateAfter (package : Option String) (path : String) (hn : n ≤ lines.length) :
    IsSettled (stateAfter package path lines n) := by
  obtain ⟨pairs, hpairs⟩ := exists_holds package path hn
  have hdepth : depthBefore package path lines (n + 1) = (stateAfter package path lines n).depth :=
    rfl
  constructor
  · rw [← hpairs.scopes]
    exact List.pairwise_map.2 (hpairs.stack.nested.imp Encloses.qualified)
  · rw [← hpairs.scopes, ← List.map_tail]
    exact List.forall_mem_map.2 hpairs.stack.below
  · rw [← hpairs.scopes, List.head?_map, ← hdepth]
    exact fun s hs => by
      obtain ⟨x, hx, rfl⟩ := Option.map_eq_some_iff.1 hs
      exact hpairs.stack.top x hx
  · rw [← hpairs.scopes]
    refine List.forall_mem_map.2 fun x hx => ?_
    rw [(hpairs.stack.scopes x hx).bodyDepth]
    exact Nat.succ_pos _

/-- There is nothing to leave. -/
theorem IsSettled.leave_eq (h : IsSettled st) : leave st.depth st.scopes = st.scopes := by
  cases hscopes : st.scopes with
  | nil => rfl
  | cons s rest =>
    have htop := h.top s (by rw [hscopes]; rfl)
    refine List.dropWhile_cons_of_neg ?_
    rw [htop, Bool.and_eq_true, decide_eq_true_eq, decide_eq_true_eq]
    exact fun hclosed => Nat.not_le_of_gt hclosed.2 hclosed.1

/-- What is read of a line of braces and the line behind it. -/
theorem outlines_behind (h : IsSettled st) (hmode : st.mode = .code) (htext : IsBraces text)
    (package : Option String) (path : String) (number : Nat) (line : List Char) :
    ∃ after : State, after.mode = .code ∧ (after.depth, after.scopes) = walk text st ∧
      (readFrom package path st number [text, line]).map Element.outline =
        ((step package path (number + 1) after line).2.map Element.outline).toList := by
  obtain ⟨hnone, hcode, hwalk⟩ := step_braces htext hmode h.leave_eq package path number
  refine ⟨_, hcode, hwalk, ?_⟩
  rw [readFrom_cons, readFrom_cons, hnone, readFrom, List.append_nil, Option.toList_none,
    List.nil_append, Option.toList_map]

/-- **Braces and a field** give the field in the type on top, if they lead into
its body. -/
theorem outlines_field (h : IsSettled st) (hmode : st.mode = .code) (htext : IsBraces text)
    (package : Option String) (path : String) (number : Nat) :
    (readFrom package path st number [text, fieldLine]).map Element.outline =
      (if atMemberLevel (walk text st).2 (walk text st).1 then
        (walk text st).2.head?.map (fieldIn path (number + 1)) else none).toList := by
  obtain ⟨after, hcode, hwalk, hread⟩ := outlines_behind h hmode htext package path number fieldLine
  rw [hread, outline_field hcode, ← hwalk]

/-- **Braces and a class** give the class, if they lead out of all braces and
types. -/
theorem outlines_class (h : IsSettled st) (hmode : st.mode = .code) (htext : IsBraces text)
    (hscopes : (walk text st).2 = []) (path : String) (number : Nat) :
    (readFrom none path st number [text, classLine]).map Element.outline =
      (if (walk text st).1 = 0 then some (classOf path (number + 1)) else none).toList := by
  obtain ⟨after, hcode, hwalk, hread⟩ := outlines_behind h hmode htext none path number classLine
  rw [← hwalk] at hscopes
  rw [hread, outline_class hcode hscopes, ← hwalk]

/-- Where nothing is open nothing comes to be open. -/
theorem walk_nil (text : List Char) (hscopes : st.scopes = []) :
    walk text st = (text.foldl follow st.depth, []) := by
  rw [walk, hscopes, braces_nil, braces_depth]
  rfl

/-- A way that ends in the body of the type on top, or further up, opens the
body and leaves nothing. -/
theorem IsSettled.walk_eq (h : IsSettled st) (hscopes : st.scopes = s :: rest)
    (hend : s.bodyDepth ≤ text.foldl follow st.depth) :
    walk text st = (text.foldl follow st.depth, { s with opened := true } :: rest) := by
  have htop := h.top s (by rw [hscopes]; rfl)
  have hpeak : s.bodyDepth ≤ peak st.depth text := Nat.le_trans hend (foldl_follow_le_peak _ _)
  rw [walk, hscopes, braces_cons text htop, braces_depth, decide_eq_true hpeak]
  refine congrArg (Prod.mk _) (List.dropWhile_cons_of_neg ?_)
  simpa using hend

/-- Up into the body of the type on top and down again leads out of
everything. -/
theorem IsSettled.walk_out (h : IsSettled st) {up down : Nat}
    (hup : ∀ s ∈ st.scopes.head?, s.bodyDepth ≤ up) (hdown : st.depth + up ≤ down) :
    walk (climb up ++ fall down) st = (0, []) := by
  have hend : (climb up ++ fall down).foldl follow st.depth = 0 := by
    rw [List.foldl_append, foldl_follow_climb, foldl_follow_fall]
    omega
  cases hscopes : st.scopes with
  | nil => rw [walk_nil _ hscopes, hend]
  | cons s rest =>
    have hhead : s ∈ st.scopes.head? := by rw [hscopes]; rfl
    have hpeak : s.bodyDepth ≤ peak st.depth (climb up ++ fall down) := by
      have hclimb := foldl_follow_le_peak (climb up) st.depth
      have happend := peak_le_append (climb up) (fall down) st.depth
      have := hup s hhead
      rw [foldl_follow_climb] at hclimb
      omega
    rw [walk, hscopes, braces_cons _ (h.top s hhead), braces_depth, hend, decide_eq_true hpeak]
    have hpos := h.bodyDepth_pos
    have hbelow := h.below
    rw [hscopes] at hpos hbelow
    have hclosed : ∀ t ∈ { s with opened := true } :: rest,
        (t.opened && decide (0 < t.bodyDepth)) = true := by
      refine List.forall_mem_cons.2 ⟨?_, fun t ht => ?_⟩
      · simpa using hpos s List.mem_cons_self
      · simpa [hbelow t ht] using hpos t (List.mem_cons_of_mem _ ht)
    exact congrArg (Prod.mk 0) (List.dropWhile_eq_nil_iff.2 hclosed)

/-- Some braces lead out of everything from either of two states. -/
theorem exists_way_out {st' : State} (h : IsSettled st) (h' : IsSettled st') :
    ∃ text, IsBraces text ∧ walk text st = (0, []) ∧ walk text st' = (0, []) := by
  have hbound (st : State) : ∃ up, ∀ s ∈ st.scopes.head?, s.bodyDepth ≤ up := by
    cases hscopes : st.scopes with
    | nil => exact ⟨0, nofun⟩
    | cons s rest =>
      refine ⟨s.bodyDepth, ?_⟩
      rintro _ ⟨⟩
      exact Nat.le_refl _
  obtain ⟨up, hup⟩ := hbound st
  obtain ⟨up', hup'⟩ := hbound st'
  refine ⟨climb (up + up') ++ fall (st.depth + st'.depth + (up + up')), fun c hc => ?_,
    h.walk_out (fun s hs => ?_) (by omega), h'.walk_out (fun s hs => ?_) (by omega)⟩
  · rcases List.mem_append.1 hc with hc | hc
    · exact isBraces_climb _ c hc
    · exact isBraces_fall _ c hc
  · have := hup s hs
    omega
  · have := hup' s hs
    omega

/-- No lines from a number on tell the states apart. -/
def AreAlike (path : String) (number : Nat) (st st' : State) : Prop :=
  ∀ lines : List (List Char), (∀ line ∈ lines, '\n' ∉ line) →
    (readFrom none path st number lines).map Element.outline =
      (readFrom none path st' number lines).map Element.outline

variable {st' : State}

theorem IsBraces.feed_not_mem (h : IsBraces text) : '\n' ∉ text := fun hfeed => by
  rcases h _ hfeed with h | h <;> cases h

theorem AreAlike.field (h : AreAlike path number st st') (htext : IsBraces text) :
    (readFrom none path st number [text, fieldLine]).map Element.outline =
      (readFrom none path st' number [text, fieldLine]).map Element.outline :=
  h _ (List.forall_mem_cons.2 ⟨htext.feed_not_mem,
    List.forall_mem_singleton.2 (by decide +kernel)⟩)

theorem AreAlike.class (h : AreAlike path number st st') (htext : IsBraces text) :
    (readFrom none path st number [text, classLine]).map Element.outline =
      (readFrom none path st' number [text, classLine]).map Element.outline :=
  h _ (List.forall_mem_cons.2 ⟨htext.feed_not_mem,
    List.forall_mem_singleton.2 (by decide +kernel)⟩)

theorem toList_injective {α : Type} {a b : Option α} (h : a.toList = b.toList) : a = b := by
  cases a <;> cases b <;> simp_all

/-- **Braces show where no type is open**: they lead from one depth to the
outside, from the other one not. -/
theorem AreAlike.depth_eq_of_nil (h : AreAlike path number st st') (hst : IsSettled st)
    (hst' : IsSettled st') (hmode : st.mode = .code) (hmode' : st'.mode = .code)
    (hscopes : st.scopes = []) (hscopes' : st'.scopes = []) : st.depth = st'.depth := by
  have hfall (count : Nat) : st.depth - count = 0 ↔ st'.depth - count = 0 := by
    have hclass := h.class (isBraces_fall count)
    rw [outlines_class hst hmode (isBraces_fall count) (by rw [walk_nil _ hscopes]),
      outlines_class hst' hmode' (isBraces_fall count) (by rw [walk_nil _ hscopes']),
      walk_nil _ hscopes, walk_nil _ hscopes', foldl_follow_fall, foldl_follow_fall] at hclass
    have := toList_injective hclass
    constructor <;> intro hzero <;> simp_all
  have hleft := hfall st.depth
  have hright := hfall st'.depth
  omega

/-- The field of a state that is led into the body of its type on top. -/
theorem IsSettled.outlines_top (h : IsSettled st) (hmode : st.mode = .code)
    (hscopes : st.scopes = s :: rest) (path : String) (number : Nat) :
    (readFrom none path st number [pathTo s.bodyDepth st.depth, fieldLine]).map Element.outline =
      [fieldIn path (number + 1) s] := by
  rw [outlines_field h hmode (isBraces_pathTo _ _), h.walk_eq hscopes
    (Nat.le_of_eq (foldl_follow_pathTo _ _).symm), foldl_follow_pathTo]
  simp [atMemberLevel, fieldIn]

/-- Further up there is no field. -/
theorem IsSettled.outlines_above (h : IsSettled st) (hmode : st.mode = .code)
    (hscopes : st.scopes = s :: rest) (hlt : depth < st.depth) (path : String) (number : Nat) :
    (readFrom none path st number [pathTo s.bodyDepth depth, fieldLine]).map Element.outline =
      [] := by
  have habove : s.bodyDepth < (pathTo s.bodyDepth depth).foldl follow st.depth :=
    lt_foldl_follow_pathTo hlt
  rw [outlines_field h hmode (isBraces_pathTo _ _), h.walk_eq hscopes (Nat.le_of_lt habove),
    if_neg]
  · rfl
  · simpa [atMemberLevel] using Nat.ne_of_lt habove

/-- **Braces and a field show how deep a state is** in the type on top. -/
theorem AreAlike.depth_eq_of_cons {s' : Scope} {rest' : List Scope}
    (h : AreAlike path number st st') (hst : IsSettled st)
    (hst' : IsSettled st') (hmode : st.mode = .code) (hmode' : st'.mode = .code)
    (hscopes : st.scopes = s :: rest) (hscopes' : st'.scopes = s' :: rest')
    (hbody : s.bodyDepth = s'.bodyDepth) : st.depth = st'.depth := by
  rcases Nat.lt_trichotomy st.depth st'.depth with hlt | heq | hlt
  · have hfield := h.field (isBraces_pathTo s.bodyDepth st.depth)
    rw [hst.outlines_top hmode hscopes, hbody, hst'.outlines_above hmode' hscopes' hlt] at hfield
    cases hfield
  · exact heq
  · have hfield := h.field (isBraces_pathTo s'.bodyDepth st'.depth)
    rw [hst'.outlines_top hmode' hscopes', ← hbody, hst.outlines_above hmode hscopes hlt] at hfield
    cases hfield

/-- **Braces and a field show which type is on top**: no type around it has so
long a name. -/
theorem AreAlike.not_subset (h : AreAlike path number st st') (hst : IsSettled st)
    (hst' : IsSettled st') (hmode : st.mode = .code) (hmode' : st'.mode = .code)
    (hscopes : st.scopes = s :: rest) (hsub : st'.scopes ⊆ rest) : False := by
  have hbraces := isBraces_pathTo s.bodyDepth st.depth
  have hfield := h.field hbraces
  rw [hst.outlines_top hmode hscopes, outlines_field hst' hmode' hbraces] at hfield
  split at hfield
  · cases hhead : (walk (pathTo s.bodyDepth st.depth) st').2.head? with
    | none =>
      rw [hhead] at hfield
      cases hfield
    | some t =>
      rw [hhead] at hfield
      have hkeeps := (keeps_braces (pathTo s.bodyDepth st.depth) st'.depth st'.scopes).trans
        (keeps_leave (walk (pathTo s.bodyDepth st.depth) st').1 _)
      obtain ⟨u, hu, hq, -⟩ := hkeeps t (List.mem_of_mem_head? hhead)
      have hnested := hst.nested
      rw [hscopes] at hnested
      have hlonger := (List.pairwise_cons.1 hnested).1 u (hsub hu)
      have hsame : s.qualified ++ "." ++ "x" = t.qualified ++ "." ++ "x" :=
        congrArg Element.qualifiedName (List.singleton_inj.1 hfield)
      have hlength := congrArg String.length hsame
      simp only [String.length_append] at hlength
      rw [hq] at hlonger
      omega
  · cases hfield

/-- **The code of a line shows**: where no lines tell the state behind it from
the state before it, the two are the same. -/
theorem AreAlike.eq {code : List Char} (h : AreAlike path number st st') (hst : IsSettled st)
    (hst' : IsSettled st') (hmode : st.mode = .code) (hmode' : st'.mode = .code)
    (hdepth : st'.depth = code.foldl follow st.depth)
    (hleave : st'.scopes = leave st'.depth (braces code (st.depth, st.scopes)).2) :
    Agree st' st := by
  cases hscopes : st.scopes with
  | nil =>
    rw [hscopes, braces_nil] at hleave
    have hscopes' : st'.scopes = [] := hleave
    exact ⟨hmode'.trans hmode.symm, hscopes'.trans hscopes.symm,
      (h.depth_eq_of_nil hst hst' hmode hmode' hscopes hscopes').symm⟩
  | cons s rest =>
    have htop := hst.top s (by rw [hscopes]; rfl)
    have hle := le_peak st.depth code
    rw [hscopes, braces_cons code htop] at hleave
    by_cases hclosed : s.bodyDepth ≤ peak st.depth code ∧ st'.depth < s.bodyDepth
    · rw [leave, List.dropWhile_cons_of_pos (by simpa using hclosed)] at hleave
      refine (h.not_subset hst hst' hmode hmode' hscopes ?_).elim
      rw [hleave]
      exact (List.dropWhile_suffix _).subset
    · rw [leave, List.dropWhile_cons_of_neg (by simpa using hclosed)] at hleave
      have heq := h.depth_eq_of_cons hst hst' hmode hmode' hscopes hleave rfl
      refine ⟨hmode'.trans hmode.symm, ?_, heq.symm⟩
      have hopened : decide (s.bodyDepth ≤ peak st.depth code) = s.opened := by
        rw [htop, decide_eq_decide]
        omega
      rw [hleave, hscopes, hopened]

end Docsmith.Source.Lines.Java
