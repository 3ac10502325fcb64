import Docsmith.Proofs.Diagram.Qualifiers
import Docsmith.Proofs.Source.Places
import Docsmith.Proofs.Text.Trim
/-!
# Diagrams — the places of qualifiers

A place of a text is dropped if it lies in a qualifier or on the dot behind one
(`InQualifier`), and the characters at all other places stay
(`dropQualifiers_eq_keptAt`).

Here qualifiers are dropped by a loop over indices too, which looks one character back
and two characters ahead, and every look can fail (`unqualifiedAt?`). None fails on any
text, the loop comes to its end, and it drops the same characters (`unqualifiedAt?_eq`).
-/


namespace Docsmith.Diagram

open Docsmith.Text Docsmith.Unicode
open Source (Turn loop loop_again loop_leave)

variable {text front name after kept : List Char} {c : Char} {inside clear : Bool} {i : Nat}

/-! ## Characters by their places -/

section Kept

variable (drops : Nat → Prop) [DecidablePred drops]

/-- The characters of a text at the places that are not dropped. -/
def keptAt (text : List Char) : List Char :=
  (text.zipIdx.filter fun place => ¬ drops place.2).map (·.1)

@[simp] theorem keptAt_nil : keptAt drops [] = [] := rfl

theorem keptAt_cons (c : Char) (text : List Char) : keptAt drops (c :: text) =
    (if drops 0 then [] else [c]) ++ keptAt (fun i => drops (i + 1)) text := by
  have hshift : (text.zipIdx 1) = text.zipIdx.map fun place => (place.1, place.2 + 1) :=
    List.zipIdx_succ
  rw [keptAt, List.zipIdx_cons, hshift, List.filter_cons, List.filter_map, apply_ite (List.map _)]
  by_cases h : drops 0
  · simp [h, keptAt, Function.comp_def]
  · simp [h, keptAt, Function.comp_def]

theorem keptAt_append (front text : List Char) : keptAt drops (front ++ text) =
    keptAt drops front ++ keptAt (fun i => drops (front.length + i)) text := by
  induction front generalizing drops with
  | nil => simp
  | cons c front ih =>
    simp only [List.cons_append, keptAt_cons, ih, List.append_assoc, List.length_cons,
      Nat.add_right_comm _ _ 1]

variable {drops}

theorem keptAt_congr {others : Nat → Prop} [DecidablePred others] (h : ∀ i, drops i ↔ others i)
    (text : List Char) : keptAt drops text = keptAt others text := by
  simp only [keptAt, h]

/-- Nothing stays where every place is dropped. -/
theorem keptAt_eq_nil (h : ∀ i < text.length, drops i) : keptAt drops text = [] := by
  induction text generalizing drops with
  | nil => rfl
  | cons c text ih =>
    rw [keptAt_cons, if_pos (h 0 (Nat.succ_pos _)), List.nil_append]
    exact ih fun i hi => h (i + 1) (Nat.succ_lt_succ hi)

end Kept

/-! ## Places in qualifiers -/

/-- The place lies in a qualifier or on the dot behind it. -/
def InQualifier (inside : Bool) (text : List Char) (i : Nat) : Prop :=
  ∃ before name after, text = before ++ name ++ '.' :: after ∧
    IsQualifier inside before name after ∧ before.length ≤ i ∧ i ≤ before.length + name.length

theorem isIdentChar_dot : isIdentChar '.' = false := by decide +kernel

theorem not_inQualifier_nil : ¬ InQualifier inside [] i := by
  rintro ⟨before, name, after, heq, -⟩
  simp at heq

/-- **A qualifier starts with the first character, or it stands behind it.** -/
theorem inQualifier_cons : InQualifier inside (c :: text) i ↔
    (opensQualifier inside c text = true ∧ i ≤ (text.takeWhile isIdentChar).length + 1) ∨
      ∃ j, i = j + 1 ∧ InQualifier (isIdentChar c) text j := by
  constructor
  · rintro ⟨before, name, after, heq, hq, hfrom, hto⟩
    cases before with
    | nil =>
      refine .inl ⟨opensQualifier_iff.2 ⟨name, after, heq, hq⟩, ?_⟩
      obtain ⟨d, hd, -⟩ := hq.starts
      obtain ⟨more, rfl⟩ := List.head?_eq_some_iff.1 hd
      obtain ⟨rfl, rfl⟩ : c = d ∧ text = more ++ '.' :: after := by simpa using heq
      rw [takeWhile_append_cons _ (List.forall_mem_cons.1 hq.ident).2 isIdentChar_dot]
      simpa using hto
    | cons d before =>
      obtain ⟨rfl, rfl⟩ : c = d ∧ text = before ++ name ++ '.' :: after := by simpa using heq
      rw [List.length_cons] at hfrom hto
      exact .inr ⟨i - 1, by omega, before, name, after, rfl, isQualifier_cons.1 hq, by omega,
        by omega⟩
  · rintro (⟨hopens, hi⟩ | ⟨j, rfl, before, name, after, rfl, hq, hfrom, hto⟩)
    · obtain ⟨name, after, heq, hq⟩ := opensQualifier_iff.1 hopens
      obtain ⟨d, hd, -⟩ := hq.starts
      obtain ⟨more, rfl⟩ := List.head?_eq_some_iff.1 hd
      obtain ⟨rfl, rfl⟩ : c = d ∧ text = more ++ '.' :: after := by simpa using heq
      rw [takeWhile_append_cons _ (List.forall_mem_cons.1 hq.ident).2 isIdentChar_dot] at hi
      exact ⟨[], c :: more, after, rfl, hq, Nat.zero_le i, by simpa using hi⟩
    · refine ⟨c :: before, name, after, rfl, isQualifier_cons.2 hq, ?_, ?_⟩
      · exact Nat.succ_le_succ hfrom
      · rw [List.length_cons]
        omega

instance decidableInQualifier : ∀ (inside : Bool) (text : List Char) (i : Nat),
    Decidable (InQualifier inside text i)
  | _, [], _ => isFalse not_inQualifier_nil
  | inside, c :: text, 0 => decidable_of_iff (opensQualifier inside c text = true)
      ⟨fun h => inQualifier_cons.2 (.inl ⟨h, Nat.zero_le _⟩), fun h =>
        (inQualifier_cons.1 h).elim And.left fun ⟨_, heq, _⟩ => nomatch heq⟩
  | inside, c :: text, i + 1 =>
    have := decidableInQualifier (isIdentChar c) text i
    decidable_of_iff ((opensQualifier inside c text = true ∧
        i + 1 ≤ (text.takeWhile isIdentChar).length + 1) ∨ InQualifier (isIdentChar c) text i)
      ⟨fun h => inQualifier_cons.2 (h.imp_right fun h => ⟨i, rfl, h⟩), fun h =>
        (inQualifier_cons.1 h).imp_right fun ⟨_, heq, h⟩ => Nat.succ.inj heq ▸ h⟩

/-- Behind a character that opens no qualifier. -/
theorem inQualifier_succ (hopens : opensQualifier inside c text = false) :
    InQualifier inside (c :: text) (i + 1) ↔ InQualifier (isIdentChar c) text i := by
  rw [inQualifier_cons, hopens]
  simp

/-- In the middle of an identifier no qualifier starts. -/
theorem inQualifier_ident (h : ∀ c ∈ name, isIdentChar c = true) :
    InQualifier true (name ++ text) (name.length + i) ↔ InQualifier true text i := by
  induction name with
  | nil => simp
  | cons c name ih =>
    obtain ⟨hc, hname⟩ := List.forall_mem_cons.1 h
    rw [List.cons_append, List.length_cons, Nat.add_right_comm, inQualifier_succ rfl, hc, ih hname]

/-- **Behind the dot of a qualifier the text starts anew.** -/
theorem inQualifier_behind (hopens : opensQualifier inside c (name ++ '.' :: after) = true)
    (hname : ∀ c ∈ name, isIdentChar c = true) :
    InQualifier inside (c :: name ++ '.' :: after) (name.length + 2 + i) ↔
      InQualifier false after i := by
  have hc : isIdentChar c = true := isIdentChar_of_startsIdent
    (Bool.and_eq_true_iff.1 (Bool.and_eq_true_iff.1 hopens).1).2
  have hplace : name.length + 2 + i = (name.length + (i + 1)) + 1 := by omega
  rw [List.cons_append, inQualifier_cons, takeWhile_append_cons _ hname isIdentChar_dot, hplace]
  constructor
  · rintro (⟨-, hle⟩ | ⟨j, hj, h⟩)
    · omega
    · rwa [← Nat.succ.inj hj, hc, inQualifier_ident hname, inQualifier_succ rfl,
        isIdentChar_dot] at h
  · intro h
    refine .inr ⟨_, rfl, ?_⟩
    rwa [hc, inQualifier_ident hname, inQualifier_succ rfl, isIdentChar_dot]

/-- A qualifier at the start is a name, and a dot is behind it. -/
theorem exists_of_opensQualifier (h : opensQualifier inside c text = true) :
    ∃ name after, text = name ++ '.' :: after ∧ (∀ d ∈ name, isIdentChar d = true) ∧
      (text.dropWhile isIdentChar).drop 1 = after := by
  obtain ⟨d, rest, hrest, -⟩ := qualifies_iff.1 (Bool.and_eq_true_iff.1 h).2
  refine ⟨text.takeWhile isIdentChar, d :: rest, ?_, List.all_eq_true.1 List.all_takeWhile, ?_⟩
  · rw [← hrest, List.takeWhile_append_dropWhile]
  · rw [hrest, List.drop_one, List.tail_cons]

/-- **What stays are the characters outside of qualifiers.** -/
theorem dropQualifiers_eq_keptAt (inside : Bool) (text : List Char) :
    dropQualifiers inside text = keptAt (InQualifier inside text) text := by
  induction inside, text using qualifier_induction with
  | nil inside => rw [dropQualifiers_nil, keptAt_nil]
  | drop inside c text hopens ih =>
    obtain ⟨name, after, rfl, hname, hafter⟩ := exists_of_opensQualifier hopens
    have hdropped : ∀ i < (c :: name ++ ['.']).length,
        InQualifier inside (c :: (name ++ '.' :: after)) i := by
      intro i hi
      rw [List.length_append, List.length_cons, List.length_singleton] at hi
      rw [inQualifier_cons, takeWhile_append_cons _ hname isIdentChar_dot]
      exact .inl ⟨hopens, by omega⟩
    have hbehind : ∀ i, InQualifier inside (c :: (name ++ '.' :: after))
        ((c :: name ++ ['.']).length + i) ↔ InQualifier false after i := by
      intro i
      simpa using inQualifier_behind (i := i) hopens hname
    have hlist : c :: (name ++ '.' :: after) = (c :: name ++ ['.']) ++ after := by simp
    calc dropQualifiers inside (c :: (name ++ '.' :: after))
        = dropQualifiers false after := by rw [dropQualifiers_cons, if_pos hopens, hafter]
      _ = keptAt (InQualifier false after) after := by rw [← hafter, ih]
      _ = keptAt (InQualifier inside (c :: (name ++ '.' :: after)))
          ((c :: name ++ ['.']) ++ after) := by
        rw [keptAt_append, keptAt_eq_nil hdropped, List.nil_append, keptAt_congr hbehind]
      _ = keptAt (InQualifier inside (c :: (name ++ '.' :: after)))
          (c :: (name ++ '.' :: after)) := by rw [hlist]
  | keep inside c text hopens ih =>
    have hfirst : ¬ InQualifier inside (c :: text) 0 := by
      rw [inQualifier_cons, hopens]
      simp
    rw [dropQualifiers_cons, hopens, keptAt_cons, if_neg hfirst,
      keptAt_congr fun i => inQualifier_succ hopens, ih]
    rfl

/-! ## By indices -/

/-- A turn over an identifier goes on from a character of it. -/
def identTurn (chars : List Char) (i : Nat) : Option (Turn Nat Nat) :=
  if i < chars.length then do
    let c ← chars[i]?
    some (if isIdentChar c then .again (i + 1) else .leave i)
  else some (.leave i)

/-- The index behind the identifier characters from an index on. -/
def identEnd? (chars : List Char) (i : Nat) : Option Nat :=
  loop (identTurn chars) (chars.length + 1) i

/-- Something of an identifier stands before the index. -/
def insideAt? (chars : List Char) (i : Nat) : Option Bool :=
  if i = 0 then some false else (chars[i - 1]?).map isIdentChar

/-- A dot stands at the index, and the start of an identifier behind it. -/
def qualifiesAt? (chars : List Char) (i : Nat) : Option Bool :=
  if i + 1 < chars.length then do
    let dot ← chars[i]?
    if dot = '.' then (chars[i + 1]?).map startsIdent else some false
  else some false

/-- The characters between two indices. -/
def between? (chars : List Char) (start stop : Nat) : Option (List Char) :=
  if start ≤ stop ∧ stop ≤ chars.length then some ((chars.take stop).drop start) else none

/-- A turn from an index, with what was kept before it. -/
def qualifierTurn (chars : List Char) :
    Nat × List Char → Option (Turn (Nat × List Char) (List Char))
  | (i, kept) =>
    if i < chars.length then do
      let c ← chars[i]?
      let inside ← insideAt? chars i
      if !inside && startsIdent c then
        let stop ← identEnd? chars i
        let qualified ← qualifiesAt? chars stop
        if qualified then some (.again (stop + 1, kept))
        else
          let name ← between? chars i stop
          some (.again (stop, kept ++ name))
      else some (.again (i + 1, kept ++ [c]))
    else some (.leave kept)

/-- Without qualifiers, by indices: a turn for each character at most, and one at the
end. -/
def unqualifiedAt? (text : String) : Option (List Char) :=
  loop (qualifierTurn text.toList) (text.toList.length + 1) (0, [])

theorem loop_identTurn (front : List Char) {text : List Char} {turns : Nat}
    (h : text.length < turns) : loop (identTurn (front ++ text)) turns front.length =
      some (front.length + (text.takeWhile isIdentChar).length) := by
  induction text generalizing front turns with
  | nil =>
    obtain ⟨turns, rfl⟩ := Nat.exists_eq_add_of_lt h
    rw [loop_leave (r := front.length)]
    · rfl
    · simp [identTurn]
  | cons c text ih =>
    obtain ⟨turns, rfl⟩ : ∃ n, turns = n + 1 := ⟨turns - 1, by omega⟩
    have hget : (front ++ c :: text)[front.length]? = some c := by simp
    have hturn : identTurn (front ++ c :: text) front.length =
        some (if isIdentChar c then .again (front.length + 1) else .leave front.length) := by
      simp [identTurn]
    cases hc : isIdentChar c with
    | false =>
      rw [loop_leave (hturn.trans (by rw [hc]; rfl)), List.takeWhile_cons_of_neg (by simp [hc])]
      rfl
    | true =>
      have hnext := ih (front ++ [c]) (Nat.lt_of_succ_lt_succ h)
      rw [List.append_assoc, List.length_append] at hnext
      rw [loop_again (hturn.trans (by rw [hc]; rfl)), List.takeWhile_cons_of_pos hc]
      simpa [Nat.add_assoc, Nat.add_comm 1] using hnext

theorem identEnd?_append (front text : List Char) : identEnd? (front ++ text) front.length =
    some (front.length + (text.takeWhile isIdentChar).length) :=
  loop_identTurn front (by rw [List.length_append]; omega)

theorem insideAt?_append (front text : List Char) :
    insideAt? (front ++ text) front.length = some (!lastClear true front) := by
  rcases List.eq_nil_or_concat front with rfl | ⟨init, last, rfl⟩
  · rfl
  · simp [insideAt?, lastClear]

theorem qualifiesAt?_append (front text : List Char) :
    qualifiesAt? (front ++ text) front.length = some (qualifies text) := by
  rcases text with _ | ⟨c, _ | ⟨d, text⟩⟩
  · simp [qualifiesAt?, qualifies]
  · simp [qualifiesAt?, qualifies]
  · by_cases hc : c = '.' <;> simp [qualifiesAt?, qualifies, hc]

theorem between?_append (front name text : List Char) :
    between? (front ++ (name ++ text)) front.length (front.length + name.length) = some name := by
  rw [between?, if_pos ⟨Nat.le_add_right _ _, by simp⟩, ← List.length_append, ← List.append_assoc,
    List.take_left, List.drop_left]

/-- What follows an identifier stands inside of one. -/
theorem lastClear_ident (hne : name ≠ []) (h : ∀ c ∈ name, isIdentChar c = true) :
    lastClear clear name = false := by
  rw [lastClear, List.getLast?_eq_some_getLast hne, Option.map_some, h _ (List.getLast_mem hne)]
  rfl

/-- **What a turn does**: it passes an identifier, with its dot or into what is kept, or
keeps one character. -/
theorem qualifierTurn_append (front kept : List Char) (c : Char) (text : List Char) :
    qualifierTurn (front ++ c :: text) (front.length, kept) = some (.again (
      if lastClear true front && startsIdent c then
        if qualifies (text.dropWhile isIdentChar) then
          (front.length + (c :: text.takeWhile isIdentChar).length + 1, kept)
        else (front.length + (c :: text.takeWhile isIdentChar).length,
          kept ++ c :: text.takeWhile isIdentChar)
      else (front.length + 1, kept ++ [c]))) := by
  have hlt : front.length < (front ++ c :: text).length := by simp
  have hget : (front ++ c :: text)[front.length]? = some c := by simp
  simp only [qualifierTurn, if_pos hlt, hget, insideAt?_append, Bool.not_not, Option.bind_eq_bind,
    Option.bind_some]
  cases hstart : lastClear true front && startsIdent c with
  | false => rfl
  | true =>
    have hc := isIdentChar_of_startsIdent (Bool.and_eq_true_iff.1 hstart).2
    have hcut : front ++ c :: text = front ++ (c :: text.takeWhile isIdentChar ++
        text.dropWhile isIdentChar) := by
      rw [List.cons_append, List.takeWhile_append_dropWhile]
    have hqualifies : qualifiesAt? (front ++ c :: text)
        (front.length + (c :: text.takeWhile isIdentChar).length) =
          some (qualifies (text.dropWhile isIdentChar)) := by
      rw [hcut, ← List.append_assoc, ← List.length_append, qualifiesAt?_append]
    have hbetween : between? (front ++ c :: text) front.length
        (front.length + (c :: text.takeWhile isIdentChar).length) =
          some (c :: text.takeWhile isIdentChar) := by
      rw [hcut, between?_append]
    simp only [identEnd?_append, List.takeWhile_cons_of_pos hc, hqualifies, hbetween,
      Option.bind_some, if_pos]
    split_ifs <;> rfl

/-- **From every index on the loop drops the qualifiers that are left**, with a turn for
each character and one more. -/
theorem loop_qualifierTurn (front kept : List Char) {text : List Char} {turns : Nat}
    (h : text.length < turns) :
    loop (qualifierTurn (front ++ text)) turns (front.length, kept) =
      some (kept ++ dropQualifiers (!lastClear true front) text) := by
  induction turns generalizing front kept text with
  | zero => cases h
  | succ turns ih =>
    cases text with
    | nil =>
      rw [loop_leave (r := kept) (by simp [qualifierTurn]), dropQualifiers_nil, List.append_nil]
    | cons c text =>
      have hlength := Nat.lt_of_succ_lt_succ h
      rw [loop_again (qualifierTurn_append front kept c text), dropQualifiers, Bool.not_not]
      cases hstart : lastClear true front && startsIdent c with
      | false =>
        have hnext := ih (front ++ [c]) (kept ++ [c]) hlength
        rw [lastClear_append, lastClear_cons] at hnext
        simpa [lastClear] using hnext
      | true =>
        have hname : ∀ d ∈ c :: text.takeWhile isIdentChar, isIdentChar d = true :=
          List.forall_mem_cons.2 ⟨isIdentChar_of_startsIdent (Bool.and_eq_true_iff.1 hstart).2,
            List.all_eq_true.1 List.all_takeWhile⟩
        -- the turn goes to the end of the identifier, so fewer characters are left
        have hcut := List.takeWhile_append_dropWhile (p := isIdentChar) (l := text)
        have hshort := congrArg List.length hcut
        rw [List.length_append] at hshort
        cases hq : qualifies (text.dropWhile isIdentChar) with
        | false =>
          have hless : (text.dropWhile isIdentChar).length < turns := by omega
          have hnext := ih (front ++ c :: text.takeWhile isIdentChar)
            (kept ++ c :: text.takeWhile isIdentChar) hless
          rw [lastClear_append, lastClear_ident (List.cons_ne_nil _ _) hname] at hnext
          simpa [hcut, hq] using hnext
        | true =>
          obtain ⟨d, after, hrest, -⟩ := qualifies_iff.1 hq
          rw [hrest, List.length_cons] at hshort
          -- behind the dot nothing of an identifier stands in front
          have hless : (d :: after).length < turns := by omega
          have hnext := ih (front ++ (c :: text.takeWhile isIdentChar ++ ['.'])) kept hless
          rw [lastClear_append, lastClear_append _ _ ['.'], lastClear_cons, isIdentChar_dot]
            at hnext
          have hlist : front ++ (c :: text.takeWhile isIdentChar ++ ['.']) ++ d :: after =
              front ++ c :: text := by
            conv_rhs => rw [← hcut, hrest]
            simp
          rw [hlist] at hnext
          rw [hrest] at hq ⊢
          simpa [hq, lastClear, Nat.add_assoc] using hnext

/-- **No look of the loop fails, it comes to its end and drops the qualifiers.** -/
theorem unqualifiedAt?_eq (text : String) :
    unqualifiedAt? text = some (stripQualifiers text).toList := by
  rw [stripQualifiers, String.toList_ofList]
  exact loop_qualifierTurn [] [] (Nat.lt_succ_self _)

/-- **Exactly the qualifiers are dropped.** A loop over indices that may fail at each look
comes to its end without a failure; what it gives are the characters outside of
qualifiers, and in it there are none. A second time nothing is dropped, and of a text
nothing at all if no qualifier stands in it. -/
theorem qualifiers_dropped (text : String) :
    unqualifiedAt? text = some (stripQualifiers text).toList ∧
    (stripQualifiers text).toList = keptAt (InQualifier false text.toList) text.toList ∧
    IsUnqualified false (stripQualifiers text).toList ∧
    stripQualifiers (stripQualifiers text) = stripQualifiers text ∧
    (stripQualifiers text = text ↔ IsUnqualified false text.toList) := by
  have hchars : (stripQualifiers text).toList = dropQualifiers false text.toList :=
    String.toList_ofList
  have hclean : IsUnqualified false (stripQualifiers text).toList := by
    rw [hchars]
    exact isUnqualified_dropQualifiers false text.toList
  have hkeeps : ∀ other : String, IsUnqualified false other.toList →
      stripQualifiers other = other := by
    intro other h
    rw [stripQualifiers, dropQualifiers_of_isUnqualified h, String.ofList_toList]
  refine ⟨unqualifiedAt?_eq text, ?_, hclean, hkeeps _ hclean, fun h => ?_, hkeeps text⟩
  · rw [hchars, dropQualifiers_eq_keptAt]
  · rwa [h] at hclean

/-- A chain loses all but its last name. A number has no qualifier, and a dot that no name
follows makes none. -/
example : dropQualifiers false "a.b2._c x1.5 1.5 a..b. 2a.b Map<k.V>".toList =
    "_c x1.5 1.5 a..b. 2a.b Map<V>".toList := by
  rw [dropQualifiers_eq_keptAt]
  decide +kernel

end Docsmith.Diagram
