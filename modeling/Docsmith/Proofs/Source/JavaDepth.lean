import Docsmith.Proofs.Source.JavaLines
/-!
# Java — the depth of braces

The braces of a line's code lead from one depth to another, over a greatest
depth on the way (`peak`). They touch the scope on top only: it is open behind
them if its body was reached before or on the way (`braces_cons`). The reader's
state before a line is the run of its steps over the lines in front, and what
is read of the lines is what those steps give (`mem_readOf_iff`).
-/


namespace Docsmith.Source.Lines.Java

/-! ## Braces -/

/-- The depth behind a character. -/
def follow (depth : Nat) (c : Char) : Nat :=
  if c = '\x7b' then depth + 1 else if c = '\x7d' then depth - 1 else depth

/-- The greatest depth on the way through a text. -/
def peak : Nat → List Char → Nat
  | depth, [] => depth
  | depth, c :: text => max depth (peak (follow depth c) text)

variable {depth high : Nat} {s : Scope} {scopes rest : List Scope}

theorem le_peak (depth : Nat) (text : List Char) : depth ≤ peak depth text := by
  cases text with
  | nil => exact Nat.le_refl depth
  | cons c text => exact Nat.le_max_left _ _

/-- The way ends no higher than its peak. -/
theorem foldl_follow_le_peak (text : List Char) :
    ∀ depth, text.foldl follow depth ≤ peak depth text := by
  induction text with
  | nil => exact fun depth => Nat.le_refl depth
  | cons c text ih => exact fun depth => Nat.le_trans (ih _) (Nat.le_max_right _ _)

theorem braces_depth (text : List Char) :
    ∀ depth scopes, (braces text (depth, scopes)).1 = text.foldl follow depth := by
  induction text with
  | nil => exact fun depth scopes => rfl
  | cons c text ih =>
    intro depth scopes
    simp only [braces, List.foldl_cons, follow]
    split_ifs <;> exact ih _ _

theorem braces_nil (text : List Char) : ∀ depth, (braces text (depth, [])).2 = [] := by
  induction text with
  | nil => exact fun depth => rfl
  | cons c text ih =>
    intro depth
    simp only [braces, openAt]
    split_ifs <;> exact ih _

/-- By induction on the text, where the depth was at most `high` so far: the
scope on top is open if its body was reached until now. -/
theorem braces_cons_of_le (text : List Char) :
    ∀ depth high (s : Scope), depth ≤ high → s.opened = decide (s.bodyDepth ≤ high) →
      (braces text (depth, s :: rest)).2 =
        { s with opened := decide (s.bodyDepth ≤ max high (peak depth text)) } :: rest := by
  induction text with
  | nil =>
    intro depth high s hle hopened
    rw [peak, Nat.max_eq_left hle, ← hopened]
    rfl
  | cons c text ih =>
    intro depth high s hle hopened
    have hpeak : max high (peak depth (c :: text)) =
        max (max high (follow depth c)) (peak (follow depth c) text) := by
      have := le_peak (follow depth c) text
      rw [peak]
      omega
    rw [hpeak]
    simp only [braces]
    split_ifs with hup hdown
    · -- a step up reaches the body if nothing did before
      have hfollow : follow depth c = depth + 1 := if_pos hup
      rw [hfollow, openAt]
      split_ifs with hopens
      · simp only [hopened, Bool.and_eq_true, Bool.not_eq_true', decide_eq_false_iff_not,
          beq_iff_eq] at hopens
        refine ih (depth + 1) (max high (depth + 1)) { s with opened := true } (by omega) ?_
        rw [eq_comm, decide_eq_true_eq]
        change s.bodyDepth ≤ max high (depth + 1)
        omega
      · refine ih (depth + 1) (max high (depth + 1)) s (by omega) ?_
        simp only [hopened, Bool.and_eq_true, Bool.not_eq_true', decide_eq_false_iff_not,
          beq_iff_eq, not_and] at hopens
        rw [hopened, decide_eq_decide]
        by_cases hreached : s.bodyDepth ≤ high
        · omega
        · have := hopens hreached
          omega
    · have hfollow : follow depth c = depth - 1 := by rw [follow, if_neg hup, if_pos hdown]
      have hhigh : max high (depth - 1) = high := by omega
      rw [hfollow, hhigh]
      exact ih _ _ s (by omega) hopened
    · have hfollow : follow depth c = depth := by rw [follow, if_neg hup, if_neg hdown]
      have hhigh : max high depth = high := Nat.max_eq_left hle
      rw [hfollow, hhigh]
      exact ih _ _ s hle hopened

/-- **The scope on top is open behind a line if its body was reached.** -/
theorem braces_cons (text : List Char) (hopened : s.opened = decide (s.bodyDepth ≤ depth)) :
    (braces text (depth, s :: rest)).2 =
      { s with opened := decide (s.bodyDepth ≤ peak depth text) } :: rest := by
  rw [braces_cons_of_le text depth depth s (Nat.le_refl depth) hopened,
    Nat.max_eq_right (le_peak depth text)]

/-- All that a line can do, where nothing is to be left before it: it declares
something perhaps, then its braces are followed and what they close is left. -/
theorem step_leaves {st : State} (package : Option String) (path : String) (number : Nat)
    (hnamed : AreNamed st.scopes) (hsettled : leave st.depth st.scopes = st.scopes)
    (line : List Char) :
    ∃ scopes, Declares package path number st.depth st.scopes
        (step package path number st line).2 scopes ∧
      (step package path number st line).1.depth = (codeOf st line).foldl follow st.depth ∧
      (step package path number st line).1.scopes =
        leave (step package path number st line).1.depth
          (braces (codeOf st line) (st.depth, scopes)).2 := by
  rcases step_cases package path number hnamed line with
    ⟨hcode, hnone, hscopes, hdepth⟩ | ⟨scopes, hdeclares, hdepth, hscopes⟩
  · rw [hcode, hnone, hscopes, hdepth]
    exact ⟨st.scopes, .nothing, rfl, hsettled.symm⟩
  · rw [hscopes, hdepth]
    exact ⟨scopes, hdeclares, braces_depth _ _ _, rfl⟩

/-! ## Runs -/

variable {package : Option String} {path : String} {e : Element}

/-- The state behind some lines, the first of which has the number. -/
def run (package : Option String) (path : String) : State → (number : Nat) →
    List (List Char) → State
  | st, _, [] => st
  | st, number, line :: rest =>
    run package path (step package path number st line).1 (number + 1) rest

theorem readFrom_cons (st : State) (number : Nat) (line : List Char) (rest : List (List Char)) :
    readFrom package path st number (line :: rest) =
      (step package path number st line).2.toList ++
        readFrom package path (step package path number st line).1 (number + 1) rest :=
  rfl

/-- Lines are read on from where the lines before them lead. -/
theorem readFrom_append (done lines : List (List Char)) :
    ∀ st number, readFrom package path st number (done ++ lines) =
      readFrom package path st number done ++
        readFrom package path (run package path st number done) (number + done.length) lines := by
  induction done with
  | nil => exact fun st number => rfl
  | cons line done ih =>
    intro st number
    rw [List.cons_append, readFrom_cons, readFrom_cons, run, ih, List.append_assoc,
      List.length_cons, Nat.add_right_comm, Nat.add_assoc]

theorem run_append (done lines : List (List Char)) :
    ∀ st number, run package path st number (done ++ lines) =
      run package path (run package path st number done) (number + done.length) lines := by
  induction done with
  | nil => exact fun st number => rfl
  | cons line done ih =>
    intro st number
    rw [List.cons_append, run, run, ih, List.length_cons, Nat.add_right_comm, Nat.add_assoc]

/-! ## Lines of a source -/

variable {lines : List (List Char)} {line : List Char} {n : Nat}

/-- The state behind the first `n` lines. -/
def stateAfter (package : Option String) (path : String) (lines : List (List Char)) (n : Nat) :
    State :=
  run package path {} 1 (lines.take n)

/-- What is read of the first `n` lines. -/
def readOf (package : Option String) (path : String) (lines : List (List Char)) (n : Nat) :
    List Element :=
  readFrom package path {} 1 (lines.take n)

/-- The depth before the line with a number. -/
def depthBefore (package : Option String) (path : String) (lines : List (List Char))
    (number : Nat) : Nat :=
  (stateAfter package path lines (number - 1)).depth

/-- The greatest depth in the line with a number. -/
def peakIn (package : Option String) (path : String) (lines : List (List Char)) (number : Nat) :
    Nat :=
  peak (depthBefore package path lines number)
    (codeOf (stateAfter package path lines (number - 1)) (lines[number - 1]?.getD []))

/-- One line more is one step more. -/
theorem stateAfter_succ (package : Option String) (path : String) (h : lines[n]? = some line) :
    stateAfter package path lines (n + 1) =
      (step package path (n + 1) (stateAfter package path lines n) line).1 := by
  have hlt : n < lines.length := (List.getElem?_eq_some_iff.1 h).1
  rw [stateAfter, List.take_add_one, h, Option.toList_some, run_append,
    List.length_take_of_le (Nat.le_of_lt hlt), Nat.add_comm 1 n]
  rfl

theorem readOf_succ (package : Option String) (path : String) (h : lines[n]? = some line) :
    readOf package path lines (n + 1) = readOf package path lines n ++
      (step package path (n + 1) (stateAfter package path lines n) line).2.toList := by
  have hlt : n < lines.length := (List.getElem?_eq_some_iff.1 h).1
  rw [readOf, List.take_add_one, h, Option.toList_some, readFrom_append,
    List.length_take_of_le (Nat.le_of_lt hlt), Nat.add_comm 1 n, readFrom_cons, readFrom,
    List.append_nil]
  rfl

/-- There are no lines behind the last one. -/
theorem readOf_succ_of_none (h : lines[n]? = none) :
    readOf package path lines (n + 1) = readOf package path lines n := by
  rw [readOf, List.take_add_one, h, Option.toList_none, List.append_nil]
  rfl

theorem stateAfter_succ_of_none (h : lines[n]? = none) :
    stateAfter package path lines (n + 1) = stateAfter package path lines n := by
  rw [stateAfter, List.take_add_one, h, Option.toList_none, List.append_nil]
  rfl

/-- **What is read of the first lines is what the step at one of them gives.** -/
theorem mem_readOf_iff : e ∈ readOf package path lines n ↔ ∃ m < n, ∃ line, lines[m]? = some line ∧
    (step package path (m + 1) (stateAfter package path lines m) line).2 = some e := by
  induction n with
  | zero => exact iff_of_false (by simp [readOf, readFrom]) (by simp)
  | succ n ih =>
    have hlast : (∃ m < n + 1, ∃ line, lines[m]? = some line ∧
        (step package path (m + 1) (stateAfter package path lines m) line).2 = some e) ↔
        (∃ m < n, ∃ line, lines[m]? = some line ∧
          (step package path (m + 1) (stateAfter package path lines m) line).2 = some e) ∨
        ∃ line, lines[n]? = some line ∧
          (step package path (n + 1) (stateAfter package path lines n) line).2 = some e := by
      constructor
      · rintro ⟨m, hm, h⟩
        rcases Nat.lt_succ_iff_lt_or_eq.1 hm with hm | rfl
        · exact .inl ⟨m, hm, h⟩
        · exact .inr h
      · rintro (⟨m, hm, h⟩ | h)
        · exact ⟨m, Nat.lt_succ_of_lt hm, h⟩
        · exact ⟨n, Nat.lt_succ_self n, h⟩
    rw [hlast, ← ih]
    cases hline : lines[n]? with
    | none => simp [readOf_succ_of_none hline]
    | some line => simp [readOf_succ _ _ hline, eq_comm]

theorem areNamed_stateAfter (n : Nat) : AreNamed (stateAfter package path lines n).scopes := by
  induction n with
  | zero => exact List.forall_mem_nil _
  | succ n ih =>
    cases hline : lines[n]? with
    | none => rwa [stateAfter_succ_of_none hline]
    | some line =>
      rw [stateAfter_succ _ _ hline]
      exact areNamed_step package path (n + 1) ih line

end Docsmith.Source.Lines.Java
