import Docsmith.Proofs.FileTree.Growth
import Docsmith.Proofs.Path.Name
import Docsmith.Proofs.Sink.Race
/-!
# Sinks — temporary names

A temporary name is `.name.token.tmp`. Tokens are thirty-six hexadecimal
digits and hyphens and no two writes have the same one; nothing on the disk
and no piece of a path that is asked for has such a name when the writers
begin (`Fresh`). Then no path that a writer tries has such a piece either:
a name that gets a number never looks like one (`not_carries_numbered`).
-/


namespace Docsmith

namespace Disk

open FileTree Docsmith.Path Text

variable {name token path target above : String} {n : Nat}

/-! ## Tokens and the names that carry them -/

/-- Thirty-six hexadecimal digits and hyphens. -/
def IsToken (token : String) : Prop :=
  token.toList.length = 36 ∧ ∀ c ∈ token.toList, c.isDigit ∨ ('a' ≤ c ∧ c ≤ 'f') ∨ c = '-'

instance (token : String) : Decidable (IsToken token) :=
  @instDecidableAnd _ _ inferInstance (List.decidableBAll _ token.toList)

/-- The name is `.stem.token.tmp` for some stem. -/
def Carries (token name : String) : Prop :=
  ∃ stem, name = "." ++ stem ++ "." ++ token ++ ".tmp"

theorem IsToken.not_mem (h : IsToken token) {c : Char} (hc : c = '/' ∨ c = '.' ∨ c = '_') :
    c ∉ token.toList := by
  intro hm
  have := h.2 c hm
  rcases hc with rfl | rfl | rfl <;> revert this <;> decide

/-- The characters of a name that carries a token. -/
theorem Carries.toList_eq (h : Carries token name) :
    ∃ stem, name.toList = '.' :: stem ++ '.' :: token.toList ++ '.' :: ['t', 'm', 'p'] := by
  obtain ⟨stem, rfl⟩ := h
  exact ⟨stem.toList, by simp⟩

/-- A name carries one token at most. -/
theorem Carries.token_eq {other : String} (ht : IsToken token) (ho : IsToken other)
    (h : Carries token name) (h' : Carries other name) : token = other := by
  obtain ⟨stem, hs⟩ := h.toList_eq
  obtain ⟨stem', hs'⟩ := h'.toList_eq
  rw [hs] at hs'
  have htmp := (append_cons_inj (by decide) (by decide) hs').1
  exact String.toList_inj.1 (append_cons_inj (ht.not_mem (by simp)) (ho.not_mem (by simp)) htmp).2

/-- A name that carries a token is longer than the token. -/
theorem Carries.length_lt (ht : IsToken token) (h : Carries token name) :
    41 < name.toList.length := by
  obtain ⟨stem, hs⟩ := h.toList_eq
  rw [hs]
  simp [ht.1]

/-- **A name with a number carries no token.** It would have to end in
`.token.tmp`, so the underscore before the number would stand in the
token. -/
theorem not_carries_numbered (ht : IsToken token) (path : String) (n : Nat) :
    ¬ Carries token (numbered path n) := by
  intro h
  obtain ⟨stem, hs⟩ := h.toList_eq
  obtain ⟨first, tail, hn, -, htail⟩ := numbered_toList path n
  rw [hn] at hs
  have hdot : '.' ∉ (toString n).toList := fun hm =>
    absurd (isDigit_of_mem_toString hm) (by decide)
  rcases htail with rfl | ⟨extension, rfl, hext, -⟩
  · -- without an extension the name ends in a digit
    rw [List.append_nil] at hs
    have hlast := congrArg List.getLast? hs
    obtain ⟨before, c, hc⟩ := List.eq_nil_or_concat (toString n).toList |>.resolve_left
      (toList_toString_ne_nil n)
    have hdigit : c.isDigit = true := isDigit_of_mem_toString (n := n) (by rw [hc]; simp)
    rw [hc] at hlast
    have hp : c = 'p' := by simpa [List.getLast?_append, List.getLast?_cons] using hlast
    subst hp
    exact absurd hdigit (by decide)
  · have hcut := (append_cons_inj hext (by decide) hs).1
    -- the dot before the token stands before the underscore or after it
    rcases List.append_eq_append_iff.1 hcut with ⟨more, -, hm⟩ | ⟨more, -, hm⟩
    · have : '.' ∈ '_' :: (toString n).toList := by rw [hm]; simp
      rcases List.mem_cons.1 this with h | h
      · exact absurd h (by decide)
      · exact hdot h
    · cases more with
      | nil => simp at hm
      | cons c more =>
        have : '_' ∈ token.toList := by
          rw [List.cons_append, List.cons.injEq] at hm
          rw [hm.2]
          simp
        exact ht.not_mem (by simp) this

/-! ## The temporary path -/

/-- The temporary name of a document with a target. -/
def temporaryName (token target : String) : String :=
  "." ++ (fileName? target).getD "" ++ "." ++ token ++ ".tmp"

theorem carries_temporaryName (token target : String) : Carries token (temporaryName token target) :=
  ⟨_, rfl⟩

theorem slash_not_mem_temporaryName (ht : IsToken token) (target : String) :
    '/' ∉ (temporaryName token target).toList := by
  have hname : '/' ∉ ((fileName? target).getD "").toList := by
    cases hf : fileName? target with
    | none => simp
    | some name => exact slash_not_mem_fileName hf
  have htoken : '/' ∉ token.toList := ht.not_mem (by simp)
  unfold temporaryName
  simp [hname, htoken]

/-- **A temporary path ends in the temporary name.** -/
theorem getLast?_pieces_temporary (ht : IsToken token) (target : String) :
    (pieces (temporary token target)).getLast? = some (temporaryName token target) := by
  have hne : temporaryName token target ≠ "" := by
    unfold temporaryName
    simp
  rw [show temporary token target = join (folder target) (temporaryName token target) from rfl,
    pieces_join (slash_not_mem_temporaryName ht target) hne, List.getLast?_concat]

/-! ## Pieces of the paths that are tried -/

theorem mem_pieces_of_names {directory : String} (h : name ∈ names directory) :
    name ∈ pieces directory :=
  List.mem_append_left _ h

/-- A numbered path has the pieces of the path and the numbered name. -/
theorem mem_pieces_candidate (h : name ∈ pieces (candidate path n)) :
    name = "." ∨ name ∈ pieces path ∨ name = numbered path n := by
  unfold candidate at h
  split_ifs at h
  · exact .inr (.inl h)
  rw [suffixed_eq, withFileName] at h
  have hslash := slash_not_mem_numbered path n
  have hne := numbered_ne_empty path n
  split_ifs at h
  · rw [pieces_join hslash hne] at h
    rcases List.mem_append.1 h with h | h
    · cases hp : parent? path with
      | none =>
        rw [hp, Option.getD_none, show names "" = [] by decide +kernel] at h
        cases h
      | some above =>
        rw [hp, Option.getD_some] at h
        rcases mem_pieces_of_parent? hp (mem_pieces_of_names h) with h | h
        · exact .inl h
        · exact .inr (.inl h)
    · exact .inr (.inr (List.mem_singleton.1 h))
  · rw [pieces_join hslash hne] at h
    rcases List.mem_append.1 h with h | h
    · exact .inr (.inl (mem_pieces_of_names h))
    · exact .inr (.inr (List.mem_singleton.1 h))

/-- A path above another one has no piece of its own, but for the dot. -/
theorem mem_pieces_of_ancestor (height : Nat) (h : name ∈ pieces (ancestor height path)) :
    name = "." ∨ name ∈ pieces path := by
  induction height generalizing path with
  | zero => exact .inr h
  | succ height ih =>
    rw [ancestor] at h
    split at h
    · next above ha =>
      rcases ih h with h | h
      · exact .inl h
      · exact mem_pieces_of_parent? ha h
    · exact .inr h

/-! ## Fresh tokens -/

/-- The place has a temporary name of the `i`-th write. -/
def Owns (calls : List Call) (i : Nat) (place : Place) : Prop :=
  ∃ c name, calls[i]? = some c ∧ place.getLast? = some name ∧ Carries c.token name

/-- The place has a temporary name. -/
def IsTemporary (calls : List Call) (place : Place) : Prop :=
  ∃ i, Owns calls i place

/-- The tokens of the writes are tokens, no two the same, and nothing on the
disk and no piece of a path has a name with one of them. -/
structure Fresh (t : FileTree) (calls : List Call) : Prop where
  tokens : ∀ c ∈ calls, IsToken c.token
  apart : (calls.map (·.token)).Nodup
  tree : ∀ place, IsTemporary calls place → t.get? place = none
  path : ∀ c ∈ calls, ∀ name ∈ pieces c.path, ¬ IsTemporary calls [name]

variable {t : FileTree} {calls : List Call} {i j : Nat} {place : Place} {c : Call}

theorem owns_concat {directory : Place} : Owns calls i (directory ++ [name]) ↔ Owns calls i [name] := by
  unfold Owns
  simp

theorem isTemporary_concat {directory : Place} :
    IsTemporary calls (directory ++ [name]) ↔ IsTemporary calls [name] := by
  unfold IsTemporary
  simp only [owns_concat]

theorem not_isTemporary_nil : ¬ IsTemporary calls [] := by
  rintro ⟨i, c, name, -, h, -⟩
  cases h

namespace Fresh

/-- **A temporary place belongs to one write.** -/
theorem owner_eq (h : Fresh t calls) (hi : Owns calls i place) (hj : Owns calls j place) :
    i = j := by
  obtain ⟨c, name, hc, hl, hn⟩ := hi
  obtain ⟨c', name', hc', hl', hn'⟩ := hj
  obtain rfl : name = name' := Option.some.inj (hl.symm.trans hl')
  have htoken := hn.token_eq (h.tokens c (List.mem_of_getElem? hc))
    (h.tokens c' (List.mem_of_getElem? hc')) hn'
  have hi : (calls.map (·.token))[i]? = some c.token := by simp [hc]
  have hj : (calls.map (·.token))[j]? = some c.token := by simp [hc', htoken]
  obtain ⟨hlen, -⟩ := List.getElem?_eq_some_iff.1 hi
  exact (List.getElem?_inj hlen h.apart).1 (hi.trans hj.symm)

/-- **No path that is tried has a temporary name in it.** -/
theorem not_isTemporary_candidate (h : Fresh t calls) (hc : c ∈ calls)
    (hm : name ∈ pieces (candidate c.path n)) : ¬ IsTemporary calls [name] := by
  rintro ⟨i, d, other, hd, hl, hn⟩
  obtain rfl : name = other := by simpa using hl
  have hd' : IsToken d.token := h.tokens d (List.mem_of_getElem? hd)
  rcases mem_pieces_candidate hm with rfl | hm | rfl
  · exact absurd (hn.length_lt hd') (by decide)
  · exact h.path c hc name hm ⟨i, d, name, hd, rfl, hn⟩
  · exact not_carries_numbered hd' c.path n hn

/-- Nor has the directory of such a path, or a path above it. -/
theorem not_isTemporary_ancestor (h : Fresh t calls) (hc : c ∈ calls) (height : Nat)
    (hm : name ∈ pieces (ancestor height (folder (candidate c.path n)))) (hname : IsName name) :
    ¬ IsTemporary calls [name] := by
  have hfolder : name ∈ pieces (folder (candidate c.path n)) :=
    (mem_pieces_of_ancestor height hm).resolve_left hname.1
  exact h.not_isTemporary_candidate hc ((mem_pieces_of_folder hfolder).resolve_left hname.1)

/-- The temporary place of a write is its own. -/
theorem owns_temporary (h : Fresh t calls) (hc : calls[i]? = some c)
    (hl : (pieces (temporary c.token target)).getLast? = some name) (directory : Place) :
    Owns calls i (directory ++ [name]) := by
  have htoken := h.tokens c (List.mem_of_getElem? hc)
  rw [getLast?_pieces_temporary htoken, Option.some.injEq] at hl
  subst hl
  exact ⟨c, _, hc, by simp, carries_temporaryName c.token target⟩

/-- Tokens are fresh where all names are short. -/
theorem of_short (htokens : ∀ c ∈ calls, IsToken c.token) (hapart : (calls.map (·.token)).Nodup)
    (htree : ∀ entry ∈ t.nodes, ∀ name ∈ entry.1.getLast?, name.toList.length ≤ 41)
    (hpath : ∀ c ∈ calls, ∀ name ∈ pieces c.path, name.toList.length ≤ 41) : Fresh t calls := by
  have hshort : ∀ place, ∀ name ∈ place.getLast?, name.toList.length ≤ 41 →
      ¬ IsTemporary calls place := by
    rintro place name hname hlen ⟨i, c, other, hc, hl, hn⟩
    obtain rfl : name = other := Option.some.inj (hname.symm.trans hl)
    have := hn.length_lt (htokens c (List.mem_of_getElem? hc))
    omega
  refine ⟨htokens, hapart, fun place hp => ?_, fun c hc name hn => ?_⟩
  · have hne : place ≠ [] := by
      rintro rfl
      exact not_isTemporary_nil hp
    rw [get?_of_ne_nil hne]
    cases hfind : t.nodes.find? (·.1 == place) with
    | none => rfl
    | some entry =>
      obtain rfl : entry.1 = place := by simpa using List.find?_some hfind
      have hl := List.getLast?_eq_some_getLast hne
      exact absurd hp (hshort _ _ hl (htree entry (List.mem_of_find?_eq_some hfind) _ hl))
  · exact hshort [name] name rfl (hpath c hc name hn)

end Fresh

end Disk

end Docsmith
