import Docsmith.Model.Protocol
import Docsmith.Proofs.Text.Split
import Docsmith.Proofs.Text.Trim
import Mathlib.Tactic.SplitIfs
/-!
# Models — where requests go

An address is its base and slashes, with blanks around it. Only the base counts: what a
protocol puts behind it depends on the protocol and on how the base ends, and where the
two meet there are no two slashes (`endpoint_normal`).
-/


namespace Docsmith.Model.Protocol

open Text

variable {base b w w' : String} {first rest before after : List Char}

/-! ## An address -/

/-- Slashes at the end of an address, as many as are asked for. -/
def slashes (n : Nat) : String :=
  String.ofList (List.replicate n '/')

@[simp] theorem toList_slashes (n : Nat) : (slashes n).toList = List.replicate n '/' :=
  String.toList_ofList

@[simp] theorem slashes_zero : slashes 0 = "" := rfl

@[simp] theorem slashes_append (n m : Nat) : slashes n ++ slashes m = slashes (n + m) := by
  rw [← String.toList_inj, String.toList_append, toList_slashes, toList_slashes, toList_slashes,
    List.replicate_append_replicate]

/-- A text starts with no blank if its parts do not. -/
theorem isBlank_head?_append (hfirst : ∀ c ∈ first.head?, isBlank c = false)
    (hrest : ∀ c ∈ rest.head?, isBlank c = false) :
    ∀ c ∈ (first ++ rest).head?, isBlank c = false := by
  intro c hc
  rw [List.head?_append, Option.mem_def, Option.or_eq_some_iff] at hc
  rcases hc with hc | ⟨-, hc⟩
  · exact hfirst c hc
  · exact hrest c hc

/-- Slashes behind an address make it neither start nor end with a blank. -/
theorem first_last_append_slashes (n : Nat) (hfirst : ∀ c ∈ b.toList.head?, isBlank c = false)
    (hlast : ∀ c ∈ b.toList.getLast?, isBlank c = false) :
    (∀ c ∈ (b ++ slashes n).toList.head?, isBlank c = false) ∧
      ∀ c ∈ (b ++ slashes n).toList.getLast?, isBlank c = false := by
  have hslash : ∀ c ∈ List.replicate n '/', isBlank c = false := by
    intro c hc
    rw [List.eq_of_mem_replicate hc]
    decide
  rw [String.toList_append, toList_slashes]
  refine ⟨isBlank_head?_append hfirst fun c hc => hslash c (List.mem_of_mem_head? hc), ?_⟩
  intro c hc
  rw [List.getLast?_append, Option.mem_def, Option.or_eq_some_iff] at hc
  rcases hc with hc | ⟨-, hc⟩
  · exact hslash c (List.mem_of_getLast? hc)
  · exact hlast c hc

/-- **Blanks around an address and slashes at its end do not matter.** -/
theorem endpoint_eq (p : Protocol) (n : Nat) (hw : ∀ c ∈ w.toList, isBlank c = true)
    (hw' : ∀ c ∈ w'.toList, isBlank c = true)
    (hfirst : ∀ c ∈ (base ++ slashes n).toList.head?, isBlank c = false)
    (hlast : ∀ c ∈ (base ++ slashes n).toList.getLast?, isBlank c = false)
    (hbase : base.toList.getLast? ≠ some '/') :
    p.endpoint (w ++ (base ++ slashes n) ++ w') = base ++ p.tail base.toList := by
  have hkept : dropAllEnd '/' (trim (w ++ (base ++ slashes n) ++ w').toList) = base.toList := by
    rw [String.toList_append, String.toList_append, trim_append_blanks hw', trim_blanks_append hw,
      trim_eq_self hfirst hlast, String.toList_append, toList_slashes,
      dropAllEnd_append_replicate hbase]
  rw [endpoint, hkept, String.ofList_toList]

theorem endpoint_slashes (p : Protocol) (n : Nat)
    (hfirst : ∀ c ∈ (base ++ slashes n).toList.head?, isBlank c = false)
    (hlast : ∀ c ∈ (base ++ slashes n).toList.getLast?, isBlank c = false)
    (hbase : base.toList.getLast? ≠ some '/') :
    p.endpoint (base ++ slashes n) = base ++ p.tail base.toList := by
  have hgoes : p.endpoint ("" ++ (base ++ slashes n) ++ "") = base ++ p.tail base.toList :=
    endpoint_eq p n (by simp) (by simp) hfirst hlast hbase
  rwa [String.empty_append, String.append_empty] at hgoes

/-! ## What is behind the base -/

/-- The version of the second protocol's path is not put behind itself. -/
theorem tail_openAi (base : List Char) : openAi.tail base =
    if "/v1".toList <:+ base then "/chat/completions" else "/v1/chat/completions" := by
  rw [tail]
  exact if_congr endsWith_iff rfl rfl

/-- A base with the version behind it is not given it again. -/
theorem endpoint_version (hfirst : ∀ c ∈ base.toList.head?, isBlank c = false) :
    openAi.endpoint (base ++ "/v1") = base ++ "/v1/chat/completions" := by
  have hstart : ∀ c ∈ (base ++ "/v1").toList.head?, isBlank c = false := by
    rw [String.toList_append]
    exact isBlank_head?_append hfirst fun c hc => Option.some.inj hc ▸ (by decide)
  have hgoes : openAi.endpoint (base ++ "/v1" ++ slashes 0) = _ :=
    endpoint_slashes openAi 0 (by simpa using hstart) (by simp; decide) (by simp)
  rw [slashes_zero, String.append_empty, tail_openAi, String.toList_append,
    if_pos (List.suffix_append ..), String.append_assoc] at hgoes
  exact hgoes

/-- What stands behind a base has no two slashes in a row. -/
theorem tail_ne_append (p : Protocol) (base before after : List Char) :
    (p.tail base).toList ≠ before ++ "//".toList ++ after := by
  have hsingle : ∀ path ∈ ["/api/generate", "/chat/completions", "/v1/chat/completions", ""],
      splitOnce? "//".toList path.toList = none := by decide +kernel
  have hmem : p.tail base ∈ ["/api/generate", "/chat/completions", "/v1/chat/completions", ""] := by
    cases p with
    | ollama => simp [tail]
    | generic => simp [tail]
    | openAi =>
      rw [tail_openAi]
      split <;> simp
  exact splitOnce?_eq_none.1 (hsingle _ hmem) before after

/-- So two slashes in a row stand within the base. -/
theorem length_le_of_append_eq {tail : List Char} (hfirst : first.getLast? ≠ some '/')
    (htail : ∀ before after, tail ≠ before ++ "//".toList ++ after)
    (h : first ++ tail = before ++ "//".toList ++ after) : before.length + 2 ≤ first.length := by
  rw [List.append_assoc] at h
  rcases List.append_eq_append_iff.1 h with ⟨more, rfl, hmore⟩ | ⟨more, rfl, hmore⟩
  · exact absurd (hmore.trans (List.append_assoc ..).symm) (htail more after)
  · -- where only one of them is in the base, the base ends in a slash
    match more with
    | [] => exact absurd hmore.symm (htail [] after)
    | [c] =>
      obtain ⟨rfl, -⟩ : '/' = c ∧ _ := by simpa using hmore
      exact absurd List.getLast?_concat hfirst
    | _ :: _ :: _ => simp

/-! ## The address that requests go to -/

/-- **Where requests go.** An address is a base and slashes behind it. Blanks around it and
more slashes do not change where requests go: to the base followed by the protocol's path,
which leaves out the version where the base ends in it. The two meet without a double
slash. -/
theorem endpoint_normal (p : Protocol) (n : Nat)
    (hfirst : ∀ c ∈ b.toList.head?, isBlank c = false)
    (hlast : ∀ c ∈ b.toList.getLast?, isBlank c = false)
    (hw : ∀ c ∈ w.toList, isBlank c = true) (hw' : ∀ c ∈ w'.toList, isBlank c = true) :
    p.endpoint (w ++ (b ++ slashes n) ++ w') = p.endpoint b ∧
      ∃ (base : String) (count : Nat), b = base ++ slashes count ∧
        base.toList.getLast? ≠ some '/' ∧
        ollama.endpoint b = base ++ "/api/generate" ∧
        generic.endpoint b = base ∧
        openAi.endpoint b = base ++
          (if "/v1".toList <:+ base.toList then "/chat/completions" else "/v1/chat/completions") ∧
        (openAi.endpoint (base ++ "/v1") = openAi.endpoint b ↔ ¬ "/v1".toList <:+ base.toList) ∧
        ∀ before after, (p.endpoint b).toList = before ++ "//".toList ++ after →
          before.length + 2 ≤ base.toList.length := by
  -- the base is what is left of the address without the slashes at its end
  obtain ⟨base, count, rfl, hbase⟩ : ∃ (base : String) (count : Nat), b = base ++ slashes count ∧
      base.toList.getLast? ≠ some '/' := by
    obtain ⟨count, hb⟩ := exists_append_dropAllEnd '/' b.toList
    have hend := getLast?_dropAllEnd_ne '/' b.toList
    rw [← String.toList_ofList (l := dropAllEnd '/' b.toList)] at hb hend
    exact ⟨_, count, String.toList_inj.1 (by simpa using hb), hend⟩
  have hplain : ∀ q : Protocol, q.endpoint (base ++ slashes count) = base ++ q.tail base.toList :=
    fun q => endpoint_slashes q count hfirst hlast hbase
  have hstart : ∀ c ∈ base.toList.head?, isBlank c = false := by
    intro c hc
    refine hfirst c ?_
    rw [String.toList_append, List.head?_append, hc]
    rfl
  refine ⟨?_, base, count, rfl, hbase, hplain ollama, ?_, ?_, ?_, ?_⟩
  · obtain ⟨hfirst, hlast⟩ := first_last_append_slashes n hfirst hlast
    have hmore : base ++ slashes count ++ slashes n = base ++ slashes (count + n) := by
      rw [String.append_assoc, slashes_append]
    rw [hmore] at hfirst hlast ⊢
    rw [endpoint_eq p (count + n) hw hw' hfirst hlast hbase, hplain]
  · rw [hplain, tail, String.append_empty]
  · rw [hplain, tail_openAi]
  · rw [hplain, tail_openAi, endpoint_version hstart]
    split_ifs with hversion <;> simpa using hversion
  · intro before after heq
    rw [hplain, String.toList_append] at heq
    exact length_le_of_append_eq hbase (tail_ne_append p _) heq

/-- A base that ends in the version, with slashes and blanks around the address. -/
theorem endpoint_normal_version :
    let address := "http://gpu:9000//v1/"
    (∀ c ∈ address.toList.head?, isBlank c = false) ∧
      (∀ c ∈ address.toList.getLast?, isBlank c = false) ∧
      (∀ c ∈ "\t ".toList, isBlank c = true) ∧ (∀ c ∈ "\r\n".toList, isBlank c = true) ∧
      openAi.endpoint ("\t " ++ (address ++ slashes 2) ++ "\r\n") = openAi.endpoint address ∧
      openAi.endpoint address = "http://gpu:9000//v1/chat/completions" := by
  intro address
  have hhead : address.toList.head? = some 'h' := by decide +kernel
  have hend : address.toList.getLast? = some '/' := by decide +kernel
  have hfirst : ∀ c ∈ address.toList.head?, isBlank c = false :=
    fun c hc => Option.some.inj (hhead.symm.trans hc) ▸ (by decide)
  have hlast : ∀ c ∈ address.toList.getLast?, isBlank c = false :=
    fun c hc => Option.some.inj (hend.symm.trans hc) ▸ (by decide)
  have hfront : ∀ c ∈ "\t ".toList, isBlank c = true := List.all_eq_true.1 (by decide +kernel)
  have hback : ∀ c ∈ "\r\n".toList, isBlank c = true := List.all_eq_true.1 (by decide +kernel)
  obtain ⟨hsame, -⟩ := endpoint_normal openAi 2 hfirst hlast hfront hback
  exact ⟨hfirst, hlast, hfront, hback, hsame, by decide +kernel⟩

/-- Only slashes at the very end are dropped, and blanks before them stay. -/
example : ollama.endpoint " /a /// " = "/a /api/generate" ∧ generic.endpoint "//" = "" := by
  decide +kernel

end Docsmith.Model.Protocol
