import Docsmith.Model.Request
import Docsmith.Model.Protocol
import Docsmith.Proofs.Ordered
import Mathlib.Tactic.FinCases
/-!
# Models — what a request holds

A request holds its protocol's own fields and, under all other names, what the
backend's configuration adds (`IsRequest`). What a configuration adds under one of
the own names is not looked at, so two configurations that differ there alone make
the same request (`extra_never_overrides`).

What a call holds tells its prompt: each protocol has a field for it
(`Call.ofPrompt_inj`). Prompts for different purposes start differently, so the
calls of a purpose are no calls of another one (`Purpose.call_ne`).
-/


namespace Docsmith.Model.Protocol

open Ordered (find? IsAscending)

variable {b : Config.Backend} {prompt key : String} {fields extra : List (String × Json)}

/-! ## A protocol's own fields -/

/-- The names of a protocol's own fields. -/
def ownNames : Protocol → List String
  | .ollama => ["model", "prompt", "stream", "options"]
  | .openAi => ["model", "messages", "max_tokens", "temperature"]
  | .generic => ["prompt", "max_tokens", "temperature"]

/-- What stands under a name if the name is one of the protocol's own. -/
def ownValue? (b : Config.Backend) (prompt : String) : Protocol → (key : String) → Option Json
  | .ollama, "model" | .openAi, "model" => some (.string b.name)
  | .ollama, "prompt" | .generic, "prompt" => some (.string prompt)
  | .ollama, "stream" => some (.bool false)
  | .ollama, "options" =>
    some (.object [("num_predict", .ofNat b.maxTokens), ("temperature", temperature b)])
  | .openAi, "messages" =>
    some (.array [.object [("content", .string prompt), ("role", .string "user")]])
  | .openAi, "max_tokens" | .generic, "max_tokens" => some (.ofNat b.maxTokens)
  | .openAi, "temperature" | .generic, "temperature" => some (temperature b)
  | _, _ => none

theorem ownValue?_eq_none {p : Protocol} (h : key ∉ p.ownNames) :
    ownValue? b prompt p key = none := by
  unfold ownValue?
  split <;> first | rfl | exact absurd (by decide) h

theorem exists_ownValue? {p : Protocol} (b : Config.Backend) (prompt : String)
    (h : key ∈ p.ownNames) :
    ∃ value, ownValue? b prompt p key = some value := by
  cases p <;> fin_cases h <;> exact ⟨_, rfl⟩

theorem find?_ownFields (p : Protocol) (b : Config.Backend) (prompt key : String) :
    find? key (p.ownFields b prompt) = ownValue? b prompt p key := by
  by_cases h : key ∈ p.ownNames
  · cases p <;> fin_cases h <;> rfl
  · rw [ownValue?_eq_none h, Ordered.find?_eq_none]
    cases p <;> simp_all [ownFields, ownNames]

theorem isAscending_ownFields (p : Protocol) (b : Config.Backend) (prompt : String) :
    IsAscending (p.ownFields b prompt) := by
  refine List.pairwise_map.1 ?_
  cases p with
  | ollama =>
    have hnames : ["model", "options", "prompt", "stream"].Pairwise (· < ·) := by decide +kernel
    exact hnames
  | openAi =>
    have hnames : ["max_tokens", "messages", "model", "temperature"].Pairwise (· < ·) := by
      decide +kernel
    exact hnames
  | generic =>
    have hnames : ["max_tokens", "prompt", "temperature"].Pairwise (· < ·) := by decide +kernel
    exact hnames

/-! ## What a configuration adds -/

theorem find?_addField (fields : List (String × Json)) (added : String × Json) (key : String) :
    find? key (addField fields added) =
      (find? key fields).or (if key = added.1 then some added.2 else none) := by
  unfold addField
  split
  · next present =>
    split_ifs with heq
    · rw [heq, present, Option.some_or]
    · rw [Option.or_none]
  · next absent =>
    rw [Ordered.find?_insert]
    split_ifs with heq
    · rw [heq, absent, Option.none_or]
    · rw [Option.or_none]

/-- **What stands in a request first stays**, by induction on what is added. -/
theorem find?_foldl_addField (extra : List (String × Json)) (key : String) :
    ∀ fields, find? key (extra.foldl addField fields) =
      (find? key fields).or (find? key extra) := by
  induction extra with
  | nil =>
    intro fields
    rw [List.foldl_nil, find?, Option.or_none]
  | cons added extra ih =>
    intro fields
    rw [List.foldl_cons, ih, find?_addField, Option.or_assoc, find?]
    split_ifs with heq
    · rw [Option.some_or]
    · rw [Option.none_or]

theorem isAscending_addField (h : IsAscending fields) (added : String × Json) :
    IsAscending (addField fields added) := by
  unfold addField
  split
  · exact h
  · exact Ordered.isAscending_insert h added.1 added.2

theorem isAscending_foldl_addField (extra : List (String × Json)) :
    ∀ fields, IsAscending fields → IsAscending (extra.foldl addField fields) := by
  induction extra with
  | nil => exact fun fields h => h
  | cons added extra ih => exact fun fields h => ih _ (isAscending_addField h added)

/-! ## Requests -/

/-- The fields of a request: each name once, the protocol's own values under its
own names, and under every other name what the configuration adds, if it adds
anything. -/
structure IsRequest (p : Protocol) (b : Config.Backend) (prompt : String)
    (fields : List (String × Json)) : Prop where
  ascending : IsAscending fields
  own : ∀ key ∈ p.ownNames, ∃ value,
    ownValue? b prompt p key = some value ∧ find? key fields = some value
  added : ∀ key ∉ p.ownNames, find? key fields = find? key b.extra

theorem isRequest_payload (p : Protocol) (b : Config.Backend) (prompt : String) :
    p.IsRequest b prompt (b.extra.foldl addField (p.ownFields b prompt)) := by
  have hfind (key : String) : find? key (b.extra.foldl addField (p.ownFields b prompt)) =
      (ownValue? b prompt p key).or (find? key b.extra) := by
    rw [find?_foldl_addField, find?_ownFields]
  refine ⟨isAscending_foldl_addField _ _ (isAscending_ownFields p b prompt), ?_, ?_⟩
  · intro key hkey
    obtain ⟨value, hvalue⟩ := exists_ownValue? b prompt hkey
    exact ⟨value, hvalue, by rw [hfind, hvalue, Option.some_or]⟩
  · intro key hkey
    rw [hfind, ownValue?_eq_none hkey, Option.none_or]

/-- The fields of a request are settled by what the configuration adds under other
names than the protocol's own. -/
theorem IsRequest.unique {p : Protocol} {more : List (String × Json)}
    (h : p.IsRequest b prompt fields) (h' : p.IsRequest { b with extra } prompt more)
    (hextra : ∀ key ∉ p.ownNames, find? key extra = find? key b.extra) : more = fields := by
  refine Ordered.eq_of_find?_eq h'.ascending h.ascending fun key => ?_
  by_cases hkey : key ∈ p.ownNames
  · obtain ⟨value, hvalue, hfound⟩ := h.own key hkey
    obtain ⟨value', hvalue', hfound'⟩ := h'.own key hkey
    have hsame : ownValue? { b with extra } prompt p key = ownValue? b prompt p key := rfl
    rw [hsame, hvalue] at hvalue'
    rw [hfound, hfound', hvalue']
  · rw [h.added key hkey, h'.added key hkey, hextra key hkey]

/-- Where the prompt stands in a request. -/
def promptPath : Protocol → List String
  | .ollama => ["prompt"]
  | .openAi => ["messages", "0", "content"]
  | .generic => ["prompt"]

/-- **Further fields never replace a request's own.** Whatever a configuration adds,
a request holds its protocol's own values under its own names and the added ones
under all others, each name once. So the prompt stands in its place as it was given,
and so does the model's name for the two protocols that tell it; and what is added
under the own names makes no difference at all. -/
theorem extra_never_overrides (p : Protocol) (b : Config.Backend) (prompt : String) :
    (∃ fields, p.payload b prompt = .object fields ∧ p.IsRequest b prompt fields) ∧
    (p.payload b prompt).at? p.promptPath = some (.string prompt) ∧
    (p ≠ .generic → (p.payload b prompt).get? "model" = some (.string b.name)) ∧
    ∀ extra, (∀ key ∉ p.ownNames, find? key extra = find? key b.extra) →
      p.payload { b with extra } prompt = p.payload b prompt := by
  have hrequest := isRequest_payload p b prompt
  have hpayload : p.payload b prompt =
      .object (b.extra.foldl addField (p.ownFields b prompt)) := rfl
  rw [hpayload]
  generalize b.extra.foldl addField (p.ownFields b prompt) = fields at hrequest
  refine ⟨⟨fields, rfl, hrequest⟩, ?_, ?_, ?_⟩
  · cases p with
    | ollama | generic =>
      obtain ⟨value, hvalue, hfound⟩ := hrequest.own "prompt" (by decide)
      cases hvalue
      simp [promptPath, Json.at?, hfound]
    | openAi =>
      obtain ⟨value, hvalue, hfound⟩ := hrequest.own "messages" (by decide)
      cases hvalue
      simp only [promptPath, Json.at?, hfound, Option.bind_some]
      rfl
  · intro hp
    have hmodel : "model" ∈ p.ownNames := by
      cases p with
      | ollama | openAi => decide
      | generic => exact absurd rfl hp
    obtain ⟨value, hvalue, hfound⟩ := hrequest.own "model" hmodel
    have hname : ownValue? b prompt p "model" = some (.string b.name) := by
      cases p with
      | ollama | openAi => rfl
      | generic => exact absurd rfl hp
    rw [hvalue] at hname
    rw [Json.get?, hfound, hname]
  · intro extra hextra
    have hother := isRequest_payload p { b with extra } prompt
    exact congrArg Json.object (hrequest.unique hother hextra)

end Docsmith.Model.Protocol

/-! ## The prompt in a request -/

namespace Docsmith

namespace Model

namespace Protocol

/-- The field in which a protocol has the prompt, and how. -/
def promptField (p : Protocol) (prompt : String) : String × Json :=
  match p with
  | .openAi =>
    ("messages", .array [.ofFields [("content", .string prompt), ("role", .string "user")]])
  | _ => ("prompt", .string prompt)

theorem get?_payload (p : Protocol) (b : Config.Backend) (prompt : String) :
    (p.payload b prompt).get? (p.promptField prompt).1 = some (p.promptField prompt).2 := by
  rw [payload, Json.get?, find?_foldl_addField]
  cases p with
  | ollama => simp [ownFields, promptField, Ordered.find?]
  | openAi => simp [ownFields, promptField, Ordered.find?]
  | generic => simp [ownFields, promptField, Ordered.find?]

/-- The message of a prompt. -/
theorem message_eq (prompt : String) :
    Json.ofFields [("content", .string prompt), ("role", .string "user")] =
      .object [("content", .string prompt), ("role", .string "user")] := by
  have hlt : ¬ "role" < "content" := by decide
  have hne : "role" ≠ "content" := by decide
  simp only [Json.ofFields, Ordered.ofList, List.foldl_cons, List.foldl_nil, Ordered.insert,
    if_neg hlt, if_neg hne]

/-- **What a request holds tells the prompt.** -/
theorem payload_inj {p : Protocol} {b : Config.Backend} {prompt other : String}
    (h : p.payload b prompt = p.payload b other) : prompt = other := by
  have hname : (p.promptField other).1 = (p.promptField prompt).1 := by
    cases p <;> rfl
  have hfield : (p.promptField prompt).2 = (p.promptField other).2 := by
    have hget := p.get?_payload b prompt
    rw [h, ← hname, p.get?_payload] at hget
    exact (Option.some.inj hget).symm
  cases p with
  | ollama => exact Json.string.inj hfield
  | openAi =>
    unfold promptField at hfield
    rw [message_eq, message_eq] at hfield
    simpa using hfield
  | generic => exact Json.string.inj hfield

end Protocol

/-- A call tells its backend and its prompt. -/
theorem Call.ofPrompt_inj {prompt other : String} {b b' : Config.Backend}
    (h : Call.ofPrompt prompt b = Call.ofPrompt other b') : prompt = other ∧ b = b' := by
  unfold Call.ofPrompt at h
  obtain ⟨rfl, -, hpayload⟩ := Call.mk.inj h
  exact ⟨Protocol.payload_inj hpayload, rfl⟩

end Model

/-! ## Prompts for different purposes -/

namespace Purpose

/-- The first ten characters of a prompt are those of its purpose. -/
theorem take_prompt (p : Purpose) (e : Element) :
    (p.prompt e).toList.take 10 = p.request.toList.take 10 := by
  have hlength : 10 ≤ p.request.toList.length := by
    cases p <;> decide
  unfold prompt
  simp only [String.append_assoc, String.toList_append]
  exact List.take_append_of_le_length hlength

/-- **A prompt tells its purpose.** -/
theorem prompt_ne {p q : Purpose} (h : p ≠ q) (e e' : Element) : p.prompt e ≠ q.prompt e' := by
  intro heq
  have hstart : p.request.toList.take 10 = q.request.toList.take 10 := by
    rw [← p.take_prompt e, ← q.take_prompt e', heq]
  revert hstart h
  cases p <;> cases q <;> decide

/-- A call for one purpose is no call for another one, whoever it goes to. -/
theorem call_ne {p q : Purpose} (h : p ≠ q) (e e' : Element) (b b' : Config.Backend) :
    Model.Call.ofPrompt (p.prompt e) b ≠ Model.Call.ofPrompt (q.prompt e') b' :=
  fun heq => prompt_ne h e e' (Model.Call.ofPrompt_inj heq).1

end Purpose

end Docsmith
