import Docsmith.Model.Protocol
import Docsmith.Proofs.Json.Floats
/-!
# Models — the text of an answer

Where an answer's text stands is told by steps to fields of objects and to items of arrays
(`Protocol.answerPaths`). A body that is the text of a value with such a text gives it back
unharmed, and a body that is no JSON is the text itself (`text_undoes_encoding`). The second
protocol's list of choices may also be an object with a field `0`: what stands there is taken
too, though it is no item of a list (`object_taken_for_list`).
-/


namespace Docsmith.Model

open Json (EveryObject reread nesting maxDepth compact pretty parse?)
open Ordered (HasDistinctKeys)

/-- A step into a value: to a field of an object, or to an item of an array. -/
inductive Step where
  | field (name : String)
  | item (index : Nat)
  deriving DecidableEq

namespace Step

/-- The value that a step leads to. -/
def below? : Step → Json → Option Json
  | .field name => Json.get? name
  | .item index => Json.item? index

/-- The value that some steps lead to. -/
def along? : List Step → Json → Option Json
  | [], v => some v
  | step :: path, v => (step.below? v).bind (along? path)

/-- The first text that one of some paths leads to. -/
def firstText? (paths : List (List Step)) (v : Json) : Option String :=
  paths.findSome? fun path => (along? path v).bind Json.text?

variable {v w : Json}

theorem firstText?_nil (v : Json) : firstText? [] v = none := rfl

theorem firstText?_cons (path : List Step) (paths : List (List Step)) (v : Json) :
    firstText? (path :: paths) v =
      ((along? path v).bind Json.text?).or (firstText? paths v) := by
  rw [firstText?, List.findSome?_cons]
  cases (along? path v).bind Json.text? <;> rfl

/-- Paths that begin alike lead on from where their first step leads. -/
theorem firstText?_map_cons (step : Step) (paths : List (List Step)) (v : Json) :
    firstText? (paths.map (step :: ·)) v = (step.below? v).bind (firstText? paths) := by
  induction paths with
  | nil => cases step.below? v <;> rfl
  | cons path paths ih =>
    rw [List.map_cons, firstText?_cons, ih, along?]
    cases hw : step.below? v with
    | none => rfl
    | some w => rw [Option.bind_some, Option.bind_some, Option.bind_some, firstText?_cons]

theorem along?_field (name : String) (v : Json) : along? [.field name] v = v.get? name :=
  Option.bind_fun_some _

/-! ## Values that were read -/

variable (num : Json.Number → Json.Number)

theorem everyObject_below? (step : Step) (h : EveryObject HasDistinctKeys v)
    (hw : step.below? v = some w) : EveryObject HasDistinctKeys w := by
  cases step with
  | field name =>
    cases v with
    | object fields =>
      have hmem : (name, w) ∈ fields := (Ordered.find?_eq_some h.1).1 hw
      exact Json.everyField_iff.1 h.2 _ hmem
    | _ => cases hw
  | item index =>
    cases v with
    | array items => exact Json.everyItem_iff.1 h w (List.mem_of_getElem? hw)
    | _ => cases hw

/-- A step leads to the same part of a value when the value has been read. -/
theorem below?_reread (step : Step) (h : EveryObject HasDistinctKeys v) :
    step.below? (reread num v) = (step.below? v).map (reread num) := by
  cases step with
  | field name =>
    cases v with
    | object fields =>
      have hkeys : HasDistinctKeys (fields.map fun field => (field.1, reread num field.2)) :=
        List.pairwise_map.2 h.1
      rw [below?, reread, Json.rereadFields_eq, Json.ofFields, Json.get?,
        Ordered.find?_ofList hkeys, Ordered.find?_map]
      rfl
    | _ => rfl
  | item index =>
    cases v with
    | array items =>
      rw [below?, reread, Json.rereadItems_eq, Json.item?, List.getElem?_map]
      rfl
    | _ => rfl

/-- **A path leads to the same part of a value that has been read**, by induction on its
steps. -/
theorem along?_reread (path : List Step) : ∀ v, EveryObject HasDistinctKeys v →
    along? path (reread num v) = (along? path v).map (reread num) := by
  induction path with
  | nil => exact fun v _ => rfl
  | cons step path ih =>
    intro v h
    rw [along?, along?, below?_reread num step h]
    cases hw : step.below? v with
    | none => rfl
    | some w => exact ih w (everyObject_below? step h hw)

theorem text?_reread (v : Json) : (reread num v).text? = v.text? := by
  cases v <;> rfl

/-- The texts of a value are those of the value that was read. -/
theorem firstText?_reread (paths : List (List Step)) (h : EveryObject HasDistinctKeys v) :
    firstText? paths (reread num v) = firstText? paths v := by
  have hpath : ∀ path, (along? path (reread num v)).bind Json.text? =
      (along? path v).bind Json.text? := by
    intro path
    rw [along?_reread num path v h]
    cases along? path v with
    | none => rfl
    | some w => exact text?_reread num w
  rw [firstText?, funext hpath, firstText?]

end Step

namespace Protocol

open Step (along? along?_field firstText? firstText?_nil firstText?_cons firstText?_map_cons)

/-! ## Where texts stand -/

/-- Where an answer's text stands, the first place first. -/
def answerPaths : Protocol → List (List Step)
  | .ollama => [[.field "response"]]
  | .openAi =>
    [[.field "choices", .item 0, .field "message", .field "content"],
      [.field "choices", .item 0, .field "text"]]
  | .generic => ["text", "content", "response", "output", "result"].map fun name => [.field name]

/-- Where a text is taken from too, though no list stands there. -/
def strayPaths : Protocol → List (List Step)
  | .openAi =>
    [[.field "choices", .field "0", .field "message", .field "content"],
      [.field "choices", .field "0", .field "text"]]
  | .ollama | .generic => []

/-- A name that is no number leads into objects only. -/
theorem at?_field (name : String) (h : Json.itemIndex? name = none) (path : List String)
    (v : Json) : v.at? (name :: path) = (v.get? name).bind (Json.at? path) := by
  cases v with
  | array items =>
    have harray : (Json.array items).at? (name :: path) =
        ((Json.itemIndex? name).bind (items[·]?)).bind (Json.at? path) := rfl
    rw [harray, h]
    rfl
  | _ => rfl

/-- A zero leads to the first item of an array, and to a field of an object. -/
theorem at?_zero (path : List String) (v : Json) :
    v.at? ("0" :: path) = ((v.item? 0).or (v.get? "0")).bind (Json.at? path) := by
  cases v with
  | array items =>
    have harray : (Json.array items).at? ("0" :: path) =
        ((Json.itemIndex? "0").bind (items[·]?)).bind (Json.at? path) := rfl
    have hzero : Json.itemIndex? "0" = some 0 := by decide +kernel
    have hfield : (Json.array items).get? "0" = none := rfl
    rw [harray, hzero, hfield, Option.or_none]
    rfl
  | _ => rfl

/-- The paths to the text of a choice. -/
def choicePaths : List (List Step) :=
  [[.field "message", .field "content"], [.field "text"]]

theorem firstText?_choicePaths (v : Json) :
    firstText? choicePaths v =
      ((v.at? ["message", "content"]).bind Json.text?).or ((v.at? ["text"]).bind Json.text?) := by
  have hmessage := at?_field "message" (by decide +kernel) ["content"] v
  have hcontent := at?_field "content" (by decide +kernel) []
  have htext := at?_field "text" (by decide +kernel) [] v
  rw [hmessage, htext, funext hcontent, choicePaths, firstText?_cons, firstText?_cons,
    firstText?_nil, Option.or_none]
  rfl

theorem textOf?_openAi (v : Json) :
    openAi.textOf? v = (v.get? "choices").bind fun choices =>
      ((choices.item? 0).or (choices.get? "0")).bind (firstText? choicePaths) := by
  have hchoices := at?_field "choices" (by decide +kernel)
  rw [textOf?, hchoices, hchoices, funext (at?_zero _), funext (at?_zero _)]
  cases v.get? "choices" with
  | none => rfl
  | some choices =>
    rw [Option.bind_some, Option.bind_some, Option.bind_some]
    cases (choices.item? 0).or (choices.get? "0") with
    | none => rfl
    | some choice =>
      rw [Option.bind_some, Option.bind_some, Option.bind_some, firstText?_choicePaths]

/-- **The text of an answer** stands where the protocol says, or else astray. -/
theorem textOf?_eq (p : Protocol) (v : Json) :
    p.textOf? v = (firstText? p.answerPaths v).or (firstText? p.strayPaths v) := by
  cases p with
  | ollama =>
    rw [answerPaths, strayPaths, firstText?_cons, firstText?_nil, Option.or_none, Option.or_none,
      along?_field]
    rfl
  | openAi =>
    have hanswer : answerPaths .openAi =
        (choicePaths.map (Step.item 0 :: ·)).map (Step.field "choices" :: ·) := rfl
    have hstray : strayPaths .openAi =
        (choicePaths.map (Step.field "0" :: ·)).map (Step.field "choices" :: ·) := rfl
    rw [textOf?_openAi, hanswer, hstray, firstText?_map_cons, firstText?_map_cons,
      funext (firstText?_map_cons _ _), funext (firstText?_map_cons _ _), Step.below?]
    cases v.get? "choices" with
    | none => rfl
    | some choices =>
      -- No value has both an item and a field.
      cases choices with
      | array items =>
        have hfield : (Json.array items).get? "0" = none := rfl
        simp only [Option.bind_some, Step.below?, hfield, Option.or_none, Option.bind_none]
      | _ => rfl
  | generic =>
    have hpaths : answerPaths .generic = textFields.map fun name => [.field name] := rfl
    rw [hpaths, strayPaths, firstText?_nil, Option.or_none, firstText?, List.findSome?_map, textOf?]
    simp only [Function.comp_def, along?_field]

/-- **The text of an answer comes back as it was written.** For every protocol and every value
whose first text where the protocol looks is `t`, the text of either of the value's texts is
`t`, whatever else the value holds. And a body that is no JSON, or that has no text where the
protocol looks, is its own text, but for one that has a text astray: of it that text is
taken. -/
theorem text_undoes_encoding (p : Protocol) :
    (∀ (v : Json) (t : String), v.WellFormed → nesting v ≤ maxDepth →
      firstText? p.answerPaths v = some t → p.text (compact v) = t ∧ p.text (pretty v) = t) ∧
    ∀ raw : String, (parse? raw).bind (firstText? p.answerPaths) = none →
      p.text raw = ((parse? raw).bind (firstText? p.strayPaths)).getD raw := by
  constructor
  · intro v t hv hnesting htext
    obtain ⟨hcompact, hpretty⟩ := hv.parse?_eq hnesting
    have hread : p.textOf? (reread Json.Number.asRead v) = some t := by
      rw [textOf?_eq, Step.firstText?_reread _ _ hv.keys, htext, Option.some_or]
    rw [text, text, hcompact, hpretty, Option.bind_some, hread]
    exact ⟨rfl, rfl⟩
  · intro raw hraw
    rw [text, funext (textOf?_eq p)]
    cases hparse : parse? raw with
    | none => rfl
    | some v =>
      rw [hparse, Option.bind_some] at hraw
      rw [Option.bind_some, Option.bind_some, hraw, Option.none_or]

/-- An answer with no text in its message but with one beside it, and with the greatest number
there is. -/
def plainAnswer : Json :=
  .object [("usage", .object [("cost", .number (.float (.ofParts false (2 ^ 53 - 1) 971)))]),
    ("choices", .array [.object [("message", .object [("content", .null)]),
      ("text", .string "say \"é\"\n\x01")]])]

theorem text_undoes_encoding_plainAnswer :
    (plainAnswer.WellFormed ∧ nesting plainAnswer ≤ maxDepth ∧
      firstText? openAi.answerPaths plainAnswer = some "say \"é\"\n\x01") ∧
    openAi.text (compact plainAnswer) = "say \"é\"\n\x01" ∧
    (parse? "say").bind (firstText? openAi.answerPaths) = none ∧ openAi.text "say" = "say" := by
  have hkeys : EveryObject HasDistinctKeys plainAnswer := by
    simp only [plainAnswer, EveryObject, Json.EveryField, Json.EveryItem, and_true]
    decide
  have hnumbers : ∀ n ∈ plainAnswer.numbers, n.IsHeld :=
    List.forall_mem_singleton.2 ⟨false, 2 ^ 53 - 1, 971, by decide, by decide, by decide, rfl⟩
  have hnesting : nesting plainAnswer ≤ maxDepth := by decide +kernel
  have htext : firstText? openAi.answerPaths plainAnswer = some "say \"é\"\n\x01" := by
    decide +kernel
  have hraw : (parse? "say").bind (firstText? openAi.answerPaths) = none := by decide +kernel
  obtain ⟨hround, hother⟩ := text_undoes_encoding openAi
  have hown := hother "say" hraw
  have hnone : (parse? "say").bind (firstText? openAi.strayPaths) = none := by decide +kernel
  rw [hnone] at hown
  exact ⟨⟨⟨hkeys, hnumbers⟩, hnesting, htext⟩,
    (hround plainAnswer _ ⟨hkeys, hnumbers⟩ hnesting htext).1, hraw, hown⟩

/-- A field `0` of an object is taken for the first item of a list. -/
theorem object_taken_for_list :
    ¬ ∀ (p : Protocol) (raw : String), (parse? raw).bind (firstText? p.answerPaths) = none →
      p.text raw = raw := by
  intro h
  have hnone : (parse? "\x7b\"choices\":\x7b\"0\":\x7b\"text\":\"x\"\x7d\x7d\x7d").bind
      (firstText? openAi.answerPaths) = none := by decide +kernel
  have htext := h openAi _ hnone
  revert htext
  decide +kernel

end Protocol

end Docsmith.Model
