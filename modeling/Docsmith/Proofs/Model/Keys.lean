import Docsmith.Model.Exchange
import Docsmith.Proofs.Model.Line
/-!
# Models — keys

A backend's key stays where it is. No request, endpoint or answer depends on it, and
neither does the time that requests take, as long as backends go by the name, the
endpoint and the payload of a call (`KeyBlind`): whatever is asked of backends without
their keys is what is asked of them with keys, but for the keys. A post carries the key
in its place and nowhere else (`invoke_withoutKey`).
-/


namespace Docsmith

/-- A backend without its key. -/
def Config.Backend.withoutKey (b : Config.Backend) : Config.Backend :=
  { b with apiKey := none }

namespace Model

variable {α : Type} {b : Config.Backend} {r : Request} {reply : Call → Except Failure String}
variable {backends : Backends}

/-! ## Calls -/

@[simp] theorem Protocol.ofBackend_withoutKey (b : Config.Backend) :
    Protocol.ofBackend b.withoutKey = Protocol.ofBackend b :=
  rfl

@[simp] theorem Protocol.payload_withoutKey (p : Protocol) (b : Config.Backend) (prompt : String) :
    p.payload b.withoutKey prompt = p.payload b prompt := by
  cases p <;> rfl

/-- A call of a backend without its key. -/
def Call.withoutKey (c : Call) : Call :=
  { c with backend := c.backend.withoutKey }

theorem Call.ofPrompt_withoutKey (prompt : String) (b : Config.Backend) :
    Call.ofPrompt prompt b.withoutKey = (Call.ofPrompt prompt b).withoutKey := by
  rw [Call.ofPrompt, Protocol.ofBackend_withoutKey, Protocol.payload_withoutKey]
  rfl

theorem Call.contribution_withoutKey (c : Call) (purpose : Purpose)
    (reply : Except Failure String) :
    c.withoutKey.contribution purpose reply = c.contribution purpose reply := by
  unfold contribution
  rw [withoutKey, Protocol.ofBackend_withoutKey]
  rfl

/-- What depends on the backend's name, the endpoint and the payload of a call. -/
def KeyBlind (f : Call → α) : Prop :=
  ∀ c d : Call, c.backend.name = d.backend.name → c.endpoint = d.endpoint →
    c.payload = d.payload → f c = f d

theorem KeyBlind.withoutKey {f : Call → α} (h : KeyBlind f) (c : Call) : f c.withoutKey = f c :=
  h c.withoutKey c rfl rfl rfl

theorem KeyBlind.result (h : KeyBlind backends) : KeyBlind fun c => (backends c).result :=
  fun c d hname hendpoint hpayload => congrArg Reply.result (h c d hname hendpoint hpayload)

/-! ## Requests -/

/-- A request to backends without their keys. -/
def Request.withoutKeys (r : Request) : Request :=
  { r with backends := r.backends.map (·.map (·.withoutKey)) }

theorem Request.calls_withoutKeys (r : Request) :
    r.withoutKeys.calls = r.calls.map Call.withoutKey := by
  obtain ⟨backends, element, purpose⟩ := r
  cases backends with
  | none => rfl
  | some backends =>
    rw [calls, calls, withoutKeys, Option.map_some, Option.getD_some, Option.getD_some,
      List.map_map, List.map_map]
    exact List.map_congr_left fun b _ => Call.ofPrompt_withoutKey _ b

theorem Request.answer_withoutKeys (r : Request) (replies : List (Except Failure String)) :
    r.withoutKeys.answer replies = r.answer replies := by
  unfold answer
  rw [calls_withoutKeys, List.zip_map_left, List.map_map]
  obtain ⟨backends, element, purpose⟩ := r
  -- without any backend nothing is asked
  cases backends with
  | none => rfl
  | some backends =>
    cases backends with
    | nil => rfl
    | cons b backends =>
      refine congrArg Contribution.merge (List.map_congr_left ?_)
      rintro ⟨c, reply⟩ -
      exact c.contribution_withoutKey purpose reply

theorem Request.run_withoutKeys (h : KeyBlind reply) (r : Request) :
    r.withoutKeys.run reply = r.run reply := by
  rw [run, run, answer_withoutKeys, calls_withoutKeys, List.map_map]
  exact congrArg r.answer (List.map_congr_left fun c _ => h.withoutKey c)

theorem Request.duration_withoutKeys (h : KeyBlind backends) (r : Request) :
    r.withoutKeys.duration backends = r.duration backends := by
  rw [duration, duration, calls_withoutKeys, List.map_map]
  refine congrArg (List.foldl max 0) (List.map_congr_left fun c _ => ?_)
  rw [Function.comp, h.withoutKey]

/-! ## Requests over time -/

namespace Timeline

/-- The same requests, to backends without their keys. -/
def withoutKeys (l : Timeline) : Timeline :=
  ⟨l.entries.map fun (r, times) => (r.withoutKeys, times)⟩

/-- The flight of a call of a backend without its key. -/
def Flight.withoutKey (f : Flight) : Flight :=
  { f with call := f.call.withoutKey }

/-- **Keys take no time.** -/
theorem ofRequests_withoutKeys (h : KeyBlind backends) (slots : Nat) (requests : List Request) :
    ofRequests backends slots (requests.map Request.withoutKeys) =
      (ofRequests backends slots requests).withoutKeys := by
  have hdurations : (requests.map Request.withoutKeys).map (·.duration backends) =
      requests.map (·.duration backends) := by
    rw [List.map_map]
    exact List.map_congr_left fun r _ => r.duration_withoutKeys h
  unfold ofRequests withoutKeys
  dsimp only
  rw [hdurations, List.length_map, List.zip_map_left, List.map_map, List.map_map]
  rfl

@[simp] theorem finish_withoutKeys (l : Timeline) : l.withoutKeys.finish = l.finish := by
  rw [finish, finish, withoutKeys, List.map_map]
  rfl

theorem flights_withoutKeys (h : KeyBlind backends) (l : Timeline) (limit : Span) :
    l.withoutKeys.flights backends limit =
      (l.flights backends limit).map Flight.withoutKey := by
  have hcalls : ∀ (r : Request) (start : Nat), (r.withoutKeys.calls.map fun c =>
      (⟨c, start, min (start + (backends c).delay.nanos) limit.nanos⟩ : Flight)) =
        (r.calls.map fun c =>
          (⟨c, start, min (start + (backends c).delay.nanos) limit.nanos⟩ : Flight)).map
          Flight.withoutKey := by
    intro r start
    rw [Request.calls_withoutKeys, List.map_map, List.map_map]
    refine List.map_congr_left fun c _ => ?_
    rw [Function.comp, h.withoutKey]
    rfl
  rw [flights, flights, withoutKeys, List.filter_map, List.flatMap_map, List.map_flatMap]
  exact List.flatMap_congr fun entry _ => hcalls entry.1 entry.2.1

end Timeline

/-! ## Requests in line -/

/-- The same request under way. -/
def Pending.withoutKeys (p : Pending) : Pending :=
  { p with request := p.request.withoutKeys }

namespace Line

/-- The same line, to backends without their keys. -/
def withoutKeys (l : Line) : Line where
  waiting := l.waiting.map fun (index, r) => (index, r.withoutKeys)
  pending := l.pending.map Pending.withoutKeys
  arrived := l.arrived

@[simp] theorem isOver_withoutKeys (l : Line) : l.withoutKeys.isOver = l.isOver := by
  rw [isOver, isOver, withoutKeys, List.isEmpty_map, List.isEmpty_map]

/-- **Whatever happens in a line happens in the one without keys too.** -/
theorem step_withoutKeys (h : KeyBlind reply) (slots : Nat) (l : Line) (move : Move) :
    l.withoutKeys.step slots reply move = (l.step slots reply move).withoutKeys := by
  obtain ⟨waiting, pending, arrived⟩ := l
  cases move with
  | begin =>
    cases waiting with
    | nil => rfl
    | cons entry waiting =>
      have hlength : (pending.map Pending.withoutKeys).length = pending.length := List.length_map _
      rw [step, step]
      by_cases hfree : pending.length < slots
      · simp only [withoutKeys, List.map_cons, hlength, hfree, if_true, List.map_append,
          List.map_nil, Pending.withoutKeys, Request.calls_withoutKeys, List.map_map]
        rfl
      · simp only [withoutKeys, List.map_cons, hlength, hfree, if_false]
  | reply n k =>
    rw [step, step]
    dsimp only [withoutKeys]
    rw [List.getElem?_map]
    cases pending[n]? with
    | none => rfl
    | some p =>
      dsimp only [Option.map_some, Pending.withoutKeys]
      rw [Request.calls_withoutKeys, List.getElem?_map]
      cases p.request.calls[k]? with
      | none => rfl
      | some c =>
        dsimp only [Option.map_some]
        rw [h.withoutKey, List.map_set]
        rfl
  | finish n =>
    rw [step, step]
    dsimp only [withoutKeys]
    rw [List.getElem?_map]
    cases pending[n]? with
    | none => rfl
    | some p =>
      dsimp only [Option.map_some, Pending.withoutKeys]
      split_ifs
      · rw [List.eraseIdx_map, Request.answer_withoutKeys]
        rfl
      · rfl

end Line

/-! ## Posts -/

/-- A post without the key that it carries. -/
def Post.withoutKey (p : Post) : Post :=
  { p with bearer := none }

theorem Post.ofCall_withoutKey (b : Config.Backend) (address : Url) (payload : Json) :
    Post.ofCall b.withoutKey address payload = (Post.ofCall b address payload).withoutKey := by
  have hbearer : bearerOf b.withoutKey = none := ite_self none
  rw [Post.ofCall, hbearer]
  rfl

/-- What comes of a post does not depend on the key, whatever it gets. -/
theorem Post.outcome_withoutKey (p : Post) (backend : String) :
    p.withoutKey.outcome backend = p.outcome backend := by
  funext response
  cases response <;> rfl

theorem Post.repeated_withoutKey (p : Post) (outcome : Nat → Except Failure String)
    (repetitions n : Nat) :
    (p.withoutKey.repeated outcome repetitions n).1 = (p.repeated outcome repetitions n).1 ∧
      (p.withoutKey.repeated outcome repetitions n).2.map withoutKey =
        (p.repeated outcome repetitions n).2.map withoutKey := by
  induction repetitions generalizing n with
  | zero => exact ⟨rfl, rfl⟩
  | succ repetitions ih =>
    rw [repeated, repeated]
    split_ifs
    · exact ⟨(ih (n + 1)).1, congrArg (List.cons p.withoutKey) (ih (n + 1)).2⟩
    · exact ⟨rfl, rfl⟩

/-- **A key makes no difference to a call**, but for the key that its posts carry. -/
theorem invoke_withoutKey (b : Config.Backend) (endpoint : String) (payload : Json)
    (respond : Nat → Response) :
    (invoke b.withoutKey endpoint payload respond).1 = (invoke b endpoint payload respond).1 ∧
      (invoke b.withoutKey endpoint payload respond).2.map Post.withoutKey =
        (invoke b endpoint payload respond).2.map Post.withoutKey := by
  unfold invoke
  split
  · exact ⟨rfl, rfl⟩
  · dsimp only
    rw [Post.ofCall_withoutKey, Post.outcome_withoutKey]
    exact Post.repeated_withoutKey _ _ _ _

end Model

end Docsmith
