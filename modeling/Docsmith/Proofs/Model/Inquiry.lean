import Docsmith.Model.Request
import Mathlib.Data.List.Induction
import Mathlib.Data.List.Nodup
import Mathlib.Tactic.SplitIfs
/-!
# Models — one request to many backends

A request is put to all of its backends at the same time. Its calls are sent
in any order, and each reply comes when it comes: before or after the other
calls are sent, before or after the other replies. Whatever the order, every
backend is called once and the answer is the one that the replies give in the
order of the backends (`Inquiry.Sound.step`, `Inquiry.Sound.answer_eq`). Only
the backends that have something to say make that answer, as if the others had
not been asked; where none has, the answer is what went wrong with each of
them (`answer_eq_of_speaking`, `answer_eq_faults`).
-/


namespace Docsmith

namespace Text

variable {text more : List Char}

@[simp] theorem isBlankText_append : isBlankText (text ++ more) =
    (isBlankText text && isBlankText more) := by
  simp [isBlankText]

/-- One character that is no blank is enough. -/
theorem isBlankText_cons {c : Char} (h : isBlank c = false) : isBlankText (c :: text) = false := by
  simp [isBlankText, h]

end Text

namespace Model

/-! ## What the backends say -/

/-- A backend and what becomes of its call. -/
structure Voice where
  backend : Config.Backend
  reply : Except Failure String

namespace Voice

/-- The text of the reply, if there is one. -/
def text (v : Voice) : String :=
  match v.reply with
  | .ok body => (Protocol.ofBackend v.backend).text body
  | .error _ => ""

/-- The backend replies with a text that is not blank. -/
def speaks (v : Voice) : Bool :=
  !Text.isBlankText v.text.toList

/-- What is wrong with a reply that has no text. -/
def cause (v : Voice) : String :=
  match v.reply with
  | .ok _ => "empty response"
  | .error f => f.cause

/-- What is said of a backend without a text. -/
def fault (purpose : Purpose) (v : Voice) : String :=
  "Error generating " ++ purpose.label ++ " with " ++ v.backend.name ++ ": " ++ v.cause

end Voice

variable {element : Element} {purpose : Purpose} {voices : List Voice} {v : Voice}

/-- The backends that speak, in their order. -/
def speaking (voices : List Voice) : List Voice :=
  voices.filter (·.speaks)

theorem speaking_speaking (voices : List Voice) : speaking (speaking voices) = speaking voices := by
  simp [speaking]

/-- What is asked of these backends about an element. -/
def Request.ofVoices (element : Element) (purpose : Purpose) (voices : List Voice) : Request :=
  ⟨some (voices.map (·.backend)), element, purpose⟩

/-- What a backend contributes: its text, or what is wrong. -/
theorem contribution_eq (prompt : String) :
    (Call.ofPrompt prompt v.backend).contribution purpose v.reply =
      if v.speaks then .text v.backend.name v.text
      else .fault v.backend.name (v.fault purpose) := by
  obtain ⟨backend, reply⟩ := v
  cases reply with
  | error f =>
    have hsilent : (⟨backend, .error f⟩ : Voice).speaks = false := rfl
    rw [hsilent, if_neg Bool.false_ne_true]
    rfl
  | ok body =>
    have hspeaks : (⟨backend, .ok body⟩ : Voice).speaks =
        !Text.isBlankText ((Protocol.ofBackend backend).text body).toList := rfl
    rw [hspeaks]
    unfold Call.contribution
    cases h : Text.isBlankText ((Protocol.ofBackend backend).text body).toList with
    | true =>
      have hblank : Text.isBlankText ((Protocol.ofBackend
          (Call.ofPrompt prompt backend).backend).text body).toList = true := h
      rw [Bool.not_true, if_neg Bool.false_ne_true]
      simp only [hblank, if_true]
      rfl
    | false =>
      have htext : Text.isBlankText ((Protocol.ofBackend
          (Call.ofPrompt prompt backend).backend).text body).toList = false := h
      rw [Bool.not_false, if_pos rfl]
      simp only [htext, Bool.false_eq_true, if_false]
      rfl

/-- All that the backends contribute, in their order. -/
def contributions (purpose : Purpose) (voices : List Voice) : List Contribution :=
  voices.map fun v =>
    if v.speaks then .text v.backend.name v.text else .fault v.backend.name (v.fault purpose)

/-- **The answer merges what the backends contribute.** -/
theorem answer_eq_merge (h : voices ≠ []) :
    (Request.ofVoices element purpose voices).answer (voices.map (·.reply)) =
      Contribution.merge (contributions purpose voices) := by
  obtain ⟨v, voices, rfl⟩ := List.exists_cons_of_ne_nil h
  have hzip : ((Request.ofVoices element purpose (v :: voices)).calls.zip
      ((v :: voices).map (·.reply))).map (fun p => p.1.contribution purpose p.2) =
      contributions purpose (v :: voices) := by
    simp only [Request.calls, Request.ofVoices, Option.getD_some, List.map_map, contributions]
    rw [List.zip_map', List.map_map]
    exact List.map_congr_left fun w _ => contribution_eq _
  exact congrArg Contribution.merge hzip

theorem texts_contributions (purpose : Purpose) (voices : List Voice) :
    (contributions purpose voices).filterMap Contribution.text? =
      (speaking voices).map fun v => (v.backend.name, v.text) := by
  rw [contributions, speaking, List.filterMap_map, ← List.filterMap_eq_map, List.filterMap_filter]
  refine List.filterMap_congr fun v _ => ?_
  cases h : v.speaks <;> simp [h, Contribution.text?]

/-- **Only backends that speak make the answer**, if there are any. -/
theorem answer_eq_of_speaking {others : List Voice}
    (hsame : speaking others = speaking voices) (hsome : speaking voices ≠ []) :
    (Request.ofVoices element purpose voices).answer (voices.map (·.reply)) =
      (Request.ofVoices element purpose others).answer (others.map (·.reply)) := by
  have hvoices : voices ≠ [] := by
    rintro rfl
    exact hsome rfl
  have hothers : others ≠ [] := by
    rintro rfl
    exact hsome hsame.symm
  rw [answer_eq_merge hvoices, answer_eq_merge hothers]
  unfold Contribution.merge
  rw [texts_contributions, texts_contributions, hsame]
  obtain ⟨first, rest, hfirst⟩ := List.exists_cons_of_ne_nil hsome
  rw [hfirst]
  cases rest <;> rfl

/-- **Where no backend speaks** the answer is what went wrong with each. -/
theorem answer_eq_faults (h : voices ≠ []) (hnone : speaking voices = []) :
    (Request.ofVoices element purpose voices).answer (voices.map (·.reply)) =
      "\n".intercalate (voices.map (·.fault purpose)) := by
  have hfaults : (contributions purpose voices).filterMap Contribution.diagnostic? =
      voices.map (·.fault purpose) := by
    rw [contributions, List.filterMap_map, ← List.filterMap_eq_map]
    refine List.filterMap_congr fun v hv => ?_
    have hsilent := List.filter_eq_nil_iff.1 hnone v hv
    simp [hsilent, Contribution.diagnostic?]
  rw [answer_eq_merge h]
  unfold Contribution.merge
  rw [texts_contributions, hnone, List.map_nil, hfaults]

/-! ## Answers say something -/

/-- A diagnostic is not blank. -/
theorem fault_notBlank (purpose : Purpose) (v : Voice) :
    Text.isBlankText (v.fault purpose).toList = false := by
  have hstart : Text.isBlankText "Error generating ".toList = false := by decide
  unfold Voice.fault
  simp only [String.toList_append, Text.isBlankText_append, hstart, Bool.false_and]

/-- A join whose first part is not blank is not blank. -/
theorem intercalate_notBlank {separator first : String} (rest : List String)
    (h : Text.isBlankText first.toList = false) :
    Text.isBlankText (separator.intercalate (first :: rest)).toList = false := by
  cases rest with
  | nil => rwa [String.intercalate_singleton]
  | cons second rest => simp [String.intercalate_cons_cons, String.toList_append, h]

/-- **No answer is blank.** -/
theorem answer_notBlank (h : voices ≠ []) :
    Text.isBlankText ((Request.ofVoices element purpose voices).answer
      (voices.map (·.reply))).toList = false := by
  cases hsome : speaking voices with
  | nil =>
    rw [answer_eq_faults h hsome]
    obtain ⟨v, voices, rfl⟩ := List.exists_cons_of_ne_nil h
    exact intercalate_notBlank _ (fault_notBlank purpose v)
  | cons first rest =>
    have hspeaks : first.speaks = true :=
      (List.mem_filter.1 (hsome ▸ List.mem_cons_self : first ∈ speaking voices)).2
    rw [answer_eq_merge h]
    unfold Contribution.merge
    rw [texts_contributions, hsome]
    cases rest with
    | nil => simpa [Voice.speaks] using hspeaks
    | cons second rest =>
      refine intercalate_notBlank _ ?_
      have hmark : Text.isBlank '#' = false := by decide
      simp [String.toList_append, Text.isBlankText_cons hmark]

/-! ## Calls in any order -/

/-- How far a call has come. -/
inductive Progress where
  | waiting
  | underWay
  | answered (reply : Except Failure String)

/-- The reply, if it has come. -/
def Progress.reply? : Progress → Option (Except Failure String)
  | .answered reply => some reply
  | _ => none

/-- A request that is put to some backends: how far the call of each has come,
and the numbers of the calls in the order in which they were sent. -/
structure Inquiry where
  progress : List Progress
  sent : List Nat := []

namespace Inquiry

/-- Something that happens to a call: it is sent, or its reply comes. -/
inductive Move where
  | send (call : Nat)
  | receive (call : Nat)

/-- No call is sent yet. -/
def start (voices : List Voice) : Inquiry :=
  ⟨voices.map fun _ => .waiting, []⟩

/-- The inquiry after something has happened. What cannot happen changes
nothing: a call is sent once, and its reply comes after that. -/
def step (voices : List Voice) (q : Inquiry) : Move → Inquiry
  | .send k =>
    match q.progress[k]? with
    | some .waiting => ⟨q.progress.set k .underWay, q.sent ++ [k]⟩
    | _ => q
  | .receive k =>
    match q.progress[k]?, voices[k]? with
    | some .underWay, some v => { q with progress := q.progress.set k (.answered v.reply) }
    | _, _ => q

/-- What has become of the calls after some moves. -/
def course (voices : List Voice) (moves : List Move) : Inquiry :=
  moves.foldl (step voices) (start voices)

/-- All replies have come. -/
def isOver (q : Inquiry) : Bool :=
  q.progress.all fun p => p.reply?.isSome

/-- The replies so far, in the order of the backends. -/
def replies (q : Inquiry) : List (Except Failure String) :=
  q.progress.filterMap Progress.reply?

/-- The answer to a request, from the replies so far. -/
def answer (q : Inquiry) (r : Request) : String :=
  r.answer q.replies

/-- Each call is on its way to the reply of its own backend, and was sent
exactly once if it is not waiting. -/
structure Sound (voices : List Voice) (q : Inquiry) : Prop where
  length : q.progress.length = voices.length
  found : ∀ (k : Nat) reply, q.progress[k]? = some (.answered reply) →
    ∃ v, voices[k]? = some v ∧ v.reply = reply
  nodup : q.sent.Nodup
  sent : ∀ k, k ∈ q.sent ↔ k < voices.length ∧ q.progress[k]? ≠ some .waiting

variable {q : Inquiry}

theorem Sound.start (voices : List Voice) : Sound voices (start voices) := by
  refine ⟨List.length_map _, fun k reply h => ?_, List.nodup_nil, fun k => ?_⟩
  · rw [Inquiry.start, List.getElem?_map, Option.map_eq_some_iff] at h
    obtain ⟨_, -, h⟩ := h
    cases h
  · simp only [Inquiry.start, List.not_mem_nil, List.getElem?_map, false_iff, not_and, not_not]
    intro hk
    rw [List.getElem?_eq_getElem hk, Option.map_some]

/-- **Whatever happens**, each call has its own reply and is sent once. -/
theorem Sound.step (h : Sound voices q) (m : Move) : Sound voices (q.step voices m) := by
  cases m with
  | send k =>
    rw [Inquiry.step]
    split
    · next hwaiting =>
      have hk : k < q.progress.length := (List.getElem?_eq_some_iff.1 hwaiting).1
      have hnew : k ∉ q.sent := fun hsent => ((h.sent k).1 hsent).2 hwaiting
      refine ⟨by rw [List.length_set, h.length], fun n reply hn => ?_, ?_, fun n => ?_⟩
      · rw [List.getElem?_set] at hn
        split_ifs at hn
        · cases hn
        · exact h.found n reply hn
      · refine h.nodup.append (List.nodup_singleton k) ?_
        rwa [List.disjoint_singleton]
      · rw [List.mem_append, List.mem_singleton, h.sent, List.getElem?_set]
        by_cases hkn : k = n
        · subst hkn
          simp [hk, h.length ▸ hk]
        · simp [hkn, Ne.symm hkn]
    · exact h
  | receive k =>
    rw [Inquiry.step]
    split
    · next v hunder hv =>
      have hk : k < q.progress.length := (List.getElem?_eq_some_iff.1 hunder).1
      refine ⟨by rw [List.length_set, h.length], fun n reply hn => ?_, h.nodup, fun n => ?_⟩
      · rw [List.getElem?_set] at hn
        split_ifs at hn with hkn
        · cases hn
          exact ⟨v, hkn ▸ hv, rfl⟩
        · exact h.found n reply hn
      · rw [h.sent, List.getElem?_set]
        by_cases hkn : k = n
        · subst hkn
          have hp := (List.getElem?_eq_some_iff.1 hunder).2
          simp [hk, hp]
        · simp [hkn]
    · exact h

theorem Sound.course (voices : List Voice) (moves : List Move) :
    Sound voices (course voices moves) := by
  induction moves using List.reverseRecOn with
  | nil => exact .start voices
  | append_singleton moves m ih =>
    rw [Inquiry.course, List.foldl_append]
    exact ih.step m

/-- **All replies together** are those of the backends, in their order. -/
theorem Sound.replies_eq (h : Sound voices q) (hover : q.isOver = true) :
    q.replies = voices.map (·.reply) := by
  have hfull : q.progress = voices.map fun v => .answered v.reply := by
    refine List.ext_getElem? fun k => ?_
    rw [List.getElem?_map]
    cases hk : q.progress[k]? with
    | none =>
      have hlen := List.getElem?_eq_none_iff.1 hk
      rw [h.length] at hlen
      rw [List.getElem?_eq_none hlen, Option.map_none]
    | some p =>
      have hreply := List.all_eq_true.1 hover p (List.mem_of_getElem? hk)
      cases p with
      | waiting | underWay => cases hreply
      | answered reply =>
        obtain ⟨v, hv, rfl⟩ := h.found k reply hk
        rw [hv, Option.map_some]
  rw [replies, hfull, List.filterMap_map]
  exact congrFun List.filterMap_eq_map' voices

/-- And every backend was called once. -/
theorem Sound.sent_perm (h : Sound voices q) (hover : q.isOver = true) :
    q.sent.Perm (List.range voices.length) := by
  refine (List.perm_ext_iff_of_nodup h.nodup List.nodup_range).2 fun k => ?_
  rw [h.sent, List.mem_range, and_iff_left_iff_imp]
  intro _ hwaiting
  have hreply := List.all_eq_true.1 hover _ (List.mem_of_getElem? hwaiting)
  cases hreply

/-! ## Every inquiry comes to its end -/

/-- The reply to a call has come. -/
def IsAnswered (q : Inquiry) (k : Nat) : Prop :=
  ∃ reply, q.progress[k]? = some (.answered reply)

/-- What happens changes at most one call, whose reply has not come before. -/
theorem progress_step (q : Inquiry) (m : Move) :
    (q.step voices m).progress = q.progress ∨ ∃ n p after, q.progress[n]? = some p ∧
      p.reply? = none ∧ (q.step voices m).progress = q.progress.set n after := by
  cases m with
  | send n =>
    rw [Inquiry.step]
    split
    · next hn => exact .inr ⟨n, _, _, hn, rfl, rfl⟩
    · exact .inl rfl
  | receive n =>
    rw [Inquiry.step]
    split
    · next hn _ => exact .inr ⟨n, _, _, hn, rfl, rfl⟩
    · exact .inl rfl

/-- A reply that has come stays. -/
theorem IsAnswered.step {k : Nat} (h : q.IsAnswered k) (m : Move) :
    (q.step voices m).IsAnswered k := by
  obtain ⟨reply, hk⟩ := h
  rcases progress_step q m with hsame | ⟨n, p, after, hn, hnone, hset⟩
  · exact ⟨reply, by rw [hsame, hk]⟩
  · have hne : n ≠ k := by
      rintro rfl
      rw [hk, Option.some.injEq] at hn
      rw [← hn] at hnone
      cases hnone
    exact ⟨reply, by rw [hset, List.getElem?_set_ne hne, hk]⟩

/-- However far a call has come, it can still be sent and answered. -/
theorem Sound.isAnswered (h : Sound voices q) {k : Nat} (hk : k < voices.length) :
    ((q.step voices (.send k)).step voices (.receive k)).IsAnswered k := by
  have hlength : k < q.progress.length := h.length ▸ hk
  cases hp : q.progress[k] with
  | waiting =>
    refine ⟨voices[k].reply, ?_⟩
    simp [Inquiry.step, hp, hk, hlength]
  | underWay =>
    refine ⟨voices[k].reply, ?_⟩
    simp [Inquiry.step, hp, hk, hlength]
  | answered reply =>
    have hanswered : q.IsAnswered k := ⟨reply, by rw [List.getElem?_eq_getElem hlength, hp]⟩
    exact (hanswered.step _).step _

/-- **Whatever has happened so far**, all replies can still come. -/
theorem exists_isOver (voices : List Voice) (moves : List Move) :
    ∃ more, (course voices (moves ++ more)).isOver = true := by
  -- one call after the other
  have hsome : ∀ n ≤ voices.length, ∃ more, ∀ k < n,
      (course voices (moves ++ more)).IsAnswered k := by
    intro n
    induction n with
    | zero => exact fun _ => ⟨[], fun k hk => absurd hk (Nat.not_lt_zero k)⟩
    | succ n ih =>
      intro hn
      obtain ⟨more, hmore⟩ := ih (Nat.le_of_succ_le hn)
      refine ⟨more ++ [.send n, .receive n], fun k hk => ?_⟩
      have hcourse : course voices (moves ++ (more ++ [.send n, .receive n])) =
          ((course voices (moves ++ more)).step voices (.send n)).step voices (.receive n) := by
        rw [← List.append_assoc, course, List.foldl_append]
        rfl
      rw [hcourse]
      rcases Nat.lt_succ_iff_lt_or_eq.1 hk with hk | rfl
      · exact ((hmore k hk).step _).step _
      · exact (Sound.course voices _).isAnswered hn
  obtain ⟨more, hmore⟩ := hsome voices.length (Nat.le_refl _)
  refine ⟨more, List.all_eq_true.2 fun p hp => ?_⟩
  obtain ⟨k, hk, rfl⟩ := List.getElem_of_mem hp
  obtain ⟨reply, hreply⟩ := hmore k ((Sound.course voices _).length ▸ hk)
  rw [List.getElem?_eq_getElem hk, Option.some.injEq] at hreply
  rw [hreply]
  rfl

/-! ## Backends that fail -/

/-- The calls of a request that were sent so far. -/
def calls (q : Inquiry) (r : Request) : List Call :=
  q.sent.filterMap fun k => r.calls[k]?

/-- Every call of the request was sent, and none twice. -/
theorem Sound.calls_perm (h : Sound voices q) (hover : q.isOver = true) :
    (q.calls (.ofVoices element purpose voices)).Perm
      ((voices.map (·.backend)).map (Call.ofPrompt (purpose.prompt element))) := by
  have hplaces : ∀ calls : List Call,
      (List.range calls.length).map (fun k => calls[k]?) = calls.map some := by
    intro calls
    refine List.ext_getElem (by simp) fun k hk hk' => ?_
    simp only [List.length_map] at hk'
    simp [hk']
  have hlength : voices.length =
      ((voices.map (·.backend)).map (Call.ofPrompt (purpose.prompt element))).length := by simp
  refine ((h.sent_perm hover).filterMap _).trans (.of_eq ?_)
  have hfound := congrArg (List.filterMap id) (hplaces
    ((voices.map (·.backend)).map (Call.ofPrompt (purpose.prompt element))))
  rw [List.filterMap_map, List.filterMap_map, ← hlength] at hfound
  exact hfound.trans List.filterMap_some

/-- **The failures of backends are their own.** Whatever happens to a request
that is put to some backends, it can come to its end; and in whatever order its
calls were sent and its replies came, each backend has then been called once.
If some of the backends say something, the answer is the one that these give
when nobody else is asked, in any order; so it is the same whatever the others
fail with. If none does, the answer tells of each backend, in their order, what
went wrong. It is never blank, and it is the answer that the request has by
itself where each call has its reply. -/
theorem failures_isolated (element : Element) (purpose : Purpose) (hne : voices ≠ []) :
    (∀ moves, ∃ more, (course voices (moves ++ more)).isOver = true) ∧
    ∀ moves, (course voices moves).isOver = true →
      (course voices moves).sent.Perm (List.range voices.length) ∧
      ((course voices moves).calls (.ofVoices element purpose voices)).Perm
        ((voices.map (·.backend)).map (Call.ofPrompt (purpose.prompt element))) ∧
      (speaking voices ≠ [] →
        (∀ moves', (course (speaking voices) moves').isOver = true →
          (course voices moves).answer (.ofVoices element purpose voices) =
            (course (speaking voices) moves').answer
              (.ofVoices element purpose (speaking voices))) ∧
        ∀ others, speaking others = speaking voices →
          ∀ moves', (course others moves').isOver = true →
            (course voices moves).answer (.ofVoices element purpose voices) =
              (course others moves').answer (.ofVoices element purpose others)) ∧
      (speaking voices = [] →
        (course voices moves).answer (.ofVoices element purpose voices) =
          "\n".intercalate (voices.map fun v => "Error generating " ++ purpose.label ++ " with " ++
            v.backend.name ++ ": " ++ v.cause)) ∧
      Text.isBlankText ((course voices moves).answer
        (.ofVoices element purpose voices)).toList = false ∧
      ∀ reply, (∀ v ∈ voices, reply (Call.ofPrompt (purpose.prompt element) v.backend) = v.reply) →
        (course voices moves).answer (.ofVoices element purpose voices) =
          (Request.ofVoices element purpose voices).run reply := by
  have hanswer : ∀ {voices moves}, (course voices moves).isOver = true →
      (course voices moves).answer (.ofVoices element purpose voices) =
        (Request.ofVoices element purpose voices).answer (voices.map (·.reply)) := by
    intro voices moves hover
    rw [answer, (Sound.course voices moves).replies_eq hover]
  refine ⟨exists_isOver voices, fun moves hover => ⟨?_, ?_, fun hsome => ?_, fun hnone => ?_, ?_,
    fun reply hreply => ?_⟩⟩
  · exact (Sound.course voices moves).sent_perm hover
  · exact (Sound.course voices moves).calls_perm hover
  · have hothers : ∀ others, speaking others = speaking voices →
        ∀ moves', (course others moves').isOver = true →
          (course voices moves).answer (.ofVoices element purpose voices) =
            (course others moves').answer (.ofVoices element purpose others) := by
      intro others hsame moves' hover'
      rw [hanswer hover, hanswer hover']
      exact answer_eq_of_speaking hsame hsome
    exact ⟨hothers _ (speaking_speaking voices), hothers⟩
  · rw [hanswer hover]
    exact answer_eq_faults hne hnone
  · rw [hanswer hover]
    exact answer_notBlank hne
  · have hreplies : (Request.ofVoices element purpose voices).calls.map reply =
        voices.map (·.reply) := by
      simp only [Request.calls, Request.ofVoices, Option.getD_some, List.map_map]
      exact List.map_congr_left hreply
    rw [hanswer hover, Request.run, hreplies]

/-- Three backends: one whose reply is blank, one that fails, one that speaks. -/
def mixed : List Voice :=
  [⟨{ name := "llama3" }, .ok " "⟩,
    ⟨{ name := "broken" }, .error (.modelCall "connection refused")⟩,
    ⟨{ name := "mistral" }, .ok "Order docs"⟩]

/-- The last backend replies before the first one is asked. -/
def hasty : List Move :=
  [.send 2, .receive 2, .send 0, .send 1, .receive 1, .receive 0]

/-- What is asked about. -/
def order : Element where
  kind := .type
  name := "Order"
  qualifiedName := "shop.Order"
  file := "Order.java"
  line := 1
  signature := "public class Order"

/-- Two of three backends fail and the third one is heard; without it, what
went wrong with the two is. -/
theorem failures_isolated_mixed :
    mixed ≠ [] ∧ (course mixed hasty).isOver = true ∧ speaking mixed ≠ [] ∧
    (course mixed hasty).answer (.ofVoices order .documentation mixed) = "Order docs" ∧
    speaking (mixed.take 2) = [] ∧
    (course (mixed.take 2) hasty).answer (.ofVoices order .documentation (mixed.take 2)) =
      "Error generating documentation with llama3: empty response\n" ++
      "Error generating documentation with broken: connection refused" := by
  have hsilent : speaking (mixed.take 2) = [] :=
    List.filter_eq_nil_iff.2 (by decide +kernel)
  have hspeaking : speaking mixed = mixed.drop 2 := by
    have hlast : speaking (mixed.drop 2) = mixed.drop 2 :=
      List.filter_eq_self.2 (by decide +kernel)
    have happend := List.filter_append (mixed.take 2) (mixed.drop 2) (p := (·.speaks))
    rw [List.take_append_drop] at happend
    exact (happend.trans (congrArg₂ _ hsilent hlast)).trans (List.nil_append _)
  have hasked : mixed ≠ [] := List.cons_ne_nil _ _
  have hfailing : mixed.take 2 ≠ [] := List.cons_ne_nil _ _
  have hheard : speaking mixed ≠ [] := by
    rw [hspeaking]
    exact List.cons_ne_nil _ _
  have hanswer := (((failures_isolated order .documentation hasked).2 hasty rfl).2.2.1 hheard).1
    [.send 0, .receive 0]
  have hfaults := ((failures_isolated order .documentation hfailing).2 hasty rfl).2.2.2.1 hsilent
  rw [hspeaking] at hanswer
  refine ⟨hasked, rfl, hheard, ?_, hsilent, ?_⟩
  · rw [hanswer rfl]
    decide +kernel
  · rw [hfaults]
    decide +kernel

end Inquiry

end Model

end Docsmith
