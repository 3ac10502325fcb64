import Docsmith.Model.Timeline
import Mathlib.Data.List.Perm.Basic
import Mathlib.Data.List.Zip
/-!
# Models — answers in and out of order

Requests wait in a line, some at a time are under way, and answers arrive
as they are ready. Each of these things happens at a moment of its own: a
request begins when a slot is free, each of its calls gets its reply, in
any order, and a request with all of its replies may finish before others
that began earlier. Whatever the order, no answer is lost, none comes
twice, and each is the one that the request has by itself
(`Line.Serves.step`). Replies are told apart by backend, endpoint and
payload and by nothing else.
-/


namespace Docsmith.Model

/-! ## The answers of a timeline

Every request has its turn, however few slots there are and however long
the others take, and the answers come back in the order of the line: they
are those that the requests have by themselves (`Timeline.answers_eq`).
How long a reply takes makes no difference to them.
-/

variable {backends : Backends}

theorem length_insertMoment (t : Nat) (moments : List Nat) :
    (insertMoment t moments).length = moments.length + 1 := by
  induction moments with
  | nil => rfl
  | cons u rest ih =>
    rw [insertMoment]
    split
    · rfl
    · rw [List.length_cons, ih, List.length_cons]

/-- As long as there is a slot, every request begins. -/
theorem length_beginnings {free durations : List Nat} (h : free ≠ []) :
    (beginnings free durations).length = durations.length := by
  induction durations generalizing free with
  | nil => rw [beginnings]
  | cons d durations ih =>
    obtain ⟨t, free, rfl⟩ := List.exists_cons_of_ne_nil h
    have hfree : insertMoment (t + d) free ≠ [] := by
      intro he
      have := length_insertMoment (t + d) free
      rw [he] at this
      simp at this
    rw [beginnings, List.length_cons, ih hfree, List.length_cons]

namespace Timeline

/-- A timeline has the requests of its line. -/
theorem entries_ofRequests (backends : Backends) (slots : Nat) (requests : List Request) :
    (ofRequests backends slots requests).entries.map (·.1) = requests := by
  have hlength : requests.length ≤ ((beginnings
      (List.replicate (min (max slots 1) requests.length) 0)
      (requests.map (·.duration backends))).zip (requests.map (·.duration backends))).length := by
    cases requests with
    | nil => exact Nat.zero_le _
    | cons r requests =>
      rw [List.length_zip, length_beginnings (by simp)]
      simp
  unfold ofRequests
  dsimp only
  rw [List.map_map]
  exact List.map_fst_zip hlength

/-- Answers put back from the last place on, one by one. -/
theorem foldl_setIfInBounds (texts : List String) (done : Array String) :
    ((texts.zipIdx done.size).foldl (fun (texts : Array String) x => texts.setIfInBounds x.2 x.1)
        (done ++ Array.replicate texts.length "")) = done ++ texts.toArray := by
  induction texts generalizing done with
  | nil => rfl
  | cons text texts ih =>
    have hnext := ih (done.push text)
    rw [Array.size_push] at hnext
    rw [List.zipIdx_cons, List.foldl_cons]
    have hset : (done ++ Array.replicate (text :: texts).length "").setIfInBounds done.size text =
        done.push text ++ Array.replicate texts.length "" := by
      apply Array.toList_inj.1
      simp [List.replicate_succ]
    rw [hset, hnext]
    apply Array.toList_inj.1
    simp

/-- **Answers put back** stand in the order of the line, in whatever order they
arrive. -/
theorem putBack_eq {texts : List String} {arrivals : List (Nat × String)}
    (h : arrivals.Perm (texts.zipIdx.map Prod.swap)) : putBack texts.length arrivals = texts := by
  -- two answers with one place are the same answer
  have hcomm : ∀ a ∈ arrivals, ∀ b ∈ arrivals, ∀ done : Array String,
      (done.setIfInBounds a.1 a.2).setIfInBounds b.1 b.2 =
        (done.setIfInBounds b.1 b.2).setIfInBounds a.1 a.2 := by
    intro a ha b hb done
    by_cases hplace : a.1 = b.1
    · have hat : ∀ c ∈ arrivals, texts[c.1]? = some c.2 := by
        intro c hc
        obtain ⟨x, hx, rfl⟩ := List.mem_map.1 (h.mem_iff.1 hc)
        exact List.mem_zipIdx_iff_getElem?.1 hx
      have htext : a.2 = b.2 := by
        have := hat a ha
        rw [hplace, hat b hb, Option.some.injEq] at this
        exact this.symm
      rw [hplace, htext]
    · exact Array.setIfInBounds_comm _ _ hplace
  have hordered := h.foldl_eq' (f := fun (done : Array String) (a : Nat × String) =>
    done.setIfInBounds a.1 a.2) hcomm (Array.replicate texts.length "")
  have hfold := foldl_setIfInBounds texts #[]
  rw [Array.empty_append, Array.empty_append] at hfold
  rw [putBack, hordered, List.foldl_map]
  exact congrArg Array.toList hfold

/-- **The answers of a timeline** are those of the requests in their order. -/
theorem answers_eq (backends : Backends) (slots : Nat) (requests : List Request) :
    (ofRequests backends slots requests).answers backends =
      requests.map (·.run fun c => (backends c).result) := by
  have hentries := entries_ofRequests backends slots requests
  generalize ofRequests backends slots requests = l at hentries
  have hlength : l.entries.length = (requests.map (·.run fun c => (backends c).result)).length := by
    rw [← hentries, List.map_map, List.length_map]
  rw [answers, hlength]
  refine putBack_eq ?_
  -- put in the order of their ends, and told with their places
  have hplaced : ((List.range l.entries.length).zip l.entries).map
      (fun x => (x.1, x.2.1.run fun c => (backends c).result)) =
      ((requests.map (·.run fun c => (backends c).result)).zipIdx).map Prod.swap := by
    rw [← hentries, List.map_map, List.zipIdx_map, List.map_map, List.zipIdx_eq_zip_range',
      ← List.zip_swap, List.map_map, List.range_eq_range']
    rfl
  rw [arrivals, ← hplaced]
  exact (List.mergeSort_perm _ _).map _

end Timeline

/-! ## A line of requests -/

/-- An answer as it arrives: the number of the element that it is about, what
was asked, and the text. -/
structure Arrival where
  index : Nat
  purpose : Purpose
  text : String

/-- A request under way: a place for the reply to each of its calls. -/
structure Pending where
  index : Nat
  request : Request
  replies : List (Option (Except Failure String))

/-- Requests with the numbers of their elements: those that have not begun,
those under way, and the answers in the order in which they arrived. -/
structure Line where
  waiting : List (Nat × Request)
  pending : List Pending := []
  arrived : List Arrival := []

/-- Something that happens in a line. -/
inductive Line.Move where
  /-- The next request begins. -/
  | begin
  /-- A call of a request under way gets its reply. -/
  | reply (request call : Nat)
  /-- A request under way is answered. -/
  | finish (request : Nat)

variable {reply : Call → Except Failure String} {slots : Nat}

namespace Line

/-- The line after something has happened, with a number of slots. What
cannot happen changes nothing. -/
def step (slots : Nat) (reply : Call → Except Failure String) (l : Line) : Move → Line
  | .begin =>
    match l.waiting with
    | (index, r) :: waiting =>
      if l.pending.length < slots then
        { l with waiting, pending := l.pending ++ [⟨index, r, r.calls.map fun _ => none⟩] }
      else l
    | [] => l
  | .reply n k =>
    match l.pending[n]? with
    | some p =>
      match p.request.calls[k]? with
      | some c =>
        { l with pending := l.pending.set n { p with replies := p.replies.set k (some (reply c)) } }
      | none => l
    | none => l
  | .finish n =>
    match l.pending[n]? with
    | some p =>
      if p.replies.all Option.isSome then
        { l with
          pending := l.pending.eraseIdx n
          arrived := l.arrived ++
            [⟨p.index, p.request.purpose, p.request.answer (p.replies.filterMap id)⟩] }
      else l
    | none => l

/-- Nothing is left to be answered. -/
def isOver (l : Line) : Bool :=
  l.waiting.isEmpty && l.pending.isEmpty

end Line

/-- The answer that a request has by itself. -/
def answered (reply : Call → Except Failure String) (entry : Nat × Request) : Arrival :=
  ⟨entry.1, entry.2.purpose, entry.2.run reply⟩

/-! ## Replies in any order -/

/-- The replies that have come are those to their calls. -/
structure Pending.Sound (reply : Call → Except Failure String) (p : Pending) : Prop where
  length : p.replies.length = p.request.calls.length
  found : ∀ (k : Nat) result, p.replies[k]? = some (some result) →
    ∃ c, p.request.calls[k]? = some c ∧ result = reply c

theorem Pending.Sound.start (index : Nat) (r : Request) :
    Pending.Sound reply ⟨index, r, r.calls.map fun _ => none⟩ := by
  refine ⟨by simp, fun k result h => ?_⟩
  rw [List.getElem?_map, Option.map_eq_some_iff] at h
  obtain ⟨_, -, hnone⟩ := h
  cases hnone

theorem Pending.Sound.set {p : Pending} (h : p.Sound reply) {k : Nat} {c : Call}
    (hc : p.request.calls[k]? = some c) :
    Pending.Sound reply { p with replies := p.replies.set k (some (reply c)) } := by
  refine ⟨by simpa using h.length, fun n result hn => ?_⟩
  by_cases hkn : k = n
  · subst hkn
    rw [List.getElem?_set_self (by
      have := (List.getElem?_eq_some_iff.1 hc).1
      have := h.length
      omega)] at hn
    simp only [Option.some.injEq] at hn
    exact ⟨c, hc, hn.symm⟩
  · rw [List.getElem?_set_ne hkn] at hn
    exact h.found n result hn

/-- **All replies together** stand in the order of the calls, whatever the order
in which they came. -/
theorem Pending.Sound.replies_eq {p : Pending} (h : p.Sound reply)
    (hall : p.replies.all Option.isSome = true) :
    p.replies.filterMap id = p.request.calls.map reply := by
  have hfull : p.replies = (p.request.calls.map reply).map some := by
    refine List.ext_getElem? fun k => ?_
    cases hk : p.replies[k]? with
    | none =>
      have hlen := List.getElem?_eq_none_iff.1 hk
      have hsame := h.length
      rw [eq_comm, List.getElem?_eq_none_iff]
      simp only [List.length_map]
      omega
    | some entry =>
      obtain ⟨result, rfl⟩ := Option.isSome_iff_exists.1
        (List.all_eq_true.1 hall entry (List.mem_of_getElem? hk))
      obtain ⟨c, hc, rfl⟩ := h.found k result hk
      simp [hc]
  rw [hfull, List.filterMap_map]
  exact List.filterMap_some

/-! ## Answers in any order -/

namespace Line

/-- The line serves some requests: each of them waits, is under way or has
arrived with the answer that it has by itself. -/
structure Serves (reply : Call → Except Failure String) (requests : List (Nat × Request)) (l : Line) :
    Prop where
  accounted : (l.arrived ++ (l.pending.map fun p => answered reply (p.index, p.request)) ++
    l.waiting.map (answered reply)).Perm (requests.map (answered reply))
  sound : ∀ p ∈ l.pending, p.Sound reply

variable {l : Line} {requests : List (Nat × Request)}

theorem Serves.start (requests : List (Nat × Request)) : Serves reply requests ⟨requests, [], []⟩ :=
  ⟨.refl _, by simp⟩

/-- What is under way keeps its answer when replies to it come in. -/
theorem map_answered_set {pending : List Pending} {n : Nat} {p : Pending}
    (hp : pending[n]? = some p) (replies : List (Option (Except Failure String))) :
    ((pending.set n { p with replies }).map fun p => answered reply (p.index, p.request)) =
      pending.map fun p => answered reply (p.index, p.request) := by
  obtain ⟨hn, hpn⟩ := List.getElem?_eq_some_iff.1 hp
  have hin : n < (pending.map fun p => answered reply (p.index, p.request)).length := by
    rwa [List.length_map]
  have hself : answered reply (p.index, p.request) =
      (pending.map fun p => answered reply (p.index, p.request))[n] := by
    rw [List.getElem_map, hpn]
  rw [List.map_set, hself]
  exact List.set_getElem_self _

/-- What is taken out of what is under way takes its answer with it. -/
theorem map_answered_eraseIdx {pending : List Pending} {n : Nat} {p : Pending}
    (hp : pending[n]? = some p) :
    (answered reply (p.index, p.request) ::
      (pending.eraseIdx n).map fun p => answered reply (p.index, p.request)).Perm
      (pending.map fun p => answered reply (p.index, p.request)) := by
  obtain ⟨hn, hpn⟩ := List.getElem?_eq_some_iff.1 hp
  have hperm := (List.getElem_cons_eraseIdx_perm hn).map
    fun p : Pending => answered reply (p.index, p.request)
  rwa [hpn] at hperm

/-- **Whatever happens, the line serves the same requests.** -/
theorem Serves.step (h : l.Serves reply requests) (m : Move) :
    (l.step slots reply m).Serves reply requests := by
  obtain ⟨hacc, hsound⟩ := h
  cases m with
  | begin =>
    rw [Line.step]
    split
    · next index r waiting hw =>
      split
      · refine ⟨?_, fun p hp => ?_⟩
        · -- the first of those that wait is the last of those under way
          rw [hw] at hacc
          simpa using hacc
        · rcases List.mem_append.1 hp with hp | hp
          · exact hsound p hp
          · rw [List.mem_singleton.1 hp]
            exact .start index r
      · exact ⟨hacc, hsound⟩
    · exact ⟨hacc, hsound⟩
  | reply n k =>
    rw [Line.step]
    split
    · next p hp =>
      split
      · next c hc =>
        refine ⟨?_, fun q hq => ?_⟩
        · rwa [map_answered_set hp]
        · rcases List.mem_or_eq_of_mem_set hq with hq | rfl
          · exact hsound q hq
          · exact (hsound p (List.mem_of_getElem? hp)).set hc
      · exact ⟨hacc, hsound⟩
    · exact ⟨hacc, hsound⟩
  | finish n =>
    rw [Line.step]
    split
    · next p hp =>
      split
      · next hall =>
        refine ⟨?_, fun q hq => hsound q (List.mem_of_mem_eraseIdx hq)⟩
        have hreplies := (hsound p (List.mem_of_getElem? hp)).replies_eq hall
        refine .trans ?_ hacc
        rw [hreplies]
        refine List.Perm.append_right _ ?_
        rw [List.append_assoc]
        exact (map_answered_eraseIdx hp).append_left l.arrived
      · exact ⟨hacc, hsound⟩
    · exact ⟨hacc, hsound⟩

/-- **A line in which nothing is left** has all answers, in some order. -/
theorem Serves.perm_of_isOver (h : l.Serves reply requests) (hover : l.isOver = true) :
    l.arrived.Perm (requests.map (answered reply)) := by
  rw [isOver, Bool.and_eq_true] at hover
  have hacc := h.accounted
  rw [List.isEmpty_iff.1 hover.1, List.isEmpty_iff.1 hover.2] at hacc
  simpa using hacc

end Line

end Docsmith.Model
