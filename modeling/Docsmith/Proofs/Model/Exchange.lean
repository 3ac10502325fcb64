import Docsmith.Failure
import Docsmith.Model.Exchange
import Mathlib.Tactic.SplitIfs
/-!
# Models — how a call repeats its posts

A call makes posts until one comes to something that does not pass, or until
no repetition is left (`exists_isLast`). So it either refuses its address and
makes none, or makes one post more than the number of the last one, all of
them alike, and comes to what that one came to (`conducted_invoke`). Of the
statuses that tell of a server's trouble only some are repeated
(`rides_out_iff`): behind any other a success is not reached
(`lasting_status_ends_call`).
-/


namespace Docsmith.Model

/-! ## The last post -/

variable {outcome : Nat → Except Failure String} {repetitions last : Nat}

/-- The number of the last post: the number of the first outcome that does not
pass, or that of the repetitions where they are fewer or every outcome
passes. -/
structure IsLast (outcome : Nat → Except Failure String) (repetitions last : Nat) : Prop where
  of_first : ∀ n, mayPass (outcome n) = false → (∀ m < n, mayPass (outcome m) = true) →
    last = min repetitions n
  of_all : (∀ n, mayPass (outcome n) = true) → last = repetitions

theorem IsLast.zero (outcome : Nat → Except Failure String) : IsLast outcome 0 0 :=
  ⟨fun n _ _ => (Nat.zero_min n).symm, fun _ => rfl⟩

/-- What does not pass ends the call. -/
theorem IsLast.of_not_mayPass (h : mayPass (outcome 0) = false) : IsLast outcome repetitions 0 := by
  refine ⟨fun n _ hbefore => ?_, fun hall => ?_⟩
  · cases n with
    | zero => exact (Nat.min_zero repetitions).symm
    | succ n =>
      rw [hbefore 0 (Nat.succ_pos n)] at h
      cases h
  · rw [hall 0] at h
    cases h

/-- Behind an outcome that may pass there is one repetition less. -/
theorem IsLast.succ (h : mayPass (outcome 0) = true)
    (hlast : IsLast (fun n => outcome (n + 1)) repetitions last) :
    IsLast outcome (repetitions + 1) (last + 1) := by
  refine ⟨fun n hends hbefore => ?_, fun hall => ?_⟩
  · cases n with
    | zero =>
      rw [h] at hends
      cases hends
    | succ n =>
      have hmin := hlast.of_first n hends fun m hm => hbefore (m + 1) (Nat.succ_lt_succ hm)
      rw [hmin]
      omega
  · rw [hlast.of_all fun n => hall (n + 1)]

/-- **A post is made once for each outcome up to the last**, by induction on the
repetitions that are left. -/
theorem exists_isLast (p : Post) (outcome : Nat → Except Failure String) (repetitions : Nat) :
    ∀ n, ∃ last, IsLast (fun m => outcome (n + m)) repetitions last ∧
      p.repeated outcome repetitions n = (outcome (n + last), List.replicate (last + 1) p) := by
  induction repetitions with
  | zero => exact fun n => ⟨0, .zero _, rfl⟩
  | succ repetitions ih =>
    intro n
    rw [Post.repeated]
    split_ifs with hpass
    · obtain ⟨last, hlast, hrest⟩ := ih (n + 1)
      have hshift (m : Nat) : n + 1 + m = n + (m + 1) := by omega
      simp only [hshift] at hlast hrest
      exact ⟨last + 1, hlast.succ hpass, by rw [hrest]; rfl⟩
    · exact ⟨0, .of_not_mayPass (Bool.not_eq_true _ ▸ hpass), rfl⟩

/-! ## A whole call -/

variable {b : Config.Backend} {endpoint : String} {address : Url}

/-- A key goes along if the protocol has a use for it and it is not blank. -/
theorem bearerOf_eq_some_iff {key : String} : bearerOf b = some key ↔
    Protocol.ofBackend b ≠ .ollama ∧ b.apiKey = some key ∧
      Text.isBlankText key.toList = false := by
  unfold bearerOf
  split_ifs with hollama
  · exact iff_of_false nofun fun h => h.1 hollama
  · rw [Option.filter_eq_some_iff, Bool.not_eq_true']
    exact ⟨fun h => ⟨hollama, h⟩, fun h => h.2⟩

/-- An address is refused with a fault of the configuration. -/
theorem exists_config_of_addressOf {f : Failure} (h : addressOf endpoint = .error f) :
    ∃ reason, f = .config reason := by
  unfold addressOf at h
  split at h
  · cases h
    exact ⟨_, rfl⟩
  · split_ifs at h
    cases h
    exact ⟨_, rfl⟩

/-- All that a call can come to, with the posts that it makes: the refusal of
its address, and no post; or what the last of its posts came to, where all of
them are alike. -/
inductive Conducted (b : Config.Backend) (endpoint : String) (payload : Json)
    (respond : Nat → Response) : Except Failure String → List Post → Prop where
  | refused {reason : String} (refusal : addressOf endpoint = .error (.config reason)) :
      Conducted b endpoint payload respond (.error (.config reason)) []
  | posted {post : Post} {posts : List Post} {last : Nat}
      (address : addressOf endpoint = .ok post.address) (body : post.body = payload)
      (bearer : ∀ key, post.bearer = some key ↔ Protocol.ofBackend b ≠ .ollama ∧
        b.apiKey = some key ∧ Text.isBlankText key.toList = false)
      (timeout : post.timeoutSeconds = b.timeoutSeconds)
      (isLast : IsLast (fun n => post.outcome b.name (respond n)) b.maxRetries last)
      (length : posts.length = last + 1) (alike : ∀ p ∈ posts, p = post) :
      Conducted b endpoint payload respond (post.outcome b.name (respond last)) posts

/-- A call that has an address posts there. -/
theorem exists_invoke (b : Config.Backend) (payload : Json) (respond : Nat → Response)
    (haddress : addressOf endpoint = .ok address) :
    ∃ last, IsLast (fun n => (Post.ofCall b address payload).outcome b.name (respond n))
        b.maxRetries last ∧
      invoke b endpoint payload respond =
        ((Post.ofCall b address payload).outcome b.name (respond last),
          List.replicate (last + 1) (.ofCall b address payload)) := by
  let post := Post.ofCall b address payload
  obtain ⟨last, hlast, hposts⟩ :=
    exists_isLast post (fun n => post.outcome b.name (respond n)) b.maxRetries 0
  simp only [Nat.zero_add] at hlast hposts
  refine ⟨last, hlast, ?_⟩
  rw [← hposts, invoke, haddress]

/-- **How a call repeats its posts.** It makes one post more than the smaller of
its repetitions and the number of the first outcome that does not pass, all of
them with one address, one body and one key, and comes to what the last one came
to. An address that is refused gets no post. -/
theorem conducted_invoke (b : Config.Backend) (endpoint : String) (payload : Json)
    (respond : Nat → Response) :
    Conducted b endpoint payload respond (invoke b endpoint payload respond).1
      (invoke b endpoint payload respond).2 := by
  cases haddress : addressOf endpoint with
  | error f =>
    obtain ⟨reason, rfl⟩ := exists_config_of_addressOf haddress
    simp only [invoke, haddress]
    exact .refused haddress
  | ok address =>
    obtain ⟨last, hlast, hinvoke⟩ := exists_invoke b payload respond haddress
    rw [hinvoke]
    refine .posted haddress rfl (fun key => ?_) rfl hlast List.length_replicate
      fun p hp => List.eq_of_mem_replicate hp
    rw [Post.bearer_ofCall, bearerOf_eq_some_iff]

/-! ## Statuses that are repeated -/

/-- The statuses after which a post is made again. -/
def passingStatuses : List Nat :=
  [429, 500, 502, 503, 504]

theorem isRetryable_ofStatus_iff (status : Nat) :
    (Failure.Category.ofStatus status).isRetryable = true ↔ status ∈ passingStatuses := by
  simp only [passingStatuses, List.mem_cons, List.not_mem_nil, or_false]
  unfold Failure.Category.ofStatus
  split_ifs with hmany hauth hrequest hmissing hserver
  · exact iff_of_true rfl (.inl hmany)
  · exact iff_of_false nofun (by omega)
  · exact iff_of_false nofun (by omega)
  · exact iff_of_false nofun (by omega)
  · exact iff_of_true rfl (.inr hserver)
  · exact iff_of_false nofun fun h => h.elim hmany hserver

/-- **A reply may pass exactly with one of these statuses.** -/
theorem mayPass_outcome_reply_iff (p : Post) (backend : String) (status : Nat) (body : String) :
    mayPass (p.outcome backend (.reply status body)) = true ↔ status ∈ passingStatuses := by
  simp only [Post.outcome, Status.isSuccess, Bool.and_eq_true, decide_eq_true_eq]
  split_ifs with hsuccess
  · refine iff_of_false nofun fun h => ?_
    simp only [passingStatuses, List.mem_cons, List.not_mem_nil, or_false] at h
    omega
  · exact isRetryable_ofStatus_iff status

/-- A success is what it is. -/
theorem outcome_reply_of_success (p : Post) (backend : String) {status : Nat} (body : String)
    (h : 200 ≤ status ∧ status ≤ 299) : p.outcome backend (.reply status body) = .ok body := by
  have : Status.isSuccess status = true := by
    simp only [Status.isSuccess, Bool.and_eq_true, decide_eq_true_eq]
    omega
  simp only [Post.outcome, this, if_true]

/-- A status of a server's trouble that is not repeated has no known cause. -/
theorem outcome_reply_of_lasting (p : Post) (backend : String) {status : Nat} (body : String)
    (h : 500 ≤ status ∧ status ≤ 599) (hlasting : status ∉ passingStatuses) :
    p.outcome backend (.reply status body) =
      .error (.backend ⟨.unknown, refusal status body, some backend⟩) := by
  simp only [passingStatuses, List.mem_cons, List.not_mem_nil, or_false, not_or] at hlasting
  have hsuccess : Status.isSuccess status = false := by
    simp only [Status.isSuccess, Bool.and_eq_false_iff, decide_eq_false_iff_not]
    omega
  have hcategory : Failure.Category.ofStatus status = .unknown := by
    unfold Failure.Category.ofStatus
    rw [if_neg hlasting.1, if_neg (by omega), if_neg (by omega), if_neg (by omega), if_neg (by omega)]
  simp only [Post.outcome, hsuccess, hcategory, Bool.false_eq_true, if_false]

/-- **Which troubles of a server are ridden out.** Where a success follows `k`
replies that tell of too many requests or of a server's trouble, and as many
repetitions are allowed, the call reaches it exactly if each of the `k` statuses
is one of those that are repeated. The first that is not ends the call. -/
theorem rides_out_iff (b : Config.Backend) (payload : Json) (respond : Nat → Response)
    (statuses : Nat → Nat) (bodies : Nat → String) {k : Nat}
    (haddress : addressOf endpoint = .ok address) (hk : k ≤ b.maxRetries)
    (hreplies : ∀ n ≤ k, respond n = .reply (statuses n) (bodies n))
    (htrouble : ∀ n < k, statuses n = 429 ∨ 500 ≤ statuses n ∧ statuses n ≤ 599)
    (hsuccess : 200 ≤ statuses k ∧ statuses k ≤ 299) :
    (((invoke b endpoint payload respond).2.length = k + 1 ∧
        (invoke b endpoint payload respond).1 = .ok (bodies k)) ↔
      ∀ n < k, statuses n ∈ passingStatuses) ∧
    ∀ n < k, statuses n ∉ passingStatuses → (∀ m < n, statuses m ∈ passingStatuses) →
      (invoke b endpoint payload respond).2.length = n + 1 ∧
        (invoke b endpoint payload respond).1 =
          .error (.backend ⟨.unknown, refusal (statuses n) (bodies n), some b.name⟩) := by
  let post := Post.ofCall b address payload
  obtain ⟨last, hlast, hinvoke⟩ := exists_invoke b payload respond haddress
  have hpasses : ∀ n ≤ k, mayPass (post.outcome b.name (respond n)) = true ↔
      statuses n ∈ passingStatuses := by
    intro n hn
    rw [hreplies n hn, mayPass_outcome_reply_iff]
  -- the first status that is not repeated is that of the last post
  have hends : ∀ n ≤ k, statuses n ∉ passingStatuses → (∀ m < n, statuses m ∈ passingStatuses) →
      last = n := by
    intro n hn hlasting hbefore
    have hmin := hlast.of_first n
      (Bool.eq_false_iff.2 fun h => hlasting ((hpasses n hn).1 h))
      fun m hm => (hpasses m (by omega)).2 (hbefore m hm)
    omega
  have hstop : ∀ n < k, statuses n ∉ passingStatuses → (∀ m < n, statuses m ∈ passingStatuses) →
      (invoke b endpoint payload respond).2.length = n + 1 ∧
        (invoke b endpoint payload respond).1 =
          .error (.backend ⟨.unknown, refusal (statuses n) (bodies n), some b.name⟩) := by
    intro n hn hlasting hbefore
    have hserver : 500 ≤ statuses n ∧ statuses n ≤ 599 := by
      rcases htrouble n hn with h | h
      · exact absurd (h ▸ by decide) hlasting
      · exact h
    rw [hinvoke, hends n (Nat.le_of_lt hn) hlasting hbefore, hreplies n (Nat.le_of_lt hn)]
    exact ⟨List.length_replicate, outcome_reply_of_lasting post b.name _ hserver hlasting⟩
  refine ⟨⟨fun hreached => ?_, fun hall => ?_⟩, hstop⟩
  · -- by induction on the number: the replies before it were passed
    intro n
    induction n using Nat.strongRecOn with
    | ind n ih =>
      refine fun hn => Decidable.byContradiction fun hlasting => ?_
      have hfailed := (hstop n hn hlasting fun m hm => ih m hm (by omega)).2
      rw [hreached.2] at hfailed
      cases hfailed
  · have hnot : statuses k ∉ passingStatuses := by
      simp only [passingStatuses, List.mem_cons, List.not_mem_nil, or_false, not_or]
      omega
    rw [hinvoke, hends k (Nat.le_refl k) hnot hall, hreplies k (Nat.le_refl k)]
    exact ⟨List.length_replicate, outcome_reply_of_success post b.name _ hsuccess⟩

/-- A success behind a reply of some status. -/
def recovering (status n : Nat) : Response :=
  if n = 0 then .reply status "" else .reply 200 "done"

/-- An overloaded server, with a success behind its first reply. -/
theorem rides_out_iff_overloaded :
    ∃ address, addressOf "http://h/" = .ok address ∧
      (invoke { name := "m" } "http://h/" .null (recovering 503)).2.length = 2 ∧
      (invoke { name := "m" } "http://h/" .null (recovering 503)).1 = .ok "done" := by
  let address : Url := { scheme := "http", host := some (.name "h"), path := "/" }
  have haddress : addressOf "http://h/" = .ok address := eq_ok_of_toOption (by decide +kernel)
  have hridden := rides_out_iff { name := "m" } .null (recovering 503)
    (fun n => if n = 0 then 503 else 200) (fun n => if n = 0 then "" else "done") (k := 1)
    haddress (by decide) (by decide) (by decide) (by decide)
  exact ⟨address, haddress, hridden.1.2 (by decide)⟩

/-- **A status that tells of a server's trouble may end a call**: behind a
server that does not know what is asked of it no second post is made, though two
repetitions are allowed and a success would follow. -/
theorem lasting_status_ends_call :
    ¬ ((invoke { name := "m" } "http://h/" .null (recovering 501)).2.length = 2 ∧
      (invoke { name := "m" } "http://h/" .null (recovering 501)).1 = .ok "done") := fun h =>
  absurd h.1 (by decide +kernel)

end Docsmith.Model
