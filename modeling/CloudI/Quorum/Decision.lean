import CloudI.Quorum.Server

/-!
# The decision of a quorum

A request and the answers of its destinations, in any run of the quorum service (`Handled`). A reply is `Decided` by
the answers: enough destinations gave a response with its key, or no key can have enough any more. The state of the
request follows the answers (`Follows`), each step by what one answer does (`Follows.answer`), and so there is one
reply in the end, which the order of the answers does not change (`reply_decided`).
-/

set_option linter.unusedSectionVars false

namespace CloudI.Quorum

variable {T O Pid TransId Call : Type} [LinearOrder O] (terms : Terms T O) (cfg : Config T)

/-- What a destination answers: a response that is valid, or an invalid one or a timeout. -/
inductive Answer (T : Type) where
  | valid (responseInfo response : T)
  | failed
deriving DecidableEq

/-- The answer that a response is. -/
def Config.answer (responseInfo response : T) : Answer T :=
  if validate cfg.validateResponseInfo cfg.validateResponse responseInfo response then .valid responseInfo response
  else .failed

/-- The answer is a valid response with the key. -/
def Answer.agrees (key : Key T) : Answer T → Bool
  | valid responseInfo response => decide (keyRank terms (cfg.key responseInfo response) = keyRank terms key)
  | failed => false

/-- How many destinations agree on the key. -/
def votes (key : Key T) (answers : List (Answer T)) : Nat := answers.countP (Answer.agrees terms cfg key)

/-- The reply is a valid response that enough destinations agree on, or is empty when no key can have enough. -/
def Decided (n k : Nat) (answers : List (Answer T)) (reply : Reply T Pid TransId Call) : Prop :=
  (validate cfg.validateResponseInfo cfg.validateResponse reply.responseInfo reply.response = true ∧
      k ≤ votes terms cfg (cfg.key reply.responseInfo reply.response) answers) ∨
    (reply.responseInfo = terms.null ∧ reply.response = terms.null ∧
      ∀ key, votes terms cfg key answers + (n - answers.length) < k)

/-- There was one reply, unless the source of the request died. -/
def Closed (n k : Nat) (answers : List (Answer T)) (replies : List (Reply T Pid TransId Call)) (died : Bool) : Prop :=
  (∃ reply, replies = [reply] ∧ Decided terms cfg n k answers reply) ∨ (replies = [] ∧ died = true)

/-- The request has counted the answers, and no key has enough. -/
structure Open (k : Nat) (answers : List (Answer T)) (request : Request T Pid Call) : Prop where
  lt : ∀ key, votes terms cfg key answers < k
  find : ∀ key, (Orddict.find (keyRank terms) key request.responses).getD 0 = votes terms cfg key answers
  le : ∀ key, votes terms cfg key answers ≤ request.countCorrect
  ordered : Orddict.Ordered (keyRank terms) request.responses

/-- The state of a request follows the answers. -/
def Follows (n k : Nat) (request : Request T Pid Call) (answers : List (Answer T))
    (replies : List (Reply T Pid TransId Call)) (died : Bool) : Prop :=
  request.countRequired = k ∧ request.countTotal = n ∧ request.countResponses = answers.length ∧
    ((request.returned = false ∧ replies = [] ∧ answers.length < n ∧ Open terms cfg k answers request) ∨
      (request.returned = true ∧ Closed terms cfg n k answers replies died))

variable {terms cfg} {n k : Nat} {key key' : Key T} {answers answers' : List (Answer T)} {a : Answer T}
  {reply reply' : Reply T Pid TransId Call} {replies replies' : List (Reply T Pid TransId Call)}
  {request : Request T Pid Call} {died dead : Bool} {responseInfo response : T}

/-! ## Votes -/

theorem votes_append (key : Key T) (answers : List (Answer T)) (a : Answer T) :
    votes terms cfg key (answers ++ [a]) = votes terms cfg key answers + if a.agrees terms cfg key then 1 else 0 := by
  rw [votes, votes, List.countP_append, List.countP_singleton]

theorem votes_congr (h : keyRank terms key = keyRank terms key') (answers : List (Answer T)) :
    votes terms cfg key answers = votes terms cfg key' answers := by
  refine congrArg (fun f => answers.countP f) (funext fun a => ?_)
  cases a with
  | valid i r => rw [Answer.agrees, Answer.agrees, h]
  | failed => rfl

theorem votes_le_append (terms : Terms T O) (cfg : Config T) (key : Key T) (answers : List (Answer T)) (a : Answer T) :
    votes terms cfg key answers ≤ votes terms cfg key (answers ++ [a]) ∧
      votes terms cfg key (answers ++ [a]) ≤ votes terms cfg key answers + 1 := by
  rw [votes_append]
  split <;> omega

/-- Two keys that differ do not have more votes than there are answers. -/
theorem votes_add_le (terms : Terms T O) (cfg : Config T) {key key' : Key T}
    (h : keyRank terms key ≠ keyRank terms key') (answers : List (Answer T)) :
    votes terms cfg key answers + votes terms cfg key' answers ≤ answers.length := by
  induction answers with
  | nil => exact Nat.le_refl _
  | cons a answers ih =>
    rw [votes, votes] at ih
    rw [votes, votes, List.countP_cons, List.countP_cons, List.length_cons]
    cases a with
    | failed => simp only [Answer.agrees, Bool.false_eq_true, if_false]; omega
    | valid i r =>
      simp only [Answer.agrees, decide_eq_true_eq]
      by_cases hk : keyRank terms (cfg.key i r) = keyRank terms key
      · rw [if_pos hk, if_neg (fun hk' => h (hk.symm.trans hk'))]
        omega
      · rw [if_neg hk]
        split <;> omega

/-- A reply stays decided when there is one more answer. -/
theorem Decided.append (h : Decided terms cfg n k answers reply) (hlt : answers.length < n) (a : Answer T) :
    Decided terms cfg n k (answers ++ [a]) reply := by
  rcases h with ⟨hv, hk⟩ | ⟨hi, hr, hnone⟩
  · exact .inl ⟨hv, Nat.le_trans hk (votes_le_append _ _ _ _ _).1⟩
  · refine .inr ⟨hi, hr, fun key => ?_⟩
    have hle := (votes_le_append terms cfg key answers a).2
    have hkey := hnone key
    rw [List.length_append, List.length_singleton]
    omega

theorem Closed.append (h : Closed terms cfg n k answers replies died) (hlt : answers.length < n) (a : Answer T)
    (dead : Bool) : Closed terms cfg n k (answers ++ [a]) replies (died || dead) := by
  rcases h with ⟨reply, hr, hd⟩ | ⟨hr, hd⟩
  · exact .inl ⟨reply, hr, hd.append hlt a⟩
  · exact .inr ⟨hr, by rw [hd, Bool.true_or]⟩

/-! ## One answer -/

/-- The replies to an answer and the request after it, where `dead` is whether the source is dead after a failure. -/
def Request.answered (terms : Terms T O) (cfg : Config T) (transId : TransId) (timeout : Nat) (dead : Bool)
    (request : Request T Pid Call) : Answer T → List (Reply T Pid TransId Call) × Request T Pid Call
  | .valid responseInfo response =>
    if request.returned = false then
      let key := cfg.key responseInfo response
      let count := nextCount terms key request.responses
      let counted := { request with
        countResponses := request.countResponses + 1
        countCorrect := max count request.countCorrect
        responses := Orddict.store (keyRank terms) key count request.responses }
      if count = request.countRequired then
        ([⟨request.call, responseInfo, response, timeout, transId, request.source⟩], { counted with returned := true })
      else if request.impossible (request.countResponses + 1) (max count request.countCorrect) then
        ([nullReply terms request.call timeout transId request.source], { counted with returned := true })
      else ([], counted)
    else ([], { request with countResponses := request.countResponses + 1 })
  | .failed =>
    let counted := { request with countResponses := request.countResponses + 1 }
    if dead then ([], { counted with returned := true })
    else if request.returned = false ∧ request.impossible (request.countResponses + 1) request.countCorrect then
      ([nullReply terms request.call timeout transId request.source], { counted with returned := true })
    else ([], counted)

/-- Whether the answer finds the source dead. -/
def Answer.finds (dead : Bool) : Answer T → Bool
  | valid _ _ => false
  | failed => dead

theorem Open.valid (h : Open terms cfg k answers request) (responseInfo response : T) :
    nextCount terms (cfg.key responseInfo response) request.responses =
      votes terms cfg (cfg.key responseInfo response) (answers ++ [.valid responseInfo response]) := by
  have hcount : nextCount terms (cfg.key responseInfo response) request.responses =
      (Orddict.find (keyRank terms) (cfg.key responseInfo response) request.responses).getD 0 + 1 := by
    rw [nextCount]
    cases Orddict.find (keyRank terms) (cfg.key responseInfo response) request.responses <;> rfl
  rw [hcount, votes_append, h.find, Answer.agrees, decide_eq_true rfl, if_pos rfl]

/-- Another key does not get the vote. -/
theorem votes_other (hne : keyRank terms key ≠ keyRank terms (cfg.key responseInfo response)) :
    votes terms cfg key (answers ++ [.valid responseInfo response]) = votes terms cfg key answers := by
  rw [votes_append, Answer.agrees, decide_eq_false fun heq => hne heq.symm]
  rfl

theorem votes_failed (key : Key T) (answers : List (Answer T)) :
    votes terms cfg key (answers ++ [.failed]) = votes terms cfg key answers := by
  rw [votes_append]
  rfl

theorem Follows.valid (h : Follows terms cfg n k request answers replies died) (hlt : answers.length < n)
    (hv : validate cfg.validateResponseInfo cfg.validateResponse responseInfo response = true) (transId : TransId)
    (timeout : Nat) (dead : Bool) :
    Follows terms cfg n k (request.answered terms cfg transId timeout dead (.valid responseInfo response)).2
      (answers ++ [.valid responseInfo response])
      (replies ++ (request.answered terms cfg transId timeout dead (.valid responseInfo response)).1) died := by
  obtain ⟨hk, hn, hlen, hstate⟩ := h
  have hlen' : request.countResponses + 1 = (answers ++ [Answer.valid responseInfo response]).length := by
    rw [List.length_append, hlen]
    rfl
  rcases hstate with ⟨hret, rfl, -, ho⟩ | ⟨hret, hc⟩
  · have hcount := ho.valid responseInfo response
    have hlast := ho.lt (cfg.key responseInfo response)
    have hstep := votes_le_append terms cfg (cfg.key responseInfo response) answers
      (.valid responseInfo response)
    simp only [Request.answered, hret, if_true, hcount, hk, List.nil_append]
    split
    · -- enough destinations agree
      rename_i heq
      exact ⟨rfl, hn, hlen', .inr ⟨rfl, .inl ⟨_, rfl, .inl ⟨hv, Nat.le_of_eq heq.symm⟩⟩⟩⟩
    · rename_i hne
      have hother : ∀ key, votes terms cfg key (answers ++ [.valid responseInfo response]) < k ∧
          votes terms cfg key (answers ++ [.valid responseInfo response]) ≤
            max (votes terms cfg (cfg.key responseInfo response) (answers ++ [.valid responseInfo response]))
              request.countCorrect := fun key => by
        by_cases heq : keyRank terms key = keyRank terms (cfg.key responseInfo response)
        · rw [votes_congr heq]
          omega
        · have hle := ho.le key
          have hlt := ho.lt key
          rw [votes_other heq]
          omega
      split
      · -- no key can have enough
        rename_i himp
        refine ⟨rfl, hn, hlen', .inr ⟨rfl, .inl ⟨_, rfl, .inr ⟨rfl, rfl, fun key => ?_⟩⟩⟩⟩
        rw [Request.impossible, hn, hk, hlen'] at himp
        have hkey := hother key
        omega
      · rename_i himp
        refine ⟨rfl, hn, hlen', .inl ⟨rfl, rfl, ?_, fun key => (hother key).1, fun key => ?_, fun key => (hother key).2,
          ho.ordered.store _ _⟩⟩
        · rw [Request.impossible, hn, hlen'] at himp
          rw [List.length_append, List.length_singleton] at himp ⊢
          omega
        · show (Orddict.find (keyRank terms) key (Orddict.store (keyRank terms) _ _ request.responses)).getD 0 = _
          rw [Orddict.find_store ho.ordered]
          split
          · rename_i heq
            rw [votes_congr heq]
            rfl
          · rename_i heq
            rw [votes_other heq, ho.find]
  · have hnot : ¬ request.returned = false := by rw [hret]; exact Bool.noConfusion
    simp only [Request.answered, if_neg hnot, List.append_nil]
    have hclosed := hc.append hlt (.valid responseInfo response) false
    rw [Bool.or_false] at hclosed
    exact ⟨hk, hn, hlen', .inr ⟨hret, hclosed⟩⟩

theorem Follows.failed (h : Follows terms cfg n k request answers replies died) (hlt : answers.length < n)
    (transId : TransId) (timeout : Nat) (dead : Bool) :
    Follows terms cfg n k (request.answered terms cfg transId timeout dead .failed).2 (answers ++ [.failed])
      (replies ++ (request.answered terms cfg transId timeout dead .failed).1) (died || dead) := by
  obtain ⟨hk, hn, hlen, hstate⟩ := h
  have hlen' : request.countResponses + 1 = (answers ++ [(.failed : Answer T)]).length := by
    rw [List.length_append, hlen]
    rfl
  cases dead with
  | true =>
    simp only [Request.answered, if_true, List.append_nil, Bool.or_true]
    refine ⟨hk, hn, hlen', .inr ⟨rfl, ?_⟩⟩
    rcases hstate with ⟨-, hr, -⟩ | ⟨-, hc⟩
    · exact .inr ⟨hr, rfl⟩
    · have hclosed := hc.append hlt .failed true
      rwa [Bool.or_true] at hclosed
  | false =>
    simp only [Request.answered, Bool.false_eq_true, if_false, Bool.or_false]
    rcases hstate with ⟨hret, rfl, -, ho⟩ | ⟨hret, hc⟩
    · simp only [hret, true_and, List.nil_append]
      split
      · -- no key can have enough
        rename_i himp
        refine ⟨hk, hn, hlen', .inr ⟨rfl, .inl ⟨_, rfl, .inr ⟨rfl, rfl, fun key => ?_⟩⟩⟩⟩
        rw [Request.impossible, hn, hk, hlen'] at himp
        have hle := ho.le key
        have hkey := ho.lt key
        rw [votes_failed]
        omega
      · rename_i himp
        refine ⟨hk, hn, hlen', .inl ⟨rfl, rfl, ?_, fun key => ?_, fun key => ?_, fun key => ?_, ho.ordered⟩⟩
        · rw [Request.impossible, hn, hlen'] at himp
          rw [List.length_append, List.length_singleton] at himp ⊢
          omega
        · rw [votes_failed]
          exact ho.lt key
        · rw [votes_failed]
          exact ho.find key
        · rw [votes_failed]
          exact ho.le key
    · have hnot : ¬ request.returned = false := by rw [hret]; exact Bool.noConfusion
      rw [if_neg fun himp => hnot himp.1, List.append_nil]
      have hclosed := hc.append hlt .failed false
      rw [Bool.or_false] at hclosed
      exact ⟨hk, hn, hlen', .inr ⟨hret, hclosed⟩⟩

/-! ## Runs of the service -/

variable [DecidableEq Pid] [DecidableEq TransId]

/-- The request of a service that the event is. -/
def Event.requestId : Event T Pid TransId Call → Option TransId
  | .request _ _ r => some r.transId
  | _ => none

/-- The answer to the request that the event is. -/
def Event.answersTo (cfg : Config T) (s : State T Pid TransId Call) (transId : TransId) :
    Event T Pid TransId Call → List (Answer T)
  | .returnAsyncActive _ quorumTransId responseInfo response _ =>
    match s.pending quorumTransId with
    | some p => if p.transId = transId then [cfg.answer responseInfo response] else []
    | none => []
  | .timeoutAsyncActive _ quorumTransId =>
    match s.pending quorumTransId with
    | some p => if p.transId = transId then [.failed] else []
    | none => []
  | _ => []

/-- Whether the source of the request is found dead, or is killed, at a failure. -/
def State.sourceDead (cfg : Config T) (env : Env Pid) (s : State T Pid TransId Call) (transId : TransId) : Bool :=
  match s.requests transId with
  | some request =>
    match sourceFailure cfg env request.source s with
    | .ok (dead, _) => dead
    | .error _ => false
  | none => false

/-- Whether the event finds the source of the request dead. -/
def Event.findsDead (cfg : Config T) (s : State T Pid TransId Call) (transId : TransId)
    (e : Event T Pid TransId Call) : Bool :=
  match e with
  | .returnAsyncActive env _ _ _ _ | .timeoutAsyncActive env _ =>
    (e.answersTo cfg s transId).any (Answer.finds (s.sourceDead cfg env transId))
  | _ => false

/-- The replies to the request. -/
def repliesTo (transId : TransId) (replies : List (Reply T Pid TransId Call)) : List (Reply T Pid TransId Call) :=
  replies.filter fun reply => reply.transId = transId

/-- The request that was sent to `n` destinations, `k` of which have to agree, in a run of the service in which no
handler raised: the state, the answers of the destinations in order, the replies, and whether its source was found
dead. A request that is not sent to destinations has none of them, and needs one. -/
inductive Handled (terms : Terms T O) (cfg : Config T) (transId : TransId) : Nat → Nat → State T Pid TransId Call →
    List (Answer T) → List (Reply T Pid TransId Call) → Bool → Prop where
  | sent {s s' : State T Pid TransId Call} {r : Incoming T Pid TransId Call} {replies : List (Reply T Pid TransId Call)}
      (env : Env Pid) (pids : List (Pid × Sending TransId)) {k : Nat} : r.transId = transId →
      s.requests transId = none → pids ≠ [] →
      validate cfg.validateRequestInfo cfg.validateRequest r.requestInfo r.request = true →
      countRequired cfg.quorum pids.length = some k →
      handleRequest terms cfg env (some pids) r s = .ok (replies, s') →
      Handled terms cfg transId (pids.countP fun p => p.2.known.isSome) k s' [] replies false
  | notSent {s s' : State T Pid TransId Call} {r : Incoming T Pid TransId Call}
      {replies : List (Reply T Pid TransId Call)} {dead : Bool} {failures : Dict Pid (List Nat)} (env : Env Pid)
      (pids : Option (List (Pid × Sending TransId))) : r.transId = transId → s.requests transId = none →
      (validate cfg.validateRequestInfo cfg.validateRequest r.requestInfo r.request = false ∨
        ∀ l, pids = some l → countRequired cfg.quorum l.length = none) →
      handleRequest terms cfg env pids r s = .ok (replies, s') →
      sourceFailure cfg env r.source s = .ok (dead, failures) →
      Handled terms cfg transId 0 1 s' [] replies dead
  | step {n k : Nat} {s s' : State T Pid TransId Call} {answers : List (Answer T)}
      {replies replies' : List (Reply T Pid TransId Call)} {died : Bool} (e : Event T Pid TransId Call) :
      Handled terms cfg transId n k s answers replies died → e.requestId ≠ some transId →
      e.apply terms cfg s = .ok (replies', s') →
      Handled terms cfg transId n k s' (answers ++ e.answersTo cfg s transId) (replies ++ repliesTo transId replies')
        (died || e.findsDead cfg s transId)

variable {s s' : State T Pid TransId Call} {transId quorumTransId : TransId} {env : Env Pid} {timeout : Nat}
  {p : Pending TransId Pid} {newPending : Dict TransId (Pending TransId Pid)} {r : Incoming T Pid TransId Call}

theorem nextRequests_ok {requests requests' : Dict TransId (Request T Pid Call)}
    (h : nextRequests transId request requests = .ok requests') :
    request.countResponses ≤ request.countTotal ∧
      requests' = Function.update requests transId
        (if request.countResponses = request.countTotal then none else some request) := by
  rw [nextRequests] at h
  split at h
  · rename_i heq
    cases h
    exact ⟨Nat.le_of_eq heq, by rw [if_pos heq]; rfl⟩
  · rename_i hne
    split at h
    · rename_i hlt
      cases h
      exact ⟨Nat.le_of_lt hlt, by rw [if_neg hne]; rfl⟩
    · cases h

/-- What an answer does: the replies are to the request, which is counted in the requests. -/
def Answers (terms : Terms T O) (cfg : Config T) (p : Pending TransId Pid) (request : Request T Pid Call) (dead : Bool)
    (a : Answer T) (s : State T Pid TransId Call) (replies : List (Reply T Pid TransId Call))
    (s' : State T Pid TransId Call) : Prop :=
  ∃ timeout, replies = (request.answered terms cfg p.transId timeout dead a).1 ∧
    nextRequests p.transId (request.answered terms cfg p.transId timeout dead a).2 s.requests = .ok s'.requests

theorem State.sourceDead_eq {failures : Dict Pid (List Nat)} (hr : s.requests transId = some request)
    (hs : sourceFailure cfg env request.source s = .ok (dead, failures)) : s.sourceDead cfg env transId = dead := by
  simp only [State.sourceDead, hr, hs]

theorem failed_answers (hr : s.requests p.transId = some request)
    (h : failed terms cfg env p request timeout newPending s = .ok (replies, s')) :
    Answers terms cfg p request (s.sourceDead cfg env p.transId) .failed s replies s' := by
  refine ⟨timeout, ?_⟩
  obtain ⟨⟨dead, newFailuresSrc⟩, hs, h⟩ := bind_eq_ok h
  obtain ⟨⟨dead', newFailuresDst⟩, -, h⟩ := bind_eq_ok h
  rw [Request.answered, State.sourceDead_eq hr hs]
  cases dead with
  | true =>
    obtain ⟨newRequests, hnext, h⟩ := bind_eq_ok h
    cases h
    exact ⟨rfl, hnext⟩
  | false =>
    by_cases himp : request.returned = false ∧ request.impossible (request.countResponses + 1) request.countCorrect
    · simp only [himp, Bool.false_eq_true, if_false, and_self, if_true] at h ⊢
      obtain ⟨newRequests, hnext, h⟩ := bind_eq_ok h
      cases h
      exact ⟨rfl, hnext⟩
    · simp only [himp, Bool.false_eq_true, if_false] at h ⊢
      obtain ⟨newRequests, hnext, h⟩ := bind_eq_ok h
      cases h
      exact ⟨rfl, hnext⟩

theorem timeoutAsyncActive_answers (h : timeoutAsyncActive terms cfg env quorumTransId s = .ok (replies, s')) :
    ∃ p request, s.pending quorumTransId = some p ∧ s.requests p.transId = some request ∧
      Answers terms cfg p request (s.sourceDead cfg env p.transId) .failed s replies s' := by
  obtain ⟨p, hp, h⟩ := bind_eq_ok h
  obtain ⟨request, hr, h⟩ := bind_eq_ok h
  have hr := Dict.fetch_eq_ok.mp hr
  exact ⟨p, request, Dict.fetch_eq_ok.mp hp, hr, failed_answers hr h⟩

theorem returnAsyncActive_answers
    (h : returnAsyncActive terms cfg env quorumTransId responseInfo response timeout s = .ok (replies, s')) :
    ∃ p request, s.pending quorumTransId = some p ∧ s.requests p.transId = some request ∧
      Answers terms cfg p request (s.sourceDead cfg env p.transId) (cfg.answer responseInfo response) s replies s' := by
  obtain ⟨p, hp, h⟩ := bind_eq_ok h
  obtain ⟨request, hr, h⟩ := bind_eq_ok h
  have hr := Dict.fetch_eq_ok.mp hr
  refine ⟨p, request, Dict.fetch_eq_ok.mp hp, hr, ?_⟩
  rw [Config.answer]
  split at h
  · rename_i hv
    rw [if_pos hv]
    split at h
    · rename_i hret
      refine ⟨timeout, ?_⟩
      dsimp only at h
      simp only [Request.answered, hret, if_true]
      by_cases heq : nextCount terms (cfg.key responseInfo response) request.responses = request.countRequired
      · rw [if_pos heq] at h
        rw [if_pos heq]
        obtain ⟨newRequests, hnext, h⟩ := bind_eq_ok h
        cases h
        exact ⟨rfl, hnext⟩
      · rw [if_neg heq] at h
        rw [if_neg heq]
        by_cases himp : request.impossible (request.countResponses + 1)
            (max (nextCount terms (cfg.key responseInfo response) request.responses) request.countCorrect)
        · rw [if_pos himp] at h
          rw [if_pos himp]
          obtain ⟨newRequests, hnext, h⟩ := bind_eq_ok h
          cases h
          exact ⟨rfl, hnext⟩
        · rw [if_neg himp] at h
          rw [if_neg himp]
          obtain ⟨newRequests, hnext, h⟩ := bind_eq_ok h
          cases h
          exact ⟨rfl, hret ▸ hnext⟩
    · rename_i hret
      obtain ⟨newRequests, hnext, h⟩ := bind_eq_ok h
      cases h
      exact ⟨timeout, by rw [Request.answered, if_neg hret], by rw [← hnext, Request.answered, if_neg hret]⟩
  · rename_i hv
    rw [if_neg hv]
    exact failed_answers hr h

theorem answered_replies {dead : Bool} (h : reply ∈ (request.answered terms cfg transId timeout dead a).1) :
    reply.transId = transId := by
  cases a with
  | valid responseInfo response =>
    simp only [Request.answered] at h
    split at h
    · split at h
      · rw [List.mem_singleton.mp h]
      · split at h
        · rw [List.mem_singleton.mp h]
          rfl
        · cases h
    · cases h
  | failed =>
    simp only [Request.answered] at h
    split at h
    · cases h
    · split at h
      · rw [List.mem_singleton.mp h]
        rfl
      · cases h

theorem repliesTo_self (h : ∀ reply, reply ∈ replies → reply.transId = transId) : repliesTo transId replies = replies :=
  List.filter_eq_self.mpr fun reply hr => decide_eq_true (h reply hr)

theorem repliesTo_other {transId' : TransId} (h : ∀ reply, reply ∈ replies → reply.transId = transId')
    (hne : transId' ≠ transId) : repliesTo transId replies = [] :=
  List.filter_eq_nil_iff.mpr fun reply hr hd => hne ((h reply hr).symm.trans (of_decide_eq_true hd))

/-- The request of the state follows the answers, until the last one. -/
def StateFollows (terms : Terms T O) (cfg : Config T) (transId : TransId) (n k : Nat) (s : State T Pid TransId Call)
    (answers : List (Answer T)) (replies : List (Reply T Pid TransId Call)) (died : Bool) : Prop :=
  (∃ request, s.requests transId = some request ∧ Follows terms cfg n k request answers replies died) ∨
    (s.requests transId = none ∧ answers.length = n ∧ Closed terms cfg n k answers replies died)

theorem StateFollows.congr (h : StateFollows terms cfg transId n k s answers replies died)
    (hs : s'.requests transId = s.requests transId) (hr : repliesTo transId replies' = []) :
    StateFollows terms cfg transId n k s' answers (replies ++ repliesTo transId replies') died := by
  rw [hr, List.append_nil, StateFollows, hs]
  exact h

theorem StateFollows.answer_other (h : StateFollows terms cfg transId n k s answers replies died)
    (ha : Answers terms cfg p request dead a s replies' s') (hp : p.transId ≠ transId) :
    StateFollows terms cfg transId n k s' answers (replies ++ repliesTo transId replies') died := by
  obtain ⟨timeout, rfl, hnext⟩ := ha
  refine h.congr ?_ (repliesTo_other (fun _ => answered_replies) hp)
  rw [(nextRequests_ok hnext).2, Function.update_of_ne hp.symm]

theorem StateFollows.answer (h : StateFollows terms cfg p.transId n k s answers replies died)
    (hreq : s.requests p.transId = some request) (ha : Answers terms cfg p request dead a s replies' s')
    (hv : ∀ i r, a = .valid i r → validate cfg.validateResponseInfo cfg.validateResponse i r = true) :
    StateFollows terms cfg p.transId n k s' (answers ++ [a]) (replies ++ repliesTo p.transId replies')
      (died || a.finds dead) := by
  obtain ⟨timeout, rfl, hnext⟩ := ha
  obtain ⟨hle, hupdate⟩ := nextRequests_ok hnext
  rw [repliesTo_self fun _ => answered_replies]
  rcases h with ⟨request', hreq', hf⟩ | ⟨hnone, -⟩
  · obtain rfl := Option.some.inj (hreq.symm.trans hreq')
    -- the request still counts answers, so that this one is not past the last
    have hcount : (request.answered terms cfg p.transId timeout dead a).2.countResponses = answers.length + 1 ∧
        (request.answered terms cfg p.transId timeout dead a).2.countTotal = n := by
      rw [← hf.2.2.1, ← hf.2.1]
      cases a with
      | valid i r =>
        simp only [Request.answered]
        split
        · split
          · exact ⟨rfl, rfl⟩
          · split <;> exact ⟨rfl, rfl⟩
        · exact ⟨rfl, rfl⟩
      | failed =>
        simp only [Request.answered]
        split
        · exact ⟨rfl, rfl⟩
        · split <;> exact ⟨rfl, rfl⟩
    rw [hcount.1, hcount.2] at hle hupdate
    have hafter : Follows terms cfg n k (request.answered terms cfg p.transId timeout dead a).2 (answers ++ [a])
        (replies ++ (request.answered terms cfg p.transId timeout dead a).1) (died || a.finds dead) := by
      cases a with
      | valid i r =>
        rw [Answer.finds, Bool.or_false]
        exact hf.valid hle (hv i r rfl) _ _ _
      | failed => exact hf.failed hle _ _ _
    rw [StateFollows, hupdate, Function.update_self]
    by_cases hlast : answers.length + 1 = n
    · rw [if_pos hlast]
      refine .inr ⟨rfl, by rw [List.length_append]; exact hlast, ?_⟩
      rcases hafter.2.2.2 with ⟨-, -, hlt, -⟩ | ⟨-, hc⟩
      · rw [List.length_append, List.length_singleton] at hlt
        omega
      · exact hc
    · rw [if_neg hlast]
      exact .inl ⟨_, rfl, hafter⟩
  · rw [hnone] at hreq
    cases hreq

/-! ## Requests of services -/

/-- What a request that is not sent to destinations does. -/
theorem requestFailed_eq_ok (h : requestFailed terms cfg env r s = .ok (replies, s')) :
    ∃ dead failures, sourceFailure cfg env r.source s = .ok (dead, failures) ∧
      s' = { s with failuresSource := failures } ∧
      replies = if dead then [] else [nullReply terms r.call r.timeout r.transId r.source] := by
  obtain ⟨⟨dead, failures⟩, hs, h⟩ := bind_eq_ok h
  cases dead with
  | true =>
    cases h
    exact ⟨true, failures, hs, rfl, rfl⟩
  | false =>
    cases h
    exact ⟨false, failures, hs, rfl, rfl⟩

theorem requestFailed_other (hne : r.transId ≠ transId) (h : requestFailed terms cfg env r s = .ok (replies, s')) :
    s'.requests transId = s.requests transId ∧ repliesTo transId replies = [] := by
  obtain ⟨dead, failures, -, rfl, rfl⟩ := requestFailed_eq_ok h
  cases dead with
  | true => exact ⟨rfl, rfl⟩
  | false => exact ⟨rfl, repliesTo_other (fun reply h => by rw [List.mem_singleton.mp h]; rfl) hne⟩

theorem mcast_other {pids : List (Pid × Sending TransId)} (hne : r.transId ≠ transId)
    (h : mcast terms pids r k s = (replies, s')) :
    s'.requests transId = s.requests transId ∧ repliesTo transId replies = [] := by
  rw [mcast] at h
  dsimp only at h
  split at h
  · cases h
    exact ⟨Function.update_of_ne hne.symm _ _, rfl⟩
  · cases h
    exact ⟨Function.update_of_ne hne.symm _ _,
      repliesTo_other (fun reply h => by rw [List.mem_singleton.mp h]; rfl) hne⟩

theorem handleRequest_other {pids : Option (List (Pid × Sending TransId))} (hne : r.transId ≠ transId)
    (h : handleRequest terms cfg env pids r s = .ok (replies, s')) :
    s'.requests transId = s.requests transId ∧ repliesTo transId replies = [] := by
  unfold handleRequest at h
  split at h
  · split at h
    · exact requestFailed_other hne h
    · split at h
      · exact requestFailed_other hne h
      · exact mcast_other hne (Except.ok.inj h)
  · exact requestFailed_other hne h

theorem mcastSend_count (transId : TransId) (pids : List (Pid × Sending TransId)) (m : Nat)
    (pending : Dict TransId (Pending TransId Pid)) :
    (mcastSend transId pids m pending).1 = m + pids.countP fun p => p.2.known.isSome := by
  induction pids generalizing m pending with
  | nil => rfl
  | cons p pids ih =>
    rcases p with ⟨dst, quorumTransId | late⟩
    · rw [mcastSend, ih, List.countP_cons]
      simp only [Sending.known, Option.isSome_some, if_true]
      omega
    · rw [mcastSend, ih, List.countP_cons]
      rfl

/-- Some destination has to agree. -/
theorem countRequired_pos {quorum : QuorumArg} {count : Nat} (hc : 0 < count)
    (h : countRequired quorum count = some k) :
    0 < k := by
  cases quorum with
  | byzantine =>
    rw [countRequired] at h
    split at h
    · cases h
    · obtain rfl := Option.some.inj h
      omega
  | absolute n pos =>
    rw [countRequired] at h
    split at h
    · cases h
    · obtain rfl := Option.some.inj h
      exact pos
  | fraction ceil pos =>
    obtain rfl := Option.some.inj h
    exact Nat.lt_min.mpr ⟨hc, pos count hc⟩

theorem votes_nil (key : Key T) : votes terms cfg key [] = 0 := rfl

theorem mcast_follows {pids : List (Pid × Sending TransId)} (hk : 0 < k)
    (h : mcast terms pids r k s = (replies, s')) :
    StateFollows terms cfg r.transId (pids.countP fun p => p.2.known.isSome) k s' [] replies false := by
  have hcount := mcastSend_count r.transId pids 0 s.pending
  rw [Nat.zero_add] at hcount
  rw [mcast] at h
  dsimp only at h
  rw [hcount] at h
  split at h
  · rename_i hge
    cases h
    refine .inl ⟨_, Function.update_self _ _ _, rfl, rfl, rfl, .inl ⟨rfl, rfl, Nat.lt_of_lt_of_le hk hge,
      fun key => hk, fun key => rfl, fun key => Nat.le_refl _, Orddict.ordered_nil⟩⟩
  · rename_i hlt
    cases h
    refine .inl ⟨_, Function.update_self _ _ _, rfl, rfl, rfl,
      .inr ⟨rfl, .inl ⟨_, rfl, .inr ⟨rfl, rfl, fun key => ?_⟩⟩⟩⟩
    rw [votes_nil, List.length_nil]
    omega

theorem requestFailed_follows {failures : Dict Pid (List Nat)} (hnone : s.requests transId = none)
    (h : requestFailed terms cfg env r s = .ok (replies, s'))
    (hs : sourceFailure cfg env r.source s = .ok (dead, failures)) :
    StateFollows terms cfg transId 0 1 s' [] replies dead := by
  obtain ⟨dead', failures', hs', rfl, rfl⟩ := requestFailed_eq_ok h
  cases hs.symm.trans hs'
  cases dead with
  | true => exact .inr ⟨hnone, rfl, .inr ⟨rfl, rfl⟩⟩
  | false => exact .inr ⟨hnone, rfl, .inl ⟨_, rfl, .inr ⟨rfl, rfl, fun key => Nat.lt_succ_self 0⟩⟩⟩

theorem answer_validated {i i' v v' : T} (h : cfg.answer i v = .valid i' v') :
    validate cfg.validateResponseInfo cfg.validateResponse i' v' = true := by
  rw [Config.answer] at h
  split at h
  · rename_i hv
    obtain ⟨rfl, rfl⟩ := Answer.valid.inj h
    exact hv
  · cases h

/-! ## Answers that are handled -/

theorem nextRequests_eq {requests : Dict TransId (Request T Pid Call)}
    (h : request.countResponses ≤ request.countTotal) : nextRequests transId request requests =
      .ok (Function.update requests transId
        (if request.countResponses = request.countTotal then none else some request)) := by
  rw [nextRequests]
  split
  · rfl
  · rename_i hne
    rw [if_pos (by omega)]
    rfl

/-- The request is counted, and erased with its last answer. -/
def Counted (p : Pending TransId Pid) (request : Request T Pid Call) (s s' : State T Pid TransId Call) : Prop :=
  ∃ request' : Request T Pid Call, request'.countTotal = request.countTotal ∧
    request'.countResponses = request.countResponses + 1 ∧
    s'.requests = Function.update s.requests p.transId
      (if request.countResponses + 1 = request.countTotal then none else some request')

/-- What each handler ends with. -/
theorem next_counted {request' : Request T Pid Call} (ht : request'.countTotal = request.countTotal)
    (hc : request'.countResponses = request.countResponses + 1) (hlt : request.countResponses < request.countTotal)
    (replies : List (Reply T Pid TransId Call)) (newFailuresSrc newFailuresDst : Dict Pid (List Nat)) :
    ∃ replies' s', (do
        let newRequests ← nextRequests p.transId request' s.requests
        return (replies, (⟨newFailuresSrc, newFailuresDst, newRequests, newPending⟩ : State T Pid TransId Call))) =
          Except.ok (replies', s') ∧ s'.pending = newPending ∧ Counted p request s s' := by
  rw [nextRequests_eq (by omega), hc, ht]
  exact ⟨_, _, rfl, rfl, request', ht, hc, rfl⟩

/-- The processes that a failure of the destination asks for are of this node. -/
def State.Checks (cfg : Config T) (env : Env Pid) (quorumTransId : TransId) (s : State T Pid TransId Call) : Prop :=
  ∀ p request, s.pending quorumTransId = some p → s.requests p.transId = some request →
    env.Checks cfg.failuresSourceDie request.source ∧ env.Checks cfg.failuresDestDie p.dest

/-- The processes that an answer asks for are of this node, if it is a failure. -/
def Event.Checks (cfg : Config T) (s : State T Pid TransId Call) : Event T Pid TransId Call → Prop
  | .returnAsyncActive env quorumTransId responseInfo response _ =>
    cfg.answer responseInfo response = .failed → s.Checks cfg env quorumTransId
  | .timeoutAsyncActive env quorumTransId => s.Checks cfg env quorumTransId
  | _ => True

/-- The id of the send that the event answers. -/
def Event.answered : Event T Pid TransId Call → Option TransId
  | .returnAsyncActive _ quorumTransId _ _ _ | .timeoutAsyncActive _ quorumTransId => some quorumTransId
  | _ => none

theorem failed_counted (hs : env.Checks cfg.failuresSourceDie request.source)
    (hd : env.Checks cfg.failuresDestDie p.dest) (hlt : request.countResponses < request.countTotal) :
    ∃ replies s', failed terms cfg env p request timeout newPending s = .ok (replies, s') ∧
      s'.pending = newPending ∧ Counted p request s s' := by
  obtain ⟨⟨dead, newFailuresSrc⟩, hs⟩ := failure_ok_iff.mpr hs
  obtain ⟨⟨dead', newFailuresDst⟩, hd⟩ := failure_ok_iff.mpr hd
  rw [failed, sourceFailure, bind_ok hs]
  dsimp only
  rw [destFailure, bind_ok hd]
  dsimp only
  refine next_counted ?_ ?_ hlt _ _ _ <;> rfl

theorem failed_checks {x : List (Reply T Pid TransId Call) × State T Pid TransId Call}
    (h : failed terms cfg env p request timeout newPending s = .ok x) :
    env.Checks cfg.failuresSourceDie request.source ∧ env.Checks cfg.failuresDestDie p.dest := by
  obtain ⟨y, hs, h⟩ := bind_eq_ok h
  obtain ⟨z, hd, -⟩ := bind_eq_ok h
  exact ⟨failure_ok_iff.mp ⟨y, hs⟩, failure_ok_iff.mp ⟨z, hd⟩⟩

variable (terms cfg env) in
theorem timeoutAsyncActive_counted (hp : s.pending quorumTransId = some p) (hr : s.requests p.transId = some request)
    (hlt : request.countResponses < request.countTotal) (hc : s.Checks cfg env quorumTransId) :
    ∃ replies s', timeoutAsyncActive terms cfg env quorumTransId s = .ok (replies, s') ∧
      s'.pending = s.pending.erase quorumTransId ∧ Counted p request s s' := by
  rw [timeoutAsyncActive, bind_ok (Dict.fetch_eq_ok.mpr hp)]
  dsimp only
  rw [bind_ok (Dict.fetch_eq_ok.mpr hr)]
  exact failed_counted (hc p request hp hr).1 (hc p request hp hr).2 hlt

variable (terms cfg env timeout) in
theorem returnAsyncActive_counted (responseInfo response : T) (hp : s.pending quorumTransId = some p)
    (hr : s.requests p.transId = some request) (hlt : request.countResponses < request.countTotal)
    (hc : cfg.answer responseInfo response = .failed → s.Checks cfg env quorumTransId) :
    ∃ replies s', returnAsyncActive terms cfg env quorumTransId responseInfo response timeout s = .ok (replies, s') ∧
      s'.pending = s.pending.erase quorumTransId ∧ Counted p request s s' := by
  rw [returnAsyncActive, bind_ok (Dict.fetch_eq_ok.mpr hp)]
  dsimp only
  rw [bind_ok (Dict.fetch_eq_ok.mpr hr)]
  split
  · split
    · refine next_counted ?_ ?_ hlt _ _ _ <;> rfl
    · refine next_counted ?_ ?_ hlt _ _ _ <;> rfl
  · rename_i hv
    have hc := hc (by rw [Config.answer, if_neg hv])
    exact failed_counted (hc p request hp hr).1 (hc p request hp hr).2 hlt

/-- What is handled asks for processes of this node only. -/
theorem Event.checks_of_ok {e : Event T Pid TransId Call}
    {x : List (Reply T Pid TransId Call) × State T Pid TransId Call} (h : e.apply terms cfg s = .ok x) :
    e.Checks cfg s := by
  cases e with
  | request env pids r => trivial
  | down pid => trivial
  | returnAsyncActive env q responseInfo response timeout =>
    intro hfailed p request hp hr
    obtain ⟨p', hp', h⟩ := bind_eq_ok h
    obtain ⟨request', hr', h⟩ := bind_eq_ok h
    obtain rfl := Option.some.inj (hp.symm.trans (Dict.fetch_eq_ok.mp hp'))
    obtain rfl := Option.some.inj (hr.symm.trans (Dict.fetch_eq_ok.mp hr'))
    split at h
    · rename_i hv
      rw [Config.answer, if_pos hv] at hfailed
      cases hfailed
    · exact failed_checks h
  | timeoutAsyncActive env q =>
    intro p request hp hr
    obtain ⟨p', hp', h⟩ := bind_eq_ok h
    obtain ⟨request', hr', h⟩ := bind_eq_ok h
    obtain rfl := Option.some.inj (hp.symm.trans (Dict.fetch_eq_ok.mp hp'))
    obtain rfl := Option.some.inj (hr.symm.trans (Dict.fetch_eq_ok.mp hr'))
    exact failed_checks h

/-- An answer of a destination before the last one is handled, unless it asks for a process of another node. -/
theorem StateFollows.handles (h : StateFollows terms cfg p.transId n k s answers replies died)
    (hlt : answers.length < n) (hp : s.pending quorumTransId = some p) {e : Event T Pid TransId Call}
    (he : e.answered = some quorumTransId) : (∃ x, e.apply terms cfg s = .ok x) ↔ e.Checks cfg s := by
  refine ⟨fun hx => hx.elim fun _ => Event.checks_of_ok, fun hc => ?_⟩
  rcases h with ⟨request, hr, -, hn, hlen, -⟩ | ⟨-, hlen, -⟩
  · cases e with
    | request env pids r => cases he
    | down pid => cases he
    | returnAsyncActive env q responseInfo response timeout =>
      cases he
      obtain ⟨replies, s', happly, -⟩ := returnAsyncActive_counted terms cfg env timeout responseInfo response hp hr
        (by omega) hc
      exact ⟨_, happly⟩
    | timeoutAsyncActive env q =>
      cases he
      obtain ⟨replies, s', happly, -⟩ := timeoutAsyncActive_counted terms cfg env hp hr (by omega) hc
      exact ⟨_, happly⟩
  · omega

/-! ## The decision -/

theorem Handled.follows (h : Handled terms cfg transId n k s answers replies died) :
    StateFollows terms cfg transId n k s answers replies died := by
  induction h with
  | @sent s s' r replies env pids k hid hnone hne hv hk h =>
    subst hid
    unfold handleRequest at h
    simp only [hv, if_true, hk] at h
    exact mcast_follows (countRequired_pos (List.length_pos_of_ne_nil hne) hk) (Except.ok.inj h)
  | @notSent s s' r replies dead failures env pids hid hnone hnot h hs =>
    unfold handleRequest at h
    split at h
    · rename_i hv
      split at h
      · exact requestFailed_follows hnone h hs
      · split at h
        · exact requestFailed_follows hnone h hs
        · rename_i l _ k hk
          rcases hnot with hnot | hnot
          · exact absurd (hnot.symm.trans hv) Bool.false_ne_true
          · cases (hnot l rfl).symm.trans hk
    · exact requestFailed_follows hnone h hs
  | @step n k s s' answers replies replies' died e _ hid ha ih =>
    cases e with
    | request env pids r =>
      have hne : r.transId ≠ transId := fun heq => hid (congrArg some heq)
      have hother := handleRequest_other hne ha
      have hstep := ih.congr hother.1 hother.2
      simpa only [Event.answersTo, Event.findsDead, List.append_nil, Bool.or_false] using hstep
    | down pid =>
      cases ha
      have hstep : StateFollows terms cfg transId n k (down cfg pid s) answers (replies ++ repliesTo transId []) died :=
        ih.congr rfl rfl
      simpa only [Event.answersTo, Event.findsDead, List.append_nil, Bool.or_false] using hstep
    | returnAsyncActive env quorumTransId i v timeout =>
      obtain ⟨p, request, hp, hreq, hans⟩ := returnAsyncActive_answers ha
      by_cases hpid : p.transId = transId
      · subst hpid
        have hstep := ih.answer hreq hans fun _ _ => answer_validated
        simpa only [Event.answersTo, Event.findsDead, hp, if_true, List.any_cons, List.any_nil, Bool.or_false] using
          hstep
      · have hstep := ih.answer_other hans hpid
        simpa only [Event.answersTo, Event.findsDead, hp, hpid, if_false, List.any_nil, List.append_nil,
          Bool.or_false] using hstep
    | timeoutAsyncActive env quorumTransId =>
      obtain ⟨p, request, hp, hreq, hans⟩ := timeoutAsyncActive_answers ha
      by_cases hpid : p.transId = transId
      · subst hpid
        have hstep := ih.answer hreq hans fun _ _ hval => by cases hval
        simpa only [Event.answersTo, Event.findsDead, hp, if_true, List.any_cons, List.any_nil, Bool.or_false] using
          hstep
      · have hstep := ih.answer_other hans hpid
        simpa only [Event.answersTo, Event.findsDead, hp, hpid, if_false, List.any_nil, List.append_nil,
          Bool.or_false] using hstep

/-- The replies of the state so far. -/
theorem StateFollows.reply_cases (h : StateFollows terms cfg transId n k s answers replies died) :
    (replies = [] ∧ (died = true ∨ answers.length < n)) ∨
      ∃ reply, replies = [reply] ∧ Decided terms cfg n k answers reply := by
  rcases h with ⟨request, -, -, -, -, ⟨-, hr, hlt, -⟩ | ⟨-, hc⟩⟩ | ⟨-, -, hc⟩
  · exact .inl ⟨hr, .inr hlt⟩
  · exact hc.elim .inr fun hd => .inl ⟨hd.1, .inl hd.2⟩
  · exact hc.elim .inr fun hd => .inl ⟨hd.1, .inl hd.2⟩

/-- When more than half of the answers have to agree, their order does not decide the key of the reply. -/
theorem Decided.unique (hmore : n < 2 * k) (hlen : answers.length = n) (hperm : answers.Perm answers')
    (h : Decided terms cfg n k answers reply) (h' : Decided terms cfg n k answers' reply') :
    keyRank terms (cfg.key reply.responseInfo reply.response) =
      keyRank terms (cfg.key reply'.responseInfo reply'.response) := by
  have hvotes : ∀ key, votes terms cfg key answers' = votes terms cfg key answers := fun key =>
    (hperm.countP_eq _).symm
  have hlen' : answers'.length = n := hperm.length_eq ▸ hlen
  rcases h with ⟨-, hk⟩ | ⟨hi, hr, hnone⟩ <;> rcases h' with ⟨-, hk'⟩ | ⟨hi', hr', hnone'⟩
  · by_contra hne
    have hle := votes_add_le terms cfg hne answers
    rw [hvotes] at hk'
    omega
  · have hlt := hnone' (cfg.key reply.responseInfo reply.response)
    rw [hvotes] at hlt
    omega
  · have hlt := hnone (cfg.key reply'.responseInfo reply'.response)
    rw [hvotes] at hk'
    omega
  · rw [hi, hr, hi', hr']

/-- There is at most one reply to a request, decided by the answers so far, and one when the last destination has
answered unless the source died. When more than half of the destinations have to agree, the key of the reply does not
depend on the order of the answers. An answer of a destination is handled, unless a failure asks whether a process of
another node is alive. -/
theorem reply_decided {T O Pid TransId Call : Type} [LinearOrder O] [DecidableEq Pid] [DecidableEq TransId]
    {terms : Terms T O} {cfg : Config T} {transId : TransId} {n k : Nat} {s : State T Pid TransId Call}
    {answers : List (Answer T)} {replies : List (Reply T Pid TransId Call)} {died : Bool}
    (h : Handled terms cfg transId n k s answers replies died) :
    replies.length ≤ 1 ∧ (∀ reply, reply ∈ replies → Decided terms cfg n k answers reply) ∧
      (answers.length = n → died = false → replies.length = 1) ∧
      (∀ (e : Event T Pid TransId Call) (quorumTransId : TransId) (p : Pending TransId Pid),
        e.answered = some quorumTransId → s.pending quorumTransId = some p → p.transId = transId →
          answers.length < n → ((∃ x, e.apply terms cfg s = .ok x) ↔ e.Checks cfg s)) ∧
      ∀ (transId' : TransId) (s' : State T Pid TransId Call) (answers' : List (Answer T))
        (replies' : List (Reply T Pid TransId Call)) (died' : Bool),
        Handled terms cfg transId' n k s' answers' replies' died' → answers.Perm answers' → answers.length = n →
          n < 2 * k → ∀ reply reply', reply ∈ replies → reply' ∈ replies' →
            keyRank terms (cfg.key reply.responseInfo reply.response) =
              keyRank terms (cfg.key reply'.responseInfo reply'.response) := by
  have hmem : ∀ {transId : TransId} {s : State T Pid TransId Call} {answers : List (Answer T)}
      {replies : List (Reply T Pid TransId Call)} {died : Bool}, Handled terms cfg transId n k s answers replies died →
      ∀ reply, reply ∈ replies → Decided terms cfg n k answers reply := fun h reply hr => by
    rcases h.follows.reply_cases with ⟨rfl, -⟩ | ⟨reply', rfl, hd⟩
    · cases hr
    · exact List.mem_singleton.mp hr ▸ hd
  refine ⟨?_, hmem h, fun hlen hdied => ?_, ?_, fun transId' s' answers' replies' died' h' hperm hlen hmore reply reply'
    hr hr' => (hmem h reply hr).unique hmore hlen hperm (hmem h' reply' hr')⟩
  · rcases h.follows.reply_cases with ⟨rfl, -⟩ | ⟨reply, rfl, -⟩
    · exact Nat.zero_le 1
    · exact Nat.le_refl 1
  · rcases h.follows.reply_cases with ⟨-, hdead | hlt⟩ | ⟨reply, rfl, -⟩
    · rw [hdied] at hdead
      cases hdead
    · omega
    · rfl
  · intro e quorumTransId p he hp hid hlt
    subst hid
    exact h.follows.handles hlt hp he

/-! ## Terms that are equal -/

/-- `1`, `1.0` and `<<>>`, of which the first two are equal for `==`. -/
inductive Value where
  | one
  | onePointZero
  | null
deriving DecidableEq

def valueTerms : Terms Value Nat where
  null := .null
  rank
    | .one => 1
    | .onePointZero => 1
    | .null => 2

/-- Two destinations have to agree, and every response is valid. -/
def pairConfig : Config Value where
  quorum := .absolute 2 Nat.two_pos
  useResponseInfo := true
  validateRequestInfo := none
  validateRequest := none
  validateResponseInfo := none
  validateResponse := none
  failuresSourceDie := false
  failuresSourceMaxCount := 2
  failuresSourceMaxPeriod := none
  failuresDestDie := false
  failuresDestMaxCount := 2
  failuresDestMaxPeriod := none

def pairRequest : Incoming Value Nat Nat Unit := ⟨(), .null, .null, 5, 0, 7⟩

/-- Two destinations that were sent the request `0`, with the ids `1` and `2`. -/
def pairSent : List (Reply Value Nat Nat Unit) × State Value Nat Nat Unit :=
  mcast valueTerms [(10, .ok 1), (11, .ok 2)] pairRequest 2 ⟨Dict.new, Dict.new, Dict.new, Dict.new⟩

theorem handled_pairSent : Handled valueTerms pairConfig 0 2 2 pairSent.2 [] pairSent.1 false :=
  .sent (r := pairRequest) ⟨0, fun _ => true, fun _ => true⟩ [(10, .ok 1), (11, .ok 2)] rfl rfl (List.cons_ne_nil _ _)
    rfl rfl rfl

/-- The response `1` and the response `1.0` are a quorum of two, with the reply that came last; and the failure of a
destination, for a request of a process of another node, raises before there is a reply. -/
theorem handled_equal : (∃ (s s' : State Value Nat Nat Unit) (reply reply' : Reply Value Nat Nat Unit),
    Handled valueTerms pairConfig 0 2 2 s [.valid .null .one, .valid .null .onePointZero] [reply] false ∧
      reply.response = .onePointZero ∧
      Handled valueTerms pairConfig 0 2 2 s' [.valid .null .onePointZero, .valid .null .one] [reply'] false ∧
      reply'.response = .one) ∧
    ∃ s : State Value Nat Nat Unit,
      Handled valueTerms { pairConfig with failuresSourceDie := true } 0 2 2 s [] [] false ∧
      (Event.timeoutAsyncActive ⟨0, fun pid => decide (pid ≠ 7), fun _ => true⟩ 1).apply valueTerms
        { pairConfig with failuresSourceDie := true } s = .error .badarg := by
  have hone := (handled_pairSent.step (.returnAsyncActive ⟨0, fun _ => true, fun _ => true⟩ 1 .null .one 5)
    (by simp [Event.requestId]) rfl).step
      (.returnAsyncActive ⟨0, fun _ => true, fun _ => true⟩ 2 .null .onePointZero 5) (by simp [Event.requestId]) rfl
  have hfloat := (handled_pairSent.step
    (.returnAsyncActive ⟨0, fun _ => true, fun _ => true⟩ 1 .null .onePointZero 5) (by simp [Event.requestId]) rfl).step
      (.returnAsyncActive ⟨0, fun _ => true, fun _ => true⟩ 2 .null .one 5) (by simp [Event.requestId]) rfl
  exact ⟨⟨_, _, _, _, hone, rfl, hfloat, rfl⟩, pairSent.2, .sent (r := pairRequest) ⟨0, fun _ => true, fun _ => true⟩
    [(10, .ok 1), (11, .ok 2)] rfl rfl (List.cons_ne_nil _ _) rfl rfl rfl, rfl⟩

/-- Two destinations that answer with the same response. -/
theorem reply_decided_same : ∃ (s : State Value Nat Nat Unit) (replies : List (Reply Value Nat Nat Unit)),
    Handled valueTerms pairConfig 0 2 2 s [.valid .null .one, .valid .null .one] replies false ∧
      replies.length = 1 := by
  have hsame := (handled_pairSent.step (.returnAsyncActive ⟨0, fun _ => true, fun _ => true⟩ 1 .null .one 5)
    (by simp [Event.requestId]) rfl).step (.returnAsyncActive ⟨0, fun _ => true, fun _ => true⟩ 2 .null .one 5)
    (by simp [Event.requestId]) rfl
  exact ⟨_, _, hsame, (reply_decided hsame).2.2.1 rfl rfl⟩

end CloudI.Quorum
