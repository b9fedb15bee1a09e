import CloudI.Quorum.Decision

/-!
# The bookkeeping of the quorum service

What is in `requests` and `pending`, against the destinations that were sent a
request and have not answered (`Event.outstanding`). `Books` is that they are
the same, and every event keeps it (`quorum_bookkeeping`), so that no answer is
for a request that is not there. `Event.Meets` leaves out what breaks it: a
request that is stored without any destination, or sent with an id that the
service is not told, and a failure that asks about a process of another node.
-/

set_option linter.unusedSectionVars false

namespace CloudI.Quorum

variable {T O Pid TransId Call : Type} [LinearOrder O] [DecidableEq Pid] [DecidableEq TransId] {terms : Terms T O}
  {cfg : Config T} {s s' : State T Pid TransId Call} {env : Env Pid} {r : Incoming T Pid TransId Call}
  {quorumTransId : TransId} {p : Pending TransId Pid} {request : Request T Pid Call}
  {newPending : Dict TransId (Pending TransId Pid)} {timeout : Nat}

/-! ## What is outstanding -/

/-- The destinations that were sent a request and have not answered, each with the id that it was sent. -/
abbrev Outstanding (TransId Pid : Type) := List (TransId × Pending TransId Pid)

/-- How many destinations of a request have not answered. -/
def waiting (out : Outstanding TransId Pid) (transId : TransId) : Nat := out.countP fun o => o.2.transId = transId

/-- The destinations that a request is sent to. -/
def sends (transId : TransId) (pids : List (Pid × Sending TransId)) : Outstanding TransId Pid :=
  pids.filterMap fun d => d.2.sent.map fun quorumTransId => (quorumTransId, ⟨transId, d.1⟩)

/-- The same, as far as the service is told: those whose send did not time out. -/
def stores (transId : TransId) (pids : List (Pid × Sending TransId)) : Outstanding TransId Pid :=
  pids.filterMap fun d => d.2.known.map fun quorumTransId => (quorumTransId, ⟨transId, d.1⟩)

/-- The destinations that a request is for, if it is valid and there are enough of them. -/
def asked (cfg : Config T) (pids : Option (List (Pid × Sending TransId))) (r : Incoming T Pid TransId Call) :
    Option (List (Pid × Sending TransId)) :=
  if validate cfg.validateRequestInfo cfg.validateRequest r.requestInfo r.request then
    pids.filter fun l => (countRequired cfg.quorum l.length).isSome
  else none

/-- What an event sends. -/
def Event.sent (cfg : Config T) : Event T Pid TransId Call → Outstanding TransId Pid
  | .request _ pids r => (asked cfg pids r).elim [] (sends r.transId)
  | _ => []

/-- What is outstanding after an event. -/
def Event.outstanding (cfg : Config T) (out : Outstanding TransId Pid) (e : Event T Pid TransId Call) :
    Outstanding TransId Pid :=
  match e with
  | .returnAsyncActive _ quorumTransId _ _ _ | .timeoutAsyncActive _ quorumTransId =>
    out.filter fun o => o.1 ≠ quorumTransId
  | _ => e.sent cfg ++ out

/-- What a service can receive: a destination answers once, and the ids that are sent are new. -/
def Event.Admissible (cfg : Config T) (out : Outstanding TransId Pid) (e : Event T Pid TransId Call) : Prop :=
  match e with
  | .returnAsyncActive _ quorumTransId _ _ _ | .timeoutAsyncActive _ quorumTransId => quorumTransId ∈ out.map Prod.fst
  | _ => ((e.sent cfg).map Prod.fst).Nodup ∧
      ∀ quorumTransId ∈ (e.sent cfg).map Prod.fst, quorumTransId ∉ out.map Prod.fst

/-- A request that is sent to destinations reaches one of them, and no destination by a send that had timed out, and it
has not the id of a request that is stored; and a failure asks for processes of this node. -/
def Event.Meets (cfg : Config T) (s : State T Pid TransId Call) : Event T Pid TransId Call → Prop
  | .request env pids r =>
    match asked cfg pids r with
    | some l => sends r.transId l ≠ [] ∧ (∀ d ∈ l, d.2.sent = d.2.known) ∧ s.requests r.transId = none
    | none => env.Checks cfg.failuresSourceDie r.source
  | e => e.Checks cfg s

/-- The pending destinations are those that are outstanding, each for a request that is stored; and a request is stored
while some destination of it has not answered, as its counts say. -/
structure Bookkeeping (out : Outstanding TransId Pid) (s : State T Pid TransId Call) : Prop where
  pending : ∀ quorumTransId p, s.pending quorumTransId = some p ↔ (quorumTransId, p) ∈ out
  points : ∀ quorumTransId p, s.pending quorumTransId = some p → ∃ request, s.requests p.transId = some request
  stored : ∀ transId request, s.requests transId = some request →
    0 < waiting out transId ∧ request.countTotal - request.countResponses = waiting out transId
  empty : out = [] → s.pending = Dict.new ∧ s.requests = Dict.new

/-- The same, as an invariant. -/
structure Books (out : Outstanding TransId Pid) (s : State T Pid TransId Call) : Prop where
  nodup : (out.map Prod.fst).Nodup
  pending : ∀ quorumTransId p, s.pending quorumTransId = some p ↔ (quorumTransId, p) ∈ out
  stored : ∀ transId request, s.requests transId = some request →
    0 < waiting out transId ∧ request.countResponses + waiting out transId = request.countTotal
  unstored : ∀ transId, s.requests transId = none → waiting out transId = 0

theorem waiting_pos {out : Outstanding TransId Pid} {transId : TransId} :
    0 < waiting out transId ↔ ∃ o ∈ out, o.2.transId = transId := by
  rw [waiting, List.countP_pos_iff]
  simp only [decide_eq_true_eq]

theorem Books.bookkeeping {out : Outstanding TransId Pid} (hb : Books out s) : Bookkeeping out s where
  pending := hb.pending
  points q p hp := by
    cases hr : s.requests p.transId with
    | some request => exact ⟨request, rfl⟩
    | none =>
      have hpos : 0 < waiting out p.transId := waiting_pos.mpr ⟨(q, p), (hb.pending q p).mp hp, rfl⟩
      exact absurd (hb.unstored _ hr) (Nat.ne_of_gt hpos)
  stored transId request hr := by
    obtain ⟨hpos, hcount⟩ := hb.stored transId request hr
    exact ⟨hpos, by omega⟩
  empty ho := by
    subst ho
    refine ⟨funext fun q => ?_, funext fun transId => ?_⟩
    · cases hq : s.pending q with
      | none => rfl
      | some p => exact absurd ((hb.pending q p).mp hq) List.not_mem_nil
    · cases hr : s.requests transId with
      | none => rfl
      | some request => exact absurd (hb.stored transId request hr).1 (Nat.lt_irrefl 0)

/-! ## Answers -/

variable {out : Outstanding TransId Pid}

theorem waiting_append (out out' : Outstanding TransId Pid) (transId : TransId) :
    waiting (out ++ out') transId = waiting out transId + waiting out' transId :=
  List.countP_append

theorem perm_filter (hnodup : (out.map Prod.fst).Nodup) {o : TransId × Pending TransId Pid} (ho : o ∈ out) :
    out.Perm (o :: out.filter fun o' => o'.1 ≠ o.1) := by
  induction out with
  | nil => cases ho
  | cons x out ih =>
    obtain ⟨hx, hnodup⟩ := List.nodup_cons.mp hnodup
    obtain rfl | ho := List.mem_cons.mp ho
    · have hout : (out.filter fun o' => o'.1 ≠ o.1) = out :=
        List.filter_eq_self.mpr fun o' ho' => decide_eq_true fun he => hx (he ▸ List.mem_map_of_mem ho')
      rw [List.filter_cons_of_neg (by simp), hout]
    · have hne : x.1 ≠ o.1 := fun he => hx (he ▸ List.mem_map_of_mem ho)
      rw [List.filter_cons_of_pos (by simpa using hne)]
      exact ((ih hnodup ho).cons x).trans (List.Perm.swap o x _)

/-- One destination less waits. -/
theorem waiting_filter (hnodup : (out.map Prod.fst).Nodup) (ho : (quorumTransId, p) ∈ out) (transId : TransId) :
    waiting out transId =
      waiting (out.filter fun o => o.1 ≠ quorumTransId) transId + if p.transId = transId then 1 else 0 := by
  have hcount := (perm_filter hnodup ho).countP_eq fun o => decide (o.2.transId = transId)
  rw [List.countP_cons] at hcount
  simpa only [waiting, decide_eq_true_eq] using hcount

/-- An answer is for a request that is stored. -/
theorem Books.find (hb : Books out s) (hq : quorumTransId ∈ out.map Prod.fst) :
    ∃ p request, (quorumTransId, p) ∈ out ∧ s.pending quorumTransId = some p ∧ s.requests p.transId = some request ∧
      request.countResponses < request.countTotal := by
  obtain ⟨⟨q, p⟩, ho, rfl⟩ := List.mem_map.mp hq
  have hp := (hb.pending q p).mpr ho
  obtain ⟨request, hr⟩ := hb.bookkeeping.points q p hp
  obtain ⟨hpos, hcount⟩ := hb.stored p.transId request hr
  exact ⟨p, request, ho, hp, hr, by omega⟩

theorem Books.counted (hb : Books out s) (ho : (quorumTransId, p) ∈ out) (hr : s.requests p.transId = some request)
    (hp : s'.pending = s.pending.erase quorumTransId) (hc : Counted p request s s') :
    Books (out.filter fun o => o.1 ≠ quorumTransId) s' := by
  obtain ⟨request', ht, hresp, hreq⟩ := hc
  obtain ⟨hpos, hcount⟩ := hb.stored p.transId request hr
  refine ⟨hb.nodup.sublist (List.filter_sublist.map _), fun q p' => ?_, fun transId x hx => ?_, fun transId hx => ?_⟩
  · rw [hp, List.mem_filter]
    by_cases hq : q = quorumTransId
    · subst hq
      simp [Dict.erase_self]
    · rw [Dict.erase_of_ne hq, hb.pending]
      simp [hq]
  · have hw := waiting_filter hb.nodup ho transId
    rw [hreq] at hx
    by_cases hid : transId = p.transId
    · subst hid
      rw [Function.update_self] at hx
      rw [if_pos rfl] at hw
      split at hx
      · cases hx
      · obtain rfl := Option.some.inj hx
        omega
    · rw [Function.update_of_ne hid] at hx
      rw [if_neg (Ne.symm hid), Nat.add_zero] at hw
      rw [← hw]
      exact hb.stored transId x hx
  · have hw := waiting_filter hb.nodup ho transId
    rw [hreq] at hx
    by_cases hid : transId = p.transId
    · subst hid
      rw [Function.update_self] at hx
      rw [if_pos rfl] at hw
      split at hx
      · omega
      · cases hx
    · rw [Function.update_of_ne hid] at hx
      have := hb.unstored transId hx
      omega

/-! ## Requests -/

theorem length_stores (transId : TransId) (pids : List (Pid × Sending TransId)) :
    (stores transId pids).length = pids.countP fun d => d.2.known.isSome := by
  induction pids with
  | nil => rfl
  | cons d pids ih =>
    rcases d with ⟨dst, q | late⟩
    · rw [List.countP_cons, ← ih]
      rfl
    · rw [List.countP_cons, ← ih]
      rfl

theorem stores_eq_sends (transId : TransId) {pids : List (Pid × Sending TransId)}
    (h : ∀ d ∈ pids, d.2.sent = d.2.known) : stores transId pids = sends transId pids :=
  List.filterMap_congr fun d hd => by rw [h d hd]

theorem stores_subset (transId : TransId) (pids : List (Pid × Sending TransId)) :
    (stores transId pids).Sublist (sends transId pids) := by
  induction pids with
  | nil => exact List.Sublist.slnil
  | cons d pids ih =>
    rcases d with ⟨dst, q | late⟩
    · exact ih.cons_cons _
    · cases late with
      | none => exact ih
      | some q => exact ih.cons _

/-- What is sent behind the back of the service is not stored. -/
theorem eq_known_of_stores {transId : TransId} {pids : List (Pid × Sending TransId)}
    (hnodup : ((sends transId pids).map Prod.fst).Nodup)
    (h : ∀ q ∈ (sends transId pids).map Prod.fst, q ∈ (stores transId pids).map Prod.fst) :
    ∀ d ∈ pids, d.2.sent = d.2.known := by
  have hlength : (sends transId pids).length ≤ (stores transId pids).length := by
    simpa using (List.subperm_of_subset hnodup h).length_le
  have heq := (stores_subset transId pids).eq_of_length_le hlength
  clear h hlength hnodup
  induction pids with
  | nil => exact fun d hd => absurd hd List.not_mem_nil
  | cons d pids ih =>
    rcases d with ⟨dst, q | late⟩
    · exact List.forall_mem_cons.mpr ⟨rfl, ih (List.cons.inj heq).2⟩
    · cases late with
      | none => exact List.forall_mem_cons.mpr ⟨rfl, ih heq⟩
      | some q =>
        have hlen : (stores transId pids).length = (sends transId pids).length + 1 := congrArg List.length heq
        have hle := (stores_subset transId pids).length_le
        omega

theorem waiting_sends (transId : TransId) (pids : List (Pid × Sending TransId)) (transId' : TransId) :
    waiting (sends transId pids) transId' = if transId' = transId then (sends transId pids).length else 0 := by
  have hall : ∀ o ∈ sends transId pids, o.2.transId = transId := by
    intro o ho
    obtain ⟨d, -, hd⟩ := List.mem_filterMap.mp ho
    obtain ⟨q, -, rfl⟩ := Option.map_eq_some_iff.mp hd
    rfl
  split
  · rename_i he
    subst he
    exact List.countP_eq_length.mpr fun o ho => decide_eq_true (hall o ho)
  · rename_i hne
    exact List.countP_eq_zero.mpr fun o ho => by simpa [hall o ho] using Ne.symm hne

/-- The destinations that the service knows are pending beside the others. -/
theorem mcastSend_pending (transId : TransId) (pids : List (Pid × Sending TransId)) (n : Nat)
    (pending : Dict TransId (Pending TransId Pid)) (hnodup : ((stores transId pids).map Prod.fst).Nodup) (q : TransId)
    (p : Pending TransId Pid) : (mcastSend transId pids n pending).2 q = some p ↔
      (q, p) ∈ stores transId pids ∨ (q ∉ (stores transId pids).map Prod.fst ∧ pending q = some p) := by
  induction pids generalizing n pending with
  | nil => simp [mcastSend, stores]
  | cons d pids ih =>
    rcases d with ⟨dst, q' | late⟩
    · have hcons : stores transId ((dst, .ok q') :: pids) = (q', ⟨transId, dst⟩) :: stores transId pids := rfl
      rw [hcons, List.map_cons] at hnodup ⊢
      obtain ⟨hnot, hnodup⟩ := List.nodup_cons.mp hnodup
      rw [mcastSend, ih _ _ hnodup]
      by_cases hq : q = q'
      · subst hq
        have hno (p' : Pending TransId Pid) : (q, p') ∉ stores transId pids := fun hm =>
          hnot (List.mem_map.mpr ⟨_, hm, rfl⟩)
        simp only [hno, hnot, Dict.store_self, List.mem_cons, Prod.mk.injEq, true_and, not_true_eq_false, false_and,
          or_false, false_or, not_false_eq_true, Option.some.injEq]
        exact eq_comm
      · simp only [Dict.store_of_ne hq, List.mem_cons, Prod.mk.injEq, hq, false_and, false_or]
    · exact ih n pending hnodup

variable (terms env s) in
theorem handleRequest_none {pids : Option (List (Pid × Sending TransId))} (h : asked cfg pids r = none) :
    handleRequest terms cfg env pids r s = requestFailed terms cfg env r s := by
  unfold asked at h
  unfold handleRequest
  split
  · rename_i hv
    rw [if_pos hv] at h
    cases pids with
    | none => rfl
    | some l =>
      cases hk : countRequired cfg.quorum l.length with
      | none => simp only [hk]
      | some k =>
        rw [Option.filter_some_pos (by rw [hk]; rfl)] at h
        cases h
  · rfl

variable {l : List (Pid × Sending TransId)}

variable (terms env s) in
theorem handleRequest_some {pids : Option (List (Pid × Sending TransId))}
    (h : asked cfg pids r = some l) : ∃ k, handleRequest terms cfg env pids r s = .ok (mcast terms l r k s) := by
  unfold asked at h
  unfold handleRequest
  split at h
  · rename_i hv
    rw [if_pos hv]
    obtain ⟨rfl, hk⟩ := Option.filter_eq_some_iff.mp h
    obtain ⟨k, hk⟩ := Option.isSome_iff_exists.mp hk
    exact ⟨k, by simp only [hk]⟩
  · cases h

variable (terms r s) in
/-- A request that is sent is stored with the number of its destinations. -/
theorem mcast_requests (l : List (Pid × Sending TransId)) (k : Nat) :
    (mcast terms l r k s).2.pending = (mcastSend r.transId l 0 s.pending).2 ∧
      ∃ request : Request T Pid Call, request.countResponses = 0 ∧
        request.countTotal = (stores r.transId l).length ∧
        (mcast terms l r k s).2.requests = Function.update s.requests r.transId (some request) := by
  have hcount := mcastSend_count r.transId l 0 s.pending
  rw [Nat.zero_add, ← length_stores r.transId] at hcount
  rw [mcast]
  dsimp only
  split
  · exact ⟨rfl, _, rfl, hcount, rfl⟩
  · exact ⟨rfl, _, rfl, hcount, rfl⟩

theorem Books.mcast (hb : Books out s) (k : Nat) (hnodup : ((sends r.transId l).map Prod.fst).Nodup)
    (hnew : ∀ q ∈ (sends r.transId l).map Prod.fst, q ∉ out.map Prod.fst) (hsent : sends r.transId l ≠ [])
    (hknown : ∀ d ∈ l, d.2.sent = d.2.known) (hr : s.requests r.transId = none) :
    Books (sends r.transId l ++ out) (mcast terms l r k s).2 := by
  obtain ⟨hpending, request, hresp, htotal, hreq⟩ := mcast_requests terms s r l k
  have hstores := stores_eq_sends r.transId hknown
  rw [hstores] at htotal
  have hwait (transId : TransId) : waiting (sends r.transId l ++ out) transId =
      (if transId = r.transId then (sends r.transId l).length else 0) + waiting out transId := by
    rw [waiting_append, waiting_sends]
  refine ⟨?_, fun q p => ?_, fun transId x hx => ?_, fun transId hx => ?_⟩
  · rw [List.map_append]
    exact hnodup.append hb.nodup fun q hq hq' => hnew q hq hq'
  · rw [hpending, mcastSend_pending _ _ _ _ (hstores ▸ hnodup), hstores, hb.pending, List.mem_append]
    refine or_congr_right ⟨fun h => h.2, fun ho => ⟨fun hq => ?_, ho⟩⟩
    exact hnew q hq (List.mem_map_of_mem ho)
  · rw [hwait]
    rw [hreq] at hx
    by_cases hid : transId = r.transId
    · subst hid
      rw [Function.update_self] at hx
      obtain rfl := Option.some.inj hx
      rw [if_pos rfl, hb.unstored _ hr]
      have := List.length_pos_iff.mpr hsent
      omega
    · rw [Function.update_of_ne hid] at hx
      rw [if_neg hid, Nat.zero_add]
      exact hb.stored transId x hx
  · rw [hwait]
    rw [hreq] at hx
    by_cases hid : transId = r.transId
    · subst hid
      rw [Function.update_self] at hx
      cases hx
    · rw [Function.update_of_ne hid] at hx
      rw [if_neg hid, hb.unstored _ hx]

/-- A request that is stored without a destination, or in place of another one, or whose destinations are not all known,
is not as the books say. -/
theorem Bookkeeping.mcast (hb : Books out s) {k : Nat} (hnodup : ((sends r.transId l).map Prod.fst).Nodup)
    (hnew : ∀ q ∈ (sends r.transId l).map Prod.fst, q ∉ out.map Prod.fst)
    (h : Bookkeeping (sends r.transId l ++ out) (mcast terms l r k s).2) :
    sends r.transId l ≠ [] ∧ (∀ d ∈ l, d.2.sent = d.2.known) ∧ s.requests r.transId = none := by
  obtain ⟨hpending, request, hresp, htotal, hreq⟩ := mcast_requests terms s r l k
  have hknown : ∀ d ∈ l, d.2.sent = d.2.known := by
    refine eq_known_of_stores hnodup fun q hq => ?_
    obtain ⟨⟨q, p⟩, ho, rfl⟩ := List.mem_map.mp hq
    have hp := (h.pending q p).mpr (List.mem_append_left _ ho)
    rw [hpending, mcastSend_pending _ _ _ _ (hnodup.sublist ((stores_subset _ _).map _)), hb.pending] at hp
    rcases hp with hp | ⟨-, hp⟩
    · exact List.mem_map_of_mem hp
    · exact absurd (List.mem_map_of_mem hp) (hnew q hq)
  rw [stores_eq_sends _ hknown] at htotal
  obtain ⟨hpos, hcount⟩ := h.stored r.transId request (by rw [hreq, Function.update_self])
  rw [waiting_append, waiting_sends, if_pos rfl] at hpos hcount
  refine ⟨fun hnil => ?_, hknown, ?_⟩
  · rw [hnil, List.length_nil] at hpos hcount htotal
    omega
  · cases hold : s.requests r.transId with
    | none => rfl
    | some old =>
      have := (hb.stored _ _ hold).1
      omega

theorem Books.congr (hb : Books out s) (hp : s'.pending = s.pending) (hr : s'.requests = s.requests) :
    Books out s' where
  nodup := hb.nodup
  pending := hp ▸ hb.pending
  stored := hr ▸ hb.stored
  unstored := hr ▸ hb.unstored

/-! ## Every run -/

variable (terms) in
/-- An event that can be received is handled and keeps the books if and only if it meets the condition. -/
theorem Books.apply (hb : Books out s) {e : Event T Pid TransId Call} (ha : e.Admissible cfg out) :
    (e.Meets cfg s → ∃ replies s', e.apply terms cfg s = .ok (replies, s') ∧ Books (e.outstanding cfg out) s') ∧
      ∀ replies s', e.apply terms cfg s = .ok (replies, s') → Bookkeeping (e.outstanding cfg out) s' →
        e.Meets cfg s := by
  cases e with
  | down pid => exact ⟨fun _ => ⟨_, _, rfl, hb.congr rfl rfl⟩, fun _ _ _ _ => trivial⟩
  | returnAsyncActive env q responseInfo response timeout =>
    obtain ⟨p, request, ho, hp, hr, hlt⟩ := hb.find ha
    refine ⟨fun hm => ?_, fun replies s' happly _ => Event.checks_of_ok happly⟩
    obtain ⟨replies, s', happly, hpending, hcounted⟩ :=
      returnAsyncActive_counted terms cfg env timeout responseInfo response hp hr hlt hm
    exact ⟨replies, s', happly, hb.counted ho hr hpending hcounted⟩
  | timeoutAsyncActive env q =>
    obtain ⟨p, request, ho, hp, hr, hlt⟩ := hb.find ha
    refine ⟨fun hm => ?_, fun replies s' happly _ => Event.checks_of_ok happly⟩
    obtain ⟨replies, s', happly, hpending, hcounted⟩ := timeoutAsyncActive_counted terms cfg env hp hr hlt hm
    exact ⟨replies, s', happly, hb.counted ho hr hpending hcounted⟩
  | request env pids r =>
    rw [Event.Meets]
    show (_ → ∃ replies s', handleRequest terms cfg env pids r s = .ok (replies, s') ∧ _) ∧
      ∀ replies s', handleRequest terms cfg env pids r s = .ok (replies, s') → _
    cases hl : asked cfg pids r with
    | none =>
      have hout : Event.outstanding cfg out (.request env pids r) = out := by
        show (asked cfg pids r).elim [] (sends r.transId) ++ out = out
        rw [hl]
        rfl
      rw [hout, handleRequest_none terms s env hl]
      refine ⟨fun hm => ?_, fun replies s' happly _ => ?_⟩
      · obtain ⟨⟨dead, failures⟩, hs⟩ := failure_ok_iff.mpr hm
        rw [requestFailed, sourceFailure, bind_ok hs]
        cases dead with
        | true => exact ⟨_, _, rfl, hb.congr rfl rfl⟩
        | false => exact ⟨_, _, rfl, hb.congr rfl rfl⟩
      · obtain ⟨dead, failures, hs, -⟩ := requestFailed_eq_ok happly
        exact failure_ok_iff.mp ⟨_, hs⟩
    | some l =>
      obtain ⟨k, hk⟩ := handleRequest_some terms s env hl
      have hsent : Event.sent cfg (.request env pids r) = sends r.transId l := by
        rw [Event.sent, hl]
        rfl
      have hout : Event.outstanding cfg out (.request env pids r) = sends r.transId l ++ out := by
        rw [← hsent]
        rfl
      obtain ⟨hnodup, hnew⟩ : ((sends r.transId l).map Prod.fst).Nodup ∧
          ∀ q ∈ (sends r.transId l).map Prod.fst, q ∉ out.map Prod.fst := hsent ▸ ha
      rw [hk, hout]
      refine ⟨fun hm => ?_, fun replies s' happly hbook => ?_⟩
      · obtain ⟨hne, hknown, hr⟩ := hm
        exact ⟨_, _, rfl, hb.mcast k hnodup hnew hne hknown hr⟩
      · obtain rfl : (CloudI.Quorum.mcast terms l r k s).2 = s' := congrArg Prod.snd (Except.ok.inj happly)
        exact hbook.mcast hb hnodup hnew

/-- The runs of the service in which every event meets the condition. -/
inductive Run (terms : Terms T O) (cfg : Config T) : Outstanding TransId Pid → State T Pid TransId Call → Prop where
  | start : Run terms cfg [] ⟨Dict.new, Dict.new, Dict.new, Dict.new⟩
  | step {out : Outstanding TransId Pid} {s s' : State T Pid TransId Call} {replies : List (Reply T Pid TransId Call)}
    (hrun : Run terms cfg out s) (e : Event T Pid TransId Call) (ha : e.Admissible cfg out) (hm : e.Meets cfg s)
    (h : e.apply terms cfg s = .ok (replies, s')) : Run terms cfg (e.outstanding cfg out) s'

theorem Run.books (hrun : Run terms cfg out s) : Books out s := by
  induction hrun with
  | start =>
    exact ⟨List.nodup_nil, fun q p => by simp [Dict.new], (fun _ _ h => nomatch h), fun _ _ => rfl⟩
  | step hrun e ha hm h ih =>
    obtain ⟨replies, s', happly, hbooks⟩ := (ih.apply terms ha).1 hm
    rw [h] at happly
    cases happly
    exact hbooks

/-- In every run whose events meet the condition the books are right, and an event more is handled and keeps them right
if and only if it meets the condition too. -/
theorem quorum_bookkeeping {T O Pid TransId Call : Type} [LinearOrder O] [DecidableEq Pid] [DecidableEq TransId]
    {terms : Terms T O} {cfg : Config T} {out : Outstanding TransId Pid} {s : State T Pid TransId Call}
    (hrun : Run terms cfg out s) :
    Bookkeeping out s ∧ ∀ e : Event T Pid TransId Call, e.Admissible cfg out →
      ((∃ replies s', e.apply terms cfg s = .ok (replies, s') ∧ Bookkeeping (e.outstanding cfg out) s') ↔
        e.Meets cfg s) := by
  refine ⟨hrun.books.bookkeeping, fun e ha => ?_⟩
  obtain ⟨hbooks, hmeets⟩ := hrun.books.apply terms ha
  refine ⟨fun h => ?_, fun hm => ?_⟩
  · obtain ⟨replies, s', happly, hbook⟩ := h
    exact hmeets replies s' happly hbook
  · obtain ⟨replies, s', happly, hbook⟩ := hbooks hm
    exact ⟨replies, s', happly, hbook.bookkeeping⟩

/-- A destination that did not answer in time. -/
def late (quorumTransId : Nat) : Event Value Nat Nat Unit :=
  .timeoutAsyncActive ⟨0, fun _ => true, fun _ => true⟩ quorumTransId

/-- The request `0` that was sent to two destinations, after the timeout of one of them. -/
theorem quorum_bookkeeping_sent : ∃ s : State Value Nat Nat Unit, s.requests 0 ≠ none ∧
    Bookkeeping [(2, ⟨0, 11⟩)] s := by
  have hrun : Run valueTerms pairConfig [(1, ⟨0, 10⟩), (2, ⟨0, 11⟩)] pairSent.2 := by
    refine .step .start (.request ⟨0, fun _ => true, fun _ => true⟩ (some [(10, .ok 1), (11, .ok 2)]) pairRequest)
      ?_ ?_ rfl
    · exact ⟨by decide, fun _ _ => List.not_mem_nil⟩
    · exact ⟨List.cons_ne_nil _ _, by decide, rfl⟩
  refine ⟨_, ?_, (quorum_bookkeeping (hrun.step (late 1) List.mem_cons_self
    (fun _ _ _ _ => ⟨fun _ => rfl, fun _ => rfl⟩) rfl)).1⟩
  exact Option.some_ne_none _

/-- A request whose sends all time out is stored, and no destination will answer. A destination that is sent a request
by a send that had timed out is not pending, and its answer raises. -/
theorem request_without_destination : (∃ (e : Event Value Nat Nat Unit) (replies : List (Reply Value Nat Nat Unit))
      (s : State Value Nat Nat Unit), e.Admissible pairConfig [] ∧
        e.apply valueTerms pairConfig ⟨Dict.new, Dict.new, Dict.new, Dict.new⟩ = .ok (replies, s) ∧
        ¬Bookkeeping (e.outstanding pairConfig []) s) ∧
    ∃ (e : Event Value Nat Nat Unit) (replies : List (Reply Value Nat Nat Unit)) (s : State Value Nat Nat Unit),
      e.Admissible pairConfig [] ∧
        e.apply valueTerms pairConfig ⟨Dict.new, Dict.new, Dict.new, Dict.new⟩ = .ok (replies, s) ∧
        (late 2).Admissible pairConfig (e.outstanding pairConfig []) ∧
        (late 2).apply valueTerms pairConfig s = .error .badarg := by
  constructor
  · refine ⟨.request ⟨0, fun _ => true, fun _ => true⟩ (some [(10, .timeout none), (11, .timeout none)]) pairRequest, _,
      _, ⟨List.nodup_nil, fun _ _ => List.not_mem_nil⟩, rfl, fun hb => ?_⟩
    have hempty := (hb.empty rfl).2
    exact absurd (congrFun hempty 0) (by simp [Dict.store, Dict.new, pairRequest])
  · exact ⟨.request ⟨0, fun _ => true, fun _ => true⟩ (some [(10, .ok 1), (11, .timeout (some 2))]) pairRequest, _, _,
      ⟨by decide, fun _ _ => List.not_mem_nil⟩, rfl, List.mem_cons_of_mem 1 List.mem_cons_self, rfl⟩

end CloudI.Quorum
