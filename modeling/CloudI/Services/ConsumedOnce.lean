import CloudI.Services.RecvAsync

/-!
# Asynchronous responses are consumed once

Each stored response is in one place: in the store, expired, held by the retry
of a call that consumes, or in the reply of one (`Conserved`). A call takes
the responses that its message holds from its retry to the next, or to its
reply (`Conserved.settles`), and drops none (`RetriedTo.entries`).
-/

namespace CloudI.Services.RecvAsync

variable {TransId : Type}

def Answer.consumed (a : Answer TransId) : Responses TransId := a.message.consumed a.reply

/-- The stored responses by where they are now. -/
def World.accounted (w : World TransId) : Responses TransId :=
  w.asyncResponses ++ w.expired ++ w.retries.flatMap (fun p => p.message.held) ++ w.answers.flatMap Answer.consumed

/-- Each stored response is in one place, or in `X`. -/
structure Conserved (X : Responses TransId) (w : World TransId) : Prop where
  perm : (w.accounted ++ X).Perm w.stored
  stored : Stored w.stored
  found_retries : ∀ p ∈ w.retries, ∀ x ∈ p.message.found, x ∈ w.stored
  found_answers : ∀ a ∈ w.answers, ∀ x ∈ a.reply.found, x ∈ w.stored

/-- A response in the store has its timeout to come, and an expired one had it. -/
structure Timed (w : World TransId) : Prop where
  pending : ∀ x ∈ w.asyncResponses, x.1 ∈ w.timeouts
  fired : ∀ x ∈ w.expired, x.1 ∉ w.timeouts
  nodup : w.timeouts.Nodup
  stored : ∀ T ∈ w.timeouts, T ∈ w.stored.map Prod.fst
  expired : ∀ x ∈ w.expired, x ∈ w.stored

theorem Conserved.mem {X : Responses TransId} {w : World TransId} (h : Conserved X w) {x : TransId × Response}
    (hx : x ∈ w.asyncResponses) : x ∈ w.stored := by
  refine h.perm.subset ?_
  simp only [World.accounted, List.mem_append]
  exact .inl (.inl (.inl (.inl hx)))

/-- The store of a world is a map without empty responses. -/
theorem Conserved.asyncResponses {X : Responses TransId} {w : World TransId} (h : Conserved X w) :
    Stored w.asyncResponses := by
  refine ⟨?_, fun x hx => h.stored.nonempty x (h.mem hx)⟩
  have hn := (h.perm.map Prod.fst).nodup_iff.mpr h.stored.nodup
  refine hn.sublist (List.Sublist.map _ ?_)
  simp only [World.accounted, List.append_assoc]
  exact List.sublist_append_left _ _

/-- The entries of a message. -/
def Message.entries : Message TransId → List (Entry TransId)
  | recvAsync _ _ _ => []
  | recvAsyncs _ Results _ => Results

/-- The entries of a reply. -/
def Reply.entries : Reply TransId → List (Entry TransId)
  | ok _ _ => []
  | results L => L
  | timeout => []

/-- A message and what it is after `n` retries. -/
inductive RetriedTo : Nat → Message TransId → Message TransId → Prop
  | refl (m : Message TransId) : RetriedTo 0 m m
  | step {n : Nat} {m m' m'' : Message TransId} : RetriedTo n m m' → Retries m' m'' → RetriedTo (n + 1) m m''

theorem RetriedTo.timeout {n : Nat} {m m' : Message TransId} (h : RetriedTo n m m') :
    m'.timeout + n * RECV_ASYNC_INTERVAL = m.timeout := by
  induction h with
  | refl => simp
  | step _ h ih =>
    rw [← ih, Nat.add_mul, Nat.one_mul]
    cases h with
    | recvAsync _ _ ht | recvAsyncs _ ht => simp only [Message.timeout]; omega

theorem forall₂_extends_refl (R : List (Entry TransId)) : List.Forall₂ Extends R R :=
  List.forall₂_same.mpr fun e _ => .refl e

theorem forall₂_extends_trans {R L L' : List (Entry TransId)} (h : List.Forall₂ Extends R L)
    (h' : List.Forall₂ Extends L L') : List.Forall₂ Extends R L' := by
  induction h generalizing L' with
  | nil => exact h'
  | cons he _ ih =>
    cases h' with
    | cons he' h' => exact .cons (he.trans he') (ih h')

theorem map_transId_of_extends {R L : List (Entry TransId)} (h : List.Forall₂ Extends R L) :
    L.map Entry.transId = R.map Entry.transId := by
  induction h with
  | nil => rfl
  | cons he _ ih => rw [List.map_cons, List.map_cons, he.1, ih]

/-- A retry drops no entry, and no response of an entry. -/
theorem RetriedTo.entries {n : Nat} {m m' : Message TransId} (h : RetriedTo n m m') :
    List.Forall₂ Extends m.entries m'.entries := by
  induction h with
  | refl m => exact forall₂_extends_refl m.entries
  | step _ h ih =>
    refine forall₂_extends_trans ih ?_
    cases h with
    | recvAsync => exact .nil
    | recvAsyncs _ _ he => exact he

variable {m : Message TransId}

/-- A message that a client sends has found nothing. -/
theorem Calls.found {timeoutSync : Nat} (h : Calls timeoutSync m) : m.found = [] := by
  cases h with
  | recvAsync => rfl
  | recvAsyncs _ L =>
    refine filledOf_eq_nil fun e he => ?_
    obtain ⟨T, -, rfl⟩ := List.mem_map.mp he
    exact fun h => h rfl

/-- A call of a client, after `n` retries. -/
structure Follows (c : Call TransId) (n : Nat) (m : Message TransId) (w : World TransId) : Prop where
  client : c.client < w.clients
  retried : RetriedTo n c.message m

/-- Each client has one call, which waits or is answered. -/
structure Followed (null : TransId) (w : World TransId) : Prop where
  waiting : ∀ p ∈ w.retries, Follows p.call p.retried p.message w
  answered : ∀ a ∈ w.answers, Follows a.call a.retried a.message w ∧ Replies null a.message a.reply
  once : (w.retries.map (fun p => p.call.client) ++ w.answers.map fun a => a.call.client).Nodup

variable {w w' : World TransId}

/-- What a settled call does to the world, but for its own retry or answer. -/
theorem Settles.shape {c : Call TransId} {n : Nat} {null : TransId}
    {o : Outcome TransId} (ho : Handled null m w.asyncResponses o) (hs : Settles c m n w o w') :
    (∃ r A', Replies null m r ∧ A'.Sublist w.asyncResponses ∧
      w' = { w with asyncResponses := A', answers := ⟨c, m, n, r⟩ :: w.answers }) ∨
    ∃ m' A', Retries m m' ∧ A'.Sublist w.asyncResponses ∧
      w' = { w with asyncResponses := A', retries := ⟨c, m', n + 1⟩ :: w.retries } := by
  cases ho with
  | @reply r A' hr hA' =>
    cases hs
    exact .inl ⟨r, A', hr, hA', rfl⟩
  | @retry m' A' hr hA' =>
    cases hs
    exact .inr ⟨m', A', hr, hA', rfl⟩

theorem Timed.settles {c : Call TransId} {n : Nat} {null : TransId}
    {o : Outcome TransId} (h : Timed w) (ho : Handled null m w.asyncResponses o) (hs : Settles c m n w o w') :
    Timed w' := by
  obtain ⟨_, _, -, hA', rfl⟩ | ⟨_, _, -, hA', rfl⟩ := Settles.shape ho hs
  all_goals exact ⟨fun x hx => h.pending x (hA'.subset hx), h.fired, h.nodup, h.stored, h.expired⟩

theorem Followed.mono {null : TransId} (h : Followed null w)
    (hr : w'.retries.Sublist w.retries) (ha : w'.answers = w.answers) (hc : w.clients ≤ w'.clients) :
    Followed null w' := by
  refine ⟨fun p hp => ?_, fun a hm => ?_, ?_⟩
  · have hf := h.waiting p (hr.subset hp)
    exact ⟨Nat.lt_of_lt_of_le hf.client hc, hf.retried⟩
  · obtain ⟨hf, hR⟩ := h.answered a (ha ▸ hm)
    exact ⟨⟨Nat.lt_of_lt_of_le hf.client hc, hf.retried⟩, hR⟩
  · rw [ha]
    exact h.once.sublist ((hr.map _).append_right _)

/-- The call that is settled is the call of no other client. -/
theorem Followed.settles {c : Call TransId} {n : Nat} {null : TransId}
    {o : Outcome TransId} (h : Followed null w) (hc : Follows c n m w)
    (hn : c.client ∉ w.retries.map (fun p => p.call.client) ++ w.answers.map fun a => a.call.client)
    (ho : Handled null m w.asyncResponses o) (hs : Settles c m n w o w') : Followed null w' := by
  have keep : ∀ {c n m} {w' : World TransId}, w'.clients = w.clients → Follows c n m w → Follows c n m w' :=
    fun he hf => ⟨he ▸ hf.client, hf.retried⟩
  obtain ⟨r, A', hr, hA', rfl⟩ | ⟨m', A', hr, hA', rfl⟩ := Settles.shape ho hs
  · refine ⟨fun p hp => keep rfl (h.waiting p hp), ?_, ?_⟩
    · refine List.forall_mem_cons.mpr ⟨⟨keep rfl hc, hr⟩, fun a ha => ?_⟩
      exact ⟨keep rfl (h.answered a ha).1, (h.answered a ha).2⟩
    · exact List.nodup_middle.mpr (List.nodup_cons.mpr ⟨hn, h.once⟩)
  · refine ⟨?_, fun a ha => ⟨keep rfl (h.answered a ha).1, (h.answered a ha).2⟩, List.nodup_cons.mpr ⟨hn, h.once⟩⟩
    exact List.forall_mem_cons.mpr ⟨⟨hc.client, .step hc.retried hr⟩, fun p hp => keep rfl (h.waiting p hp)⟩

/-- What holds in every world that is reached. -/
structure World.Ok (null : TransId) (w : World TransId) : Prop where
  conserved : Conserved [] w
  timed : Timed w
  followed : Followed null w
  calls : (∀ p ∈ w.retries, ∃ t, Calls t p.call.message) ∧ ∀ a ∈ w.answers, ∃ t, Calls t a.call.message

/-- The call `c`, which had the message `m`, waits or is answered. -/
def Leads (c : Call TransId) (m : Message TransId) (w : World TransId) : Prop :=
  (∃ q ∈ w.retries, q.call = c ∧ ∃ n, RetriedTo n m q.message) ∨
    ∃ a ∈ w.answers, a.call = c ∧ ∃ n, RetriedTo n m a.message

theorem Leads.mono {c : Call TransId} (h : Leads c m w)
    (hr : ∀ q ∈ w.retries, q ∈ w'.retries) (ha : ∀ a ∈ w.answers, a ∈ w'.answers) : Leads c m w' := by
  rcases h with ⟨q, hq, h⟩ | ⟨a, hm, h⟩
  · exact .inl ⟨q, hr q hq, h⟩
  · exact .inr ⟨a, ha a hm, h⟩

/-- Settling a call keeps the others. -/
theorem Leads.settles {c c' : Call TransId} {m m' : Message TransId} {n : Nat}
    {o : Outcome TransId} (h : Leads c m w) (hs : Settles c' m' n w o w') : Leads c m w' := by
  cases hs with
  | reply => exact h.mono (fun _ hq => hq) fun _ ha => List.mem_cons_of_mem _ ha
  | retry => exact h.mono (fun _ hq => List.mem_cons_of_mem _ hq) fun _ ha => ha

/-- What the responses, the calls and the replies have come to. -/
structure ConsumedOnce (w : World TransId) : Prop where
  /-- no response is delivered twice by calls that consume -/
  once : ((w.answers.flatMap Answer.consumed).map Prod.fst).Nodup
  /-- each stored response is in one place -/
  perm : w.accounted.Perm w.stored
  nodup : (w.stored.map Prod.fst).Nodup
  /-- a response that is not in the store had its timeout or was consumed -/
  gone : ∀ x ∈ w.stored, x ∉ w.asyncResponses → x ∈ w.expired ∧ x.1 ∉ w.timeouts ∨
    (∃ p ∈ w.retries, p.message.consume = true ∧ x ∈ p.message.found) ∨
    ∃ a ∈ w.answers, a.message.consume = true ∧ x ∈ a.reply.found
  pending : ∀ x ∈ w.asyncResponses, x.1 ∈ w.timeouts
  found : ∀ a ∈ w.answers, ∀ x ∈ a.reply.found, x ∈ w.stored
  /-- the results are those of the ids of the call, all of them or some at the end -/
  results : ∀ a ∈ w.answers, ∀ L, a.reply = .results L →
    L.map Entry.transId = a.call.message.entries.map Entry.transId ∧
      ((∀ e ∈ L, e.Filled) ∨ a.message.timeout < RECV_ASYNC_INTERVAL ∧ ∃ e ∈ L, e.Filled)
  /-- a call that timed out found nothing and took nothing -/
  timeout : ∀ a ∈ w.answers, a.reply = .timeout →
    a.message.timeout < RECV_ASYNC_INTERVAL ∧ (∀ e ∈ a.message.entries, ¬e.Filled) ∧ a.message.held = []
  retried_waiting : ∀ p ∈ w.retries, p.retried ≤ p.call.message.timeout / RECV_ASYNC_INTERVAL ∧
    p.message.timeout = p.call.message.timeout - p.retried * RECV_ASYNC_INTERVAL
  retried_answered : ∀ a ∈ w.answers, a.retried ≤ a.call.message.timeout / RECV_ASYNC_INTERVAL ∧
    a.message.timeout = a.call.message.timeout - a.retried * RECV_ASYNC_INTERVAL
  /-- each call waits or is answered, once -/
  clients : (w.retries.map (fun p => p.call.client) ++ w.answers.map fun a => a.call.client).Nodup

theorem RetriedTo.le {n : Nat} {m m' : Message TransId} (h : RetriedTo n m m') :
    n ≤ m.timeout / RECV_ASYNC_INTERVAL ∧ m'.timeout = m.timeout - n * RECV_ASYNC_INTERVAL := by
  have ht := h.timeout
  refine ⟨(Nat.le_div_iff_mul_le (by decide)).mpr ?_, ?_⟩
  all_goals omega

theorem mem_held {x : TransId × Response} (h : x ∈ m.held) : m.consume = true ∧ x ∈ m.found := by
  rw [Message.held] at h
  split at h
  case isTrue hc => exact ⟨hc, h⟩
  case isFalse => exact absurd h List.not_mem_nil

theorem Answer.mem_consumed {a : Answer TransId} {x : TransId × Response} (h : x ∈ a.consumed) :
    a.message.consume = true ∧ x ∈ a.reply.found := by
  rw [Answer.consumed, Message.consumed] at h
  split at h
  case isTrue hc => exact ⟨hc, h⟩
  case isFalse => exact absurd h List.not_mem_nil

theorem Conserved.gone {w : World TransId} (h : Conserved [] w) (ht : Timed w) {x : TransId × Response}
    (hx : x ∈ w.stored) (hn : x ∉ w.asyncResponses) : x ∈ w.expired ∧ x.1 ∉ w.timeouts ∨
      (∃ p ∈ w.retries, p.message.consume = true ∧ x ∈ p.message.found) ∨
      ∃ a ∈ w.answers, a.message.consume = true ∧ x ∈ a.reply.found := by
  have hm := h.perm.symm.subset hx
  simp only [World.accounted, List.append_nil, List.mem_append, List.mem_flatMap] at hm
  rcases hm with ((hm | hm) | ⟨p, hp, hm⟩) | ⟨a, ha, hm⟩
  · exact absurd hm hn
  · exact .inl ⟨hm, ht.fired x hm⟩
  · exact .inr (.inl ⟨p, hp, mem_held hm⟩)
  · exact .inr (.inr ⟨a, ha, a.mem_consumed hm⟩)

theorem World.Ok.consumedOnce {null : TransId} {w : World TransId} (h : w.Ok null) : ConsumedOnce w where
  once := by
    have hn := (h.conserved.perm.map Prod.fst).nodup_iff.mpr h.conserved.stored.nodup
    refine hn.sublist (List.Sublist.map _ ?_)
    rw [World.accounted, List.append_nil]
    exact List.sublist_append_right _ _
  perm := by simpa using h.conserved.perm
  nodup := h.conserved.stored.nodup
  gone := fun x hx hn => h.conserved.gone h.timed hx hn
  pending := h.timed.pending
  found := h.conserved.found_answers
  results := by
    intro a ha L hL
    obtain ⟨hf, hr⟩ := h.followed.answered a ha
    rw [hL] at hr
    have hids := map_transId_of_extends hf.retried.entries
    generalize a.message = m at hr hids
    cases hr with
    | results Consume he hL' => exact ⟨(map_transId_of_extends he).trans hids, hL'⟩
  timeout := by
    intro a ha hT
    obtain ⟨hf, hr⟩ := h.followed.answered a ha
    rw [hT] at hr
    generalize a.message = m at hr
    cases hr with
    | timeout T Consume ht => exact ⟨ht, fun e he => absurd he List.not_mem_nil, by simp [Message.held, Message.found]⟩
    | timeouts Consume ht hn => exact ⟨ht, hn, by simp [Message.held, Message.found, filledOf_eq_nil hn]⟩
  retried_waiting := fun p hp => (h.followed.waiting p hp).retried.le
  retried_answered := fun a ha => (h.followed.answered a ha).1.retried.le
  clients := h.followed.once

/-- The results of a call have the responses that its message had, unless it
had none and timed out. -/
theorem Leads.entries {null : TransId} {c : Call TransId} {w : World TransId} (hw : Followed null w)
    (h : Leads c m w) :
    (∃ q ∈ w.retries, q.call = c ∧ List.Forall₂ Extends m.entries q.message.entries) ∨
      ∃ a ∈ w.answers, a.call = c ∧ (List.Forall₂ Extends m.entries a.reply.entries ∨
        a.reply = .timeout ∧ ∀ e ∈ m.entries, ¬e.Filled) := by
  rcases h with ⟨q, hq, hc, n, hn⟩ | ⟨a, ha, hc, n, hn⟩
  · exact .inl ⟨q, hq, hc, hn.entries⟩
  · refine .inr ⟨a, ha, hc, ?_⟩
    have hr := (hw.answered a ha).2
    have he := hn.entries
    generalize a.message = m' at hr he
    generalize a.reply = r at hr
    cases hr with
    | ok => exact .inl he
    | timeout T Consume ht => exact .inr ⟨rfl, not_filled_of_extends he fun e hm => absurd hm List.not_mem_nil⟩
    | results Consume hL => exact .inl (forall₂_extends_trans he hL)
    | timeouts Consume ht hn => exact .inr ⟨rfl, not_filled_of_extends he hn⟩

/-! ## Runs -/

variable [DecidableEq TransId]

theorem Conserved.store {w : World TransId} (h : Conserved [] w) {r : Response} (Timeout : Nat) {T : TransId}
    (hr : r ≠ ([], [])) (hT : T ∉ w.stored.map Prod.fst) : Conserved [] (asyncResponseTimeoutStart r Timeout T w) := by
  rw [asyncResponseTimeoutStart]
  split
  case isTrue => exact h
  case isFalse =>
    have he : erase T w.asyncResponses = w.asyncResponses := erase_eq_self fun hm => by
      obtain ⟨x, hx, rfl⟩ := List.mem_map.mp hm
      exact hT (List.mem_map_of_mem (h.mem hx))
    refine ⟨?_, ⟨List.nodup_cons.mpr ⟨hT, h.stored.nodup⟩, ?_⟩, fun p hp x hx => ?_, fun a ha x hx => ?_⟩
    · simp only [World.accounted, he, List.cons_append]
      exact h.perm.cons _
    · exact List.forall_mem_cons.mpr ⟨hr, h.stored.nonempty⟩
    · exact List.mem_cons_of_mem _ (h.found_retries p hp x hx)
    · exact List.mem_cons_of_mem _ (h.found_answers a ha x hx)

theorem Conserved.timeout {w : World TransId} (h : Conserved [] w) (T : TransId) (l : List TransId) :
    Conserved [] (recvAsyncTimeout T { w with timeouts := l }) := by
  refine ⟨?_, h.stored, h.found_retries, h.found_answers⟩
  refine List.Perm.trans ?_ h.perm
  simp only [recvAsyncTimeout, World.accounted, List.append_nil]
  refine List.Perm.append_right _ (List.Perm.append_right _ ?_)
  rw [← List.append_assoc]
  refine List.Perm.append_right _ ?_
  have hp := List.filter_append_perm (fun x : TransId × Response => decide (x.1 ≠ T)) w.asyncResponses
  simpa [erase] using hp

/-- The call that is settled takes its responses from `X`. -/
theorem Conserved.settles {c : Call TransId} {n : Nat}
    (h : Conserved m.held w) (hm : ∀ x ∈ m.found, x ∈ w.stored) {null : TransId} {o : Outcome TransId}
    (ho : Handled null m w.asyncResponses o) (hs : Settles c m n w o w') : Conserved [] w' := by
  have hp : ∀ {A' Y : Responses TransId}, (w.asyncResponses ++ m.held).Perm (A' ++ Y) →
      (A' ++ w.expired ++ w.retries.flatMap (fun p => p.message.held) ++ w.answers.flatMap Answer.consumed ++ Y).Perm
        w.stored := by
    intro A' Y hY
    refine List.Perm.trans ?_ h.perm
    rw [List.perm_iff_count] at hY ⊢
    intro x
    have hx := hY x
    simp only [World.accounted, List.count_append] at hx ⊢
    omega
  have hf : ∀ x, x ∈ m.found ∨ x ∈ w.asyncResponses → x ∈ w.stored := fun x hx => hx.elim (hm x) h.mem
  cases ho with
  | @reply r A' _ _ hfound hperm =>
    cases hs
    refine ⟨?_, h.stored, h.found_retries, ?_⟩
    · refine List.Perm.trans ?_ (hp hperm)
      rw [List.perm_iff_count]
      intro x
      simp only [World.accounted, List.flatMap_cons, Answer.consumed, List.count_append, List.count_nil]
      omega
    · exact List.forall_mem_cons.mpr ⟨fun x hx => hf x (hfound x hx), h.found_answers⟩
  | @retry m' A' _ _ hfound hperm =>
    cases hs
    refine ⟨?_, h.stored, ?_, h.found_answers⟩
    · refine List.Perm.trans ?_ (hp hperm)
      rw [List.perm_iff_count]
      intro x
      simp only [World.accounted, List.flatMap_cons, List.count_append, List.count_nil]
      omega
    · exact List.forall_mem_cons.mpr ⟨fun x hx => hf x (hfound x hx), h.found_retries⟩

theorem Timed.store {w : World TransId} (h : Timed w) (r : Response) (Timeout : Nat) {T : TransId}
    (hT : T ∉ w.stored.map Prod.fst) : Timed (asyncResponseTimeoutStart r Timeout T w) := by
  rw [asyncResponseTimeoutStart]
  split
  case isTrue => exact h
  case isFalse =>
    refine ⟨fun x hx => ?_, fun x hx hm => ?_, List.nodup_cons.mpr ⟨fun hm => hT (h.stored T hm), h.nodup⟩, ?_, ?_⟩
    · rcases List.mem_cons.mp hx with rfl | hx
      · exact List.mem_cons_self
      · exact List.mem_cons_of_mem _ (h.pending x (List.mem_filter.mp hx).1)
    · rcases List.mem_cons.mp hm with he | hm
      · exact hT (he ▸ List.mem_map_of_mem (h.expired x hx))
      · exact h.fired x hx hm
    · exact List.forall_mem_cons.mpr ⟨List.mem_cons_self, fun T' hT' => List.mem_cons_of_mem _ (h.stored T' hT')⟩
    · exact fun x hx => List.mem_cons_of_mem _ (h.expired x hx)

theorem Timed.timeout {w : World TransId} (h : Timed w) (hm : ∀ x ∈ w.asyncResponses, x ∈ w.stored) {T : TransId}
    {l₁ l₂ : List TransId} (hl : w.timeouts = l₁ ++ T :: l₂) :
    Timed (recvAsyncTimeout T { w with timeouts := l₁ ++ l₂ }) := by
  have hn := List.nodup_middle.mp (hl ▸ h.nodup)
  have hs : ∀ T' ∈ l₁ ++ l₂, T' ∈ w.timeouts := fun T' hT' => by
    rw [hl]
    exact List.perm_middle.symm.subset (List.mem_cons_of_mem T hT')
  refine ⟨fun x hx => ?_, fun x hx hm' => ?_, (List.nodup_cons.mp hn).2, fun T' hT' => h.stored T' (hs T' hT'), ?_⟩
  · obtain ⟨hx, hT⟩ := List.mem_filter.mp hx
    have hp := h.pending x hx
    rw [hl] at hp
    rcases List.mem_cons.mp (List.perm_middle.subset hp) with he | hp
    · exact absurd he (by simpa using hT)
    · exact hp
  · rcases List.mem_append.mp hx with hx | hx
    · obtain ⟨-, he⟩ := List.mem_filter.mp hx
      exact (List.nodup_cons.mp hn).1 ((of_decide_eq_true he) ▸ hm')
    · exact h.fired x hx (hs _ hm')
  · intro x hx
    rcases List.mem_append.mp hx with hx | hx
    · exact hm x (List.mem_filter.mp hx).1
    · exact h.expired x hx

variable (time : TransId → Nat) (null : TransId)

theorem World.Ok.store {w : World TransId} (h : w.Ok null) {r : Response} (Timeout : Nat) {T : TransId}
    (hr : r ≠ ([], [])) (hT : T ∉ w.stored.map Prod.fst) : (asyncResponseTimeoutStart r Timeout T w).Ok null := by
  refine ⟨h.conserved.store Timeout hr hT, h.timed.store r Timeout hT, ?_, ?_⟩
  all_goals
    rw [asyncResponseTimeoutStart]
    split
  · exact h.followed
  · exact h.followed.mono (.refl _) rfl (Nat.le_refl _)
  · exact h.calls
  · exact h.calls

/-- A call that is made or retried, its message in flight. -/
theorem World.Ok.settles {c : Call TransId} {n : Nat}
    (hC : Conserved m.held w) (hm : ∀ x ∈ m.found, x ∈ w.stored) (hT : Timed w) (hF : Followed null w)
    (hc : Follows c n m w)
    (hn : c.client ∉ w.retries.map (fun p => p.call.client) ++ w.answers.map fun a => a.call.client)
    (hca : (∀ p ∈ w.retries, ∃ t, Calls t p.call.message) ∧ ∀ a ∈ w.answers, ∃ t, Calls t a.call.message)
    (hcm : ∃ t, Calls t c.message) (hs : Settles c m n w (handle time null m w.asyncResponses) w') : w'.Ok null := by
  have ho := handle_handled time null m hC.asyncResponses
  refine ⟨hC.settles hm ho hs, hT.settles ho hs, hF.settles hc hn ho hs, ?_⟩
  obtain ⟨_, _, -, -, rfl⟩ | ⟨_, _, -, -, rfl⟩ := Settles.shape ho hs
  · exact ⟨hca.1, List.forall_mem_cons.mpr ⟨hcm, hca.2⟩⟩
  · exact ⟨List.forall_mem_cons.mpr ⟨hcm, hca.1⟩, hca.2⟩

theorem World.Ok.call (h : w.Ok null) (hm : Calls w.timeoutSync m)
    (hs : Settles ⟨w.clients, m⟩ m 0 { w with clients := w.clients + 1 } (handle time null m w.asyncResponses) w') :
    w'.Ok null := by
  have hheld : m.held = [] := by simp [Message.held, hm.found]
  refine World.Ok.settles time null (w := { w with clients := w.clients + 1 }) ?_ (by simp [hm.found])
    ⟨h.timed.pending, h.timed.fired, h.timed.nodup, h.timed.stored, h.timed.expired⟩
    (h.followed.mono (.refl _) rfl (Nat.le_succ _)) ⟨Nat.lt_succ_self _, .refl m⟩ ?_ h.calls ⟨_, hm⟩ hs
  · rw [hheld]
    exact ⟨h.conserved.perm, h.conserved.stored, h.conserved.found_retries, h.conserved.found_answers⟩
  · intro hc
    rcases List.mem_append.mp hc with hc | hc
    · obtain ⟨p, hp, he⟩ := List.mem_map.mp hc
      exact Nat.lt_irrefl _ (he ▸ (h.followed.waiting p hp).client)
    · obtain ⟨a, ha, he⟩ := List.mem_map.mp hc
      exact Nat.lt_irrefl _ (he ▸ (h.followed.answered a ha).1.client)

theorem World.Ok.retry (h : w.Ok null) {p : Waiting TransId} {l₁ l₂ : List (Waiting TransId)}
    (hl : w.retries = l₁ ++ p :: l₂) (hs : Settles p.call p.message p.retried { w with retries := l₁ ++ l₂ }
      (handle time null p.message w.asyncResponses) w') : w'.Ok null := by
  have hp : p ∈ w.retries := by simp [hl]
  have hsub : (l₁ ++ l₂).Sublist w.retries := by
    rw [hl]
    exact (List.sublist_cons_self p l₂).append_left l₁
  have hn : (p.call.client ::
      ((l₁ ++ l₂).map (fun p => p.call.client) ++ w.answers.map fun a => a.call.client)).Nodup := by
    have ho := h.followed.once
    rw [hl, List.map_append, List.map_cons, List.append_assoc, List.cons_append, List.nodup_middle] at ho
    rwa [List.map_append, List.append_assoc]
  have hf := h.followed.waiting p hp
  refine World.Ok.settles time null (w := { w with retries := l₁ ++ l₂ }) ?_ (h.conserved.found_retries p hp)
    ⟨h.timed.pending, h.timed.fired, h.timed.nodup, h.timed.stored, h.timed.expired⟩
    (h.followed.mono hsub rfl (Nat.le_refl _)) ⟨hf.client, hf.retried⟩ (List.nodup_cons.mp hn).1
    ⟨fun q hq => h.calls.1 q (hsub.subset hq), h.calls.2⟩
    (h.calls.1 p hp) hs
  refine ⟨List.Perm.trans ?_ h.conserved.perm, h.conserved.stored, fun q hq =>
    h.conserved.found_retries q (hsub.subset hq), h.conserved.found_answers⟩
  rw [List.perm_iff_count]
  intro x
  simp only [World.accounted, hl, List.flatMap_append, List.flatMap_cons, List.count_append, List.count_nil]
  omega

theorem World.Ok.step (h : w.Ok null) (hs : Step time null w w') : w'.Ok null := by
  cases hs with
  | store r Timeout T hr hT => exact h.store null Timeout hr hT
  | @timeout T l₁ l₂ hl =>
    exact ⟨h.conserved.timeout T (l₁ ++ l₂), h.timed.timeout (fun x hx => h.conserved.mem hx) hl,
      h.followed.mono (.refl _) rfl (Nat.le_refl _), h.calls⟩
  | update timeoutSync =>
    exact ⟨⟨h.conserved.perm, h.conserved.stored, h.conserved.found_retries, h.conserved.found_answers⟩,
      ⟨h.timed.pending, h.timed.fired, h.timed.nodup, h.timed.stored, h.timed.expired⟩,
      h.followed.mono (.refl _) rfl (Nat.le_refl _), h.calls⟩
  | call hm hs => exact h.call time null hm hs
  | retry hl hs => exact h.retry time null hl hs

theorem Reachable.ok {w : World TransId} (h : Reachable time null w) : w.Ok null := by
  induction h with
  | init timeoutSync =>
    exact ⟨⟨.refl _, ⟨List.nodup_nil, by simp⟩, by simp, by simp⟩, ⟨by simp, by simp, List.nodup_nil, by simp, by simp⟩,
      ⟨by simp, by simp, List.nodup_nil⟩, by simp, by simp⟩
  | step _ hs ih => exact ih.step time null hs

theorem Leads.step {c : Call TransId} (hw : w.Ok null) (h : Leads c m w)
    (hs : Step time null w w') : Leads c m w' := by
  cases hs with
  | store r Timeout T hr hT =>
    rw [asyncResponseTimeoutStart]
    split
    · exact h
    · exact h.mono (fun _ hq => hq) fun _ ha => ha
  | timeout | update => exact h.mono (fun _ hq => hq) fun _ ha => ha
  | call hm hs =>
    exact Leads.settles (w := { w with clients := w.clients + 1 }) (h.mono (fun _ hq => hq) fun _ ha => ha) hs
  | @retry _ p l₁ l₂ hl hs =>
    rcases h with ⟨q, hq, hc, k, hk⟩ | ha
    · rw [hl] at hq
      rcases List.mem_cons.mp (List.perm_middle.subset hq) with rfl | hq
      · -- the call itself is retried
        have ho := handle_handled time null q.message hw.conserved.asyncResponses
        obtain ⟨r, _, -, -, rfl⟩ | ⟨m', _, hm', -, rfl⟩ := Settles.shape (w := { w with retries := l₁ ++ l₂ }) ho hs
        · exact .inr ⟨_, List.mem_cons_self, hc, k, hk⟩
        · exact .inl ⟨_, List.mem_cons_self, hc, k + 1, .step hk hm'⟩
      · exact Leads.settles (w := { w with retries := l₁ ++ l₂ }) (.inl ⟨q, hq, hc, k, hk⟩) hs
    · exact Leads.settles (w := { w with retries := l₁ ++ l₂ }) (.inr ha) hs

theorem Leads.run {c : Call TransId} (hw : w.Ok null) (h : Leads c m w)
    (hr : Relation.ReflTransGen (Step time null) w w') : w'.Ok null ∧ Leads c m w' := by
  induction hr with
  | refl => exact ⟨hw, h⟩
  | tail _ hs ih => exact ⟨ih.1.step time null hs, ih.2.step time null ih.1 hs⟩

/-- In every run the responses are consumed once; no entry of a call loses its
response, whatever happens later, and no call fails. -/
theorem recv_async_consumed_once (h : Reachable time null w) (hr : Relation.ReflTransGen (Step time null) w w') :
    ConsumedOnce w ∧ (∀ m, handle time null m w.asyncResponses ≠ .badkey) ∧
    ∀ p ∈ w.retries,
      (∃ q ∈ w'.retries, q.call = p.call ∧ List.Forall₂ Extends p.message.entries q.message.entries) ∨
      ∃ a ∈ w'.answers, a.call = p.call ∧ (List.Forall₂ Extends p.message.entries a.reply.entries ∨
        a.reply = .timeout ∧ ∀ e ∈ p.message.entries, ¬e.Filled) := by
  have hw := h.ok time null
  refine ⟨hw.consumedOnce, fun m hm => ?_, fun p hp => ?_⟩
  · have ho := handle_handled time null m hw.conserved.asyncResponses
    rw [hm] at ho
    cases ho
  · obtain ⟨hw', hl⟩ := Leads.run time null hw (.inl ⟨p, hp, rfl, 0, .refl _⟩) hr
    exact hl.entries hw'.followed

/-- A call that waits holds the first of its two responses. -/
theorem recv_async_consumed_once_two :
    let p : Waiting Nat := ⟨⟨0, recvAsyncsCall 0 (some 1000) [1, 2] true⟩,
      .recvAsyncs 0 [⟨([], [7]), 1⟩, ⟨([], []), 2⟩] true, 2⟩
    let w : World Nat := ⟨0, [], [1], [p], 1, [(1, ([], [7]))], [], []⟩
    ConsumedOnce w := by
  intro p w
  refine (recv_async_consumed_once id 0 (w := w) ?_ .refl).1
  let c : Call Nat := ⟨0, recvAsyncsCall 0 (some 1000) [1, 2] true⟩
  let r (L : List (Entry Nat)) (Timeout retried : Nat) : Waiting Nat := ⟨c, .recvAsyncs Timeout L true, retried⟩
  let L : List (Entry Nat) := [⟨([], []), 1⟩, ⟨([], []), 2⟩]
  have h₀ : Reachable id 0 (⟨0, [], [], [], 0, [], [], []⟩ : World Nat) := .init 0
  have h₁ : Reachable id 0 ⟨0, [], [], [r L 500 1], 1, [], [], []⟩ :=
    h₀.step (.call (.recvAsyncs (some 1000) [1, 2] true) (.retry _ _))
  have h₂ : Reachable id 0 ⟨0, [(1, ([], [7]))], [1], [r L 500 1], 1, [(1, ([], [7]))], [], []⟩ :=
    h₁.step (.store ([], [7]) 50 1 (by decide) (by decide))
  exact h₂.step (.retry (show [r L 500 1] = [] ++ r L 500 1 :: [] from rfl) (.retry _ _))

end CloudI.Services.RecvAsync
