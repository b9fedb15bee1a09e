import CloudI.Queue.Service

/-!
# Each request is resolved once

In a run of the queue service the ids that a message comes for are the ids of the log, and each request that was
accepted is stored under one of them until it is resolved (`Delivery`). The three ways in which the requests of the
log change keep that: a request is stored (`Delivery.store`), resolved (`Delivery.resolve`), or sent again under
another id (`Delivery.resend`). A response that is stored in `both` mode is not among them: the log keeps the id of
the request then, and the request has two (`Known.not_durable`).
-/

set_option linter.unusedSectionVars false

namespace CloudI.Queue

variable {Id Pid Call Content : Type} [DecidableEq Id]

/-- How often the request was resolved. -/
def resolutions (transId : Id) (effects : List (Effect Id)) : Nat :=
  effects.count (.respond transId) + effects.count (.expire transId)

/-- How often the request was sent. -/
def sends (transId : Id) (effects : List (Effect Id)) : Nat := effects.count (.send transId)

/-- The stored requests, the messages that come, the requests that were accepted, the ids so far and the effects. -/
structure Delivery (cfg : ServiceConfig) (m : Stored Id (ServiceRequest Id Pid Call Content))
    (outstanding : Dict Id Outstanding) (accepted used : List Id) (effects : List (Effect Id)) : Prop where
  outstanding_iff : ∀ i, outstanding i = none ↔ m i = none
  accepts : ∀ {i r n}, m i = some (r, n) → r.Accepts cfg.mode
  unique : ∀ {i i' r r' n n'}, m i = some (r, n) → m i' = some (r', n') → r.transId = r'.transId → i = i'
  used_id : ∀ {i r n}, m i = some (r, n) → i ∈ used
  accepted_used : ∀ {t}, t ∈ accepted → t ∈ used
  owner : ∀ {i r n}, m i = some (r, n) → r.transId ∈ accepted ∧ (i ∈ accepted → i = r.transId)
  unresolved : ∀ {i r n}, m i = some (r, n) → resolutions r.transId effects = 0
  resolved : ∀ {t}, t ∈ accepted → (∃ i r n, m i = some (r, n) ∧ r.transId = t) ∨ resolutions t effects = 1
  other : ∀ {t}, t ∉ accepted → resolutions t effects = 0 ∧ sends t effects = 0
  sends_retries : ∀ {i r n}, m i = some (r, n) → sends r.transId effects ≤ n + 1
  sends_le : ∀ t, sends t effects ≤ cfg.retry + 1
  next : ∀ {i r n t}, m i = some (r, n) → r.next = some t → t ∈ used ∧ t ≠ i ∧ t ≠ r.transId

variable {cfg : ServiceConfig} {m : Stored Id (ServiceRequest Id Pid Call Content)} {outstanding : Dict Id Outstanding}
  {accepted used ids : List Id} {effects effects' : List (Effect Id)} {r : ServiceRequest Id Pid Call Content}
  {i q : Id} {n : Nat} {out : Outstanding}

theorem resolutions_append (t : Id) (effects effects' : List (Effect Id)) :
    resolutions t (effects ++ effects') = resolutions t effects + resolutions t effects' := by
  simp only [resolutions, List.count_append]
  omega

theorem sends_append (t : Id) (effects effects' : List (Effect Id)) :
    sends t (effects ++ effects') = sends t effects + sends t effects' := List.count_append

theorem resolutions_send (t t' : Id) : resolutions t [.send t'] = 0 := by simp [resolutions]

theorem sends_send (t t' : Id) : sends t [.send t'] = if t' = t then 1 else 0 := by
  rw [sends, List.count_singleton]
  simp only [beq_iff_eq, Effect.send.injEq]

theorem Delivery.empty :
    Delivery cfg (Dict.new : Stored Id (ServiceRequest Id Pid Call Content)) Dict.new [] [] [] where
  outstanding_iff _ := ⟨fun _ => rfl, fun _ => rfl⟩
  accepts h := by cases h
  unique h := by cases h
  used_id h := by cases h
  accepted_used h := h
  owner h := by cases h
  unresolved h := by cases h
  resolved h := by cases h
  other _ := ⟨rfl, rfl⟩
  sends_retries h := by cases h
  sends_le _ := Nat.zero_le _
  next h := by cases h

/-- A request that was accepted is stored under a new id. -/
theorem Delivery.store (h : Delivery cfg m outstanding accepted used effects) (hr : r.Accepts cfg.mode)
    (ht : r.transId ∉ used) (hq : q ∉ used) (hne : q ≠ r.transId) (hti : r.transId ∈ ids) (hqi : q ∈ ids)
    (hnext : ∀ t, r.next = some t → t ∈ ids ∧ t ≠ q ∧ t ≠ r.transId) :
    Delivery cfg (m.store q (r, 0)) (outstanding.store q out) (accepted ++ [r.transId]) (used ++ ids)
      (effects ++ [.send r.transId]) := by
  have hta : r.transId ∉ accepted := fun hmem => ht (h.accepted_used hmem)
  have hzero := h.other hta
  -- a request of the log is the new one, or was there before under another id
  have hold : ∀ {i r' n}, m.store q (r, 0) i = some (r', n) →
      (i = q ∧ r' = r ∧ n = 0) ∨ (i ≠ q ∧ m i = some (r', n) ∧ r'.transId ≠ r.transId) := by
    intro i r' n hi
    rcases eq_or_ne i q with rfl | hiq
    · rw [Dict.store_self] at hi
      obtain ⟨rfl, rfl⟩ := Prod.mk.inj (Option.some.inj hi)
      exact .inl ⟨rfl, rfl, rfl⟩
    · rw [Dict.store_of_ne hiq] at hi
      exact .inr ⟨hiq, hi, fun heq => hta (heq ▸ (h.owner hi).1)⟩
  refine ⟨fun i => ?_, fun hi => ?_, fun {i i' r₁ r₂ n₁ n₂} hi hi' heq => ?_, fun hi => ?_, fun {t} hmem => ?_,
    fun hi => ?_, fun hi => ?_, fun {t} hmem => ?_, fun {t} hmem => ?_, fun hi => ?_, fun t => ?_, fun hi hn => ?_⟩
  · rcases eq_or_ne i q with rfl | hiq
    · simp only [Dict.store_self, reduceCtorEq]
    · rw [Dict.store_of_ne hiq, Dict.store_of_ne hiq]
      exact h.outstanding_iff i
  · rcases hold hi with ⟨-, rfl, -⟩ | ⟨-, hm, -⟩
    · exact hr
    · exact h.accepts hm
  · rcases hold hi with ⟨rfl, rfl, -⟩ | ⟨-, hm, hother⟩ <;> rcases hold hi' with ⟨rfl, rfl, -⟩ | ⟨-, hm', hother'⟩
    · rfl
    · exact absurd heq.symm hother'
    · exact absurd heq hother
    · exact h.unique hm hm' heq
  · rcases hold hi with ⟨rfl, -⟩ | ⟨-, hm, -⟩
    · exact List.mem_append_right _ hqi
    · exact List.mem_append_left _ (h.used_id hm)
  · rcases List.mem_append.mp hmem with hmem | hmem
    · exact List.mem_append_left _ (h.accepted_used hmem)
    · exact List.mem_append_right _ (List.mem_singleton.mp hmem ▸ hti)
  · rcases hold hi with ⟨rfl, rfl, -⟩ | ⟨-, hm, -⟩
    · refine ⟨List.mem_append_right _ (List.mem_singleton_self _), fun hmem => ?_⟩
      rcases List.mem_append.mp hmem with hmem | hmem
      · exact absurd (h.accepted_used hmem) hq
      · exact List.mem_singleton.mp hmem
    · refine ⟨List.mem_append_left _ (h.owner hm).1, fun hmem => ?_⟩
      rcases List.mem_append.mp hmem with hmem | hmem
      · exact (h.owner hm).2 hmem
      · exact absurd (List.mem_singleton.mp hmem ▸ h.used_id hm) ht
  · rw [resolutions_append, resolutions_send]
    rcases hold hi with ⟨-, rfl, -⟩ | ⟨-, hm, -⟩
    · exact hzero.1
    · exact h.unresolved hm
  · rw [resolutions_append, resolutions_send]
    rcases List.mem_append.mp hmem with hmem | hmem
    · rcases h.resolved hmem with ⟨i, r', n, hm, rfl⟩ | hone
      · have hiq : i ≠ q := fun heq => hq (heq ▸ h.used_id hm)
        exact .inl ⟨i, r', n, (Dict.store_of_ne hiq _ m).trans hm, rfl⟩
      · exact .inr hone
    · exact .inl ⟨q, r, 0, Dict.store_self _ _ _, (List.mem_singleton.mp hmem).symm⟩
  · rw [List.mem_append, not_or, List.mem_singleton] at hmem
    have hother := h.other hmem.1
    rw [resolutions_append, resolutions_send, sends_append, sends_send, if_neg (fun heq => hmem.2 heq.symm)]
    exact hother
  · rw [sends_append, sends_send]
    rcases hold hi with ⟨-, rfl, rfl⟩ | ⟨-, hm, hother⟩
    · rw [hzero.2, if_pos rfl]
    · rw [if_neg hother.symm]
      exact h.sends_retries hm
  · rw [sends_append, sends_send]
    split
    · rename_i heq
      rw [← heq, hzero.2]
      omega
    · exact h.sends_le t
  · rcases hold hi with ⟨rfl, rfl, -⟩ | ⟨-, hm, -⟩
    · exact ⟨List.mem_append_right _ (hnext _ hn).1, (hnext _ hn).2⟩
    · exact ⟨List.mem_append_left _ (h.next hm hn).1, (h.next hm hn).2⟩

/-- A request that is resolved is no longer stored. -/
theorem Delivery.resolve (h : Delivery cfg m outstanding accepted used effects) (hm : m i = some (r, n)) (ids : List Id)
    (he : effects' = [.respond r.transId] ∨ effects' = [.expire r.transId]) :
    Delivery cfg (m.erase i) (outstanding.erase i) accepted (used ++ ids) (effects ++ effects') := by
  have hres : ∀ t, resolutions t effects' = if t = r.transId then 1 else 0 := fun t => by
    by_cases ht : r.transId = t <;> rcases he with rfl | rfl <;> simp [resolutions, ht, eq_comm (a := t)]
  have hsend : ∀ t, sends t effects' = 0 := fun t => by
    rcases he with rfl | rfl <;> simp [sends]
  have hold : ∀ {j r' n'}, m.erase i j = some (r', n') → j ≠ i ∧ m j = some (r', n') := by
    intro j r' n' hj
    rcases eq_or_ne j i with rfl | hji
    · rw [Dict.erase_self] at hj
      cases hj
    · exact ⟨hji, (Dict.erase_of_ne hji m).symm.trans hj⟩
  refine ⟨fun j => ?_, fun hj => h.accepts (hold hj).2, fun hj hj' => h.unique (hold hj).2 (hold hj').2,
    fun hj => List.mem_append_left _ (h.used_id (hold hj).2), fun hmem => List.mem_append_left _ (h.accepted_used hmem),
    fun hj => h.owner (hold hj).2, fun {j r' n'} hj => ?_, fun {t} hmem => ?_, fun {t} hmem => ?_, fun hj => ?_,
    fun t => ?_, fun hj hn => ⟨List.mem_append_left _ (h.next (hold hj).2 hn).1, (h.next (hold hj).2 hn).2⟩⟩
  · rcases eq_or_ne j i with rfl | hji
    · simp only [Dict.erase_self]
    · rw [Dict.erase_of_ne hji, Dict.erase_of_ne hji]
      exact h.outstanding_iff j
  · obtain ⟨hji, hj⟩ := hold hj
    rw [resolutions_append, h.unresolved hj, hres, if_neg fun heq => hji (h.unique hj hm heq)]
  · rw [resolutions_append, hres]
    rcases h.resolved hmem with ⟨j, r', n', hj, rfl⟩ | hone
    · rcases eq_or_ne j i with rfl | hji
      · obtain ⟨rfl, rfl⟩ := Prod.mk.inj (Option.some.inj (hm.symm.trans hj))
        exact .inr (by rw [h.unresolved hm, if_pos rfl])
      · exact .inl ⟨j, r', n', (Dict.erase_of_ne hji m).trans hj, rfl⟩
    · refine .inr ?_
      rw [hone, if_neg fun heq => ?_]
      have hzero := h.unresolved hm
      rw [← heq, hone] at hzero
      cases hzero
  · have hother := h.other hmem
    have hne : t ≠ r.transId := fun heq => hmem (heq ▸ (h.owner hm).1)
    rw [resolutions_append, sends_append, hres, hsend, if_neg hne]
    exact hother
  · rw [sends_append, hsend]
    exact h.sends_retries (hold hj).2
  · rw [sends_append, hsend]
    exact h.sends_le t

/-- A request that is sent again, or waits for its empty response, is stored under another id. -/
theorem Delivery.resend (h : Delivery cfg m outstanding accepted used effects) (hm : m i = some (r, n))
    (hq : (q ∉ used ∧ q ∈ ids) ∨ q = r.transId)
    (he : effects' = [] ∨ (effects' = [.send r.transId] ∧ n < cfg.retry)) :
    (m q = none ∨ q = i) ∧
      Delivery cfg ((m.erase i).store q (r, n + 1)) ((outstanding.erase i).store q out) accepted (used ++ ids)
        (effects ++ effects') := by
  have hdistinct : m q = none ∨ q = i := by
    rcases hq with ⟨hq, -⟩ | rfl
    · refine .inl (Option.eq_none_iff_forall_ne_some.mpr fun x hx => hq (h.used_id (r := x.1) (n := x.2) hx))
    · cases hx : m r.transId with
      | none => exact .inl rfl
      | some x =>
        have howner := (h.owner (r := x.1) (n := x.2) hx).2 (h.owner hm).1
        exact .inr (h.unique (r := x.1) (n := x.2) hx hm howner.symm)
  have hres : ∀ t, resolutions t effects' = 0 := fun t => by
    rcases he with rfl | ⟨rfl, -⟩
    · rfl
    · exact resolutions_send _ _
  have hsend : ∀ t, sends t effects' ≤ if t = r.transId then 1 else 0 := fun t => by
    rcases he with rfl | ⟨rfl, -⟩
    · exact Nat.zero_le _
    · rw [sends_send]
      simp only [eq_comm, Nat.le_refl]
  have hold : ∀ {j r' n'}, (m.erase i).store q (r, n + 1) j = some (r', n') →
      (j = q ∧ r' = r ∧ n' = n + 1) ∨ (j ≠ q ∧ j ≠ i ∧ m j = some (r', n')) := by
    intro j r' n' hj
    rcases eq_or_ne j q with rfl | hjq
    · rw [Dict.store_self] at hj
      obtain ⟨rfl, rfl⟩ := Prod.mk.inj (Option.some.inj hj)
      exact .inl ⟨rfl, rfl, rfl⟩
    · rw [Dict.store_of_ne hjq] at hj
      rcases eq_or_ne j i with rfl | hji
      · rw [Dict.erase_self] at hj
        cases hj
      · exact .inr ⟨hjq, hji, (Dict.erase_of_ne hji m).symm.trans hj⟩
  have hother : ∀ {j r' n'}, j ≠ i → m j = some (r', n') → r'.transId ≠ r.transId := fun hji hj heq =>
    hji (h.unique hj hm heq)
  refine ⟨hdistinct, fun j => ?_, fun hj => ?_, fun {j j' r₁ r₂ n₁ n₂} hj hj' heq => ?_, fun hj => ?_,
    fun hmem => List.mem_append_left _ (h.accepted_used hmem), fun hj => ?_, fun hj => ?_, fun {t} hmem => ?_,
    fun {t} hmem => ?_, fun {j r' n'} hj => ?_, fun t => ?_, fun hj hn => ?_⟩
  · rcases eq_or_ne j q with rfl | hjq
    · simp only [Dict.store_self, reduceCtorEq]
    · rw [Dict.store_of_ne hjq, Dict.store_of_ne hjq]
      rcases eq_or_ne j i with rfl | hji
      · simp only [Dict.erase_self]
      · rw [Dict.erase_of_ne hji, Dict.erase_of_ne hji]
        exact h.outstanding_iff j
  · rcases hold hj with ⟨-, rfl, -⟩ | ⟨-, -, hj⟩
    · exact h.accepts hm
    · exact h.accepts hj
  · rcases hold hj with ⟨rfl, rfl, -⟩ | ⟨-, hji, hm₁⟩ <;> rcases hold hj' with ⟨rfl, rfl, -⟩ | ⟨-, hji', hm₂⟩
    · rfl
    · exact absurd heq.symm (hother hji' hm₂)
    · exact absurd heq (hother hji hm₁)
    · exact h.unique hm₁ hm₂ heq
  · rcases hold hj with ⟨rfl, -⟩ | ⟨-, -, hj⟩
    · rcases hq with ⟨-, hq⟩ | rfl
      · exact List.mem_append_right _ hq
      · exact List.mem_append_left _ (h.accepted_used (h.owner hm).1)
    · exact List.mem_append_left _ (h.used_id hj)
  · rcases hold hj with ⟨rfl, rfl, -⟩ | ⟨-, -, hj⟩
    · refine ⟨(h.owner hm).1, fun hmem => ?_⟩
      rcases hq with ⟨hq, -⟩ | hq
      · exact absurd (h.accepted_used hmem) hq
      · exact hq
    · exact h.owner hj
  · rw [resolutions_append, hres]
    rcases hold hj with ⟨-, rfl, -⟩ | ⟨-, -, hj⟩
    · exact h.unresolved hm
    · exact h.unresolved hj
  · rw [resolutions_append, hres]
    rcases h.resolved hmem with ⟨j, r', n', hj, rfl⟩ | hone
    · rcases eq_or_ne j i with rfl | hji
      · obtain ⟨rfl, rfl⟩ := Prod.mk.inj (Option.some.inj (hm.symm.trans hj))
        exact .inl ⟨q, r, n + 1, Dict.store_self _ _ _, rfl⟩
      · have hjq : j ≠ q := by
          rintro rfl
          rcases hdistinct with hnone | rfl
          · cases hnone.symm.trans hj
          · exact hji rfl
        exact .inl ⟨j, r', n', (Dict.store_of_ne hjq _ _).trans ((Dict.erase_of_ne hji m).trans hj), rfl⟩
    · exact .inr hone
  · have hzero := h.other hmem
    have hne := hsend t
    rw [if_neg (show t ≠ r.transId from fun heq => hmem (heq ▸ (h.owner hm).1))] at hne
    rw [resolutions_append, sends_append, hres]
    omega
  · rw [sends_append]
    rcases hold hj with ⟨-, hr', hn'⟩ | ⟨-, hji, hj⟩
    · have hle := h.sends_retries hm
      have hone := hsend r.transId
      rw [if_pos rfl] at hone
      rw [hr', hn']
      omega
    · have hle := h.sends_retries hj
      have hzero := hsend r'.transId
      rw [if_neg (hother hji hj)] at hzero
      omega
  · rw [sends_append]
    rcases he with rfl | ⟨rfl, hlt⟩
    · exact h.sends_le t
    · rw [sends_send]
      split
      · rename_i heq
        have hle := h.sends_retries hm
        rw [heq] at hle
        omega
      · exact h.sends_le t
  · rcases hold hj with ⟨rfl, rfl, -⟩ | ⟨-, -, hj⟩
    · have hnext := h.next hm hn
      refine ⟨List.mem_append_left _ hnext.1, ?_, hnext.2.2⟩
      rcases hq with ⟨hq, -⟩ | hq
      · exact fun heq => hq (heq ▸ hnext.1)
      · exact hq ▸ hnext.2.2
    · exact ⟨List.mem_append_left _ (h.next hj hn).1, (h.next hj hn).2⟩

/-- A message that is delayed still comes. -/
theorem Delivery.delay (h : Delivery cfg m outstanding accepted used effects) (hi : outstanding i ≠ none)
    (out : Outstanding) (ids : List Id) :
    Delivery cfg m (outstanding.store i out) accepted (used ++ ids) effects where
  outstanding_iff j := by
    rcases eq_or_ne j i with rfl | hji
    · rw [Dict.store_self]
      exact ⟨fun hsome => absurd hsome (Option.some_ne_none _),
        fun hnone => absurd ((h.outstanding_iff j).mpr hnone) hi⟩
    · rw [Dict.store_of_ne hji]
      exact h.outstanding_iff j
  accepts := h.accepts
  unique := h.unique
  used_id hj := List.mem_append_left _ (h.used_id hj)
  accepted_used hmem := List.mem_append_left _ (h.accepted_used hmem)
  owner := h.owner
  unresolved := h.unresolved
  resolved := h.resolved
  other := h.other
  sends_retries := h.sends_retries
  sends_le := h.sends_le
  next hj hn := ⟨List.mem_append_left _ (h.next hj hn).1, (h.next hj hn).2⟩

/-! ## The requests that were accepted -/

/-- The requests that are stored were stored before. -/
def Within (m' m : Stored Id (ServiceRequest Id Pid Call Content)) : Prop :=
  ∀ i r n, m' i = some (r, n) → ∃ i' n', m i' = some (r, n')

theorem within_erase (m : Stored Id (ServiceRequest Id Pid Call Content)) (i : Id) : Within (m.erase i) m := by
  intro j r n hj
  rcases eq_or_ne j i with rfl | hji
  · rw [Dict.erase_self] at hj
    cases hj
  · exact ⟨j, n, (Dict.erase_of_ne hji m).symm.trans hj⟩

theorem within_resend (hm : m i = some (r, n)) (q : Id) (n' : Nat) :
    Within ((m.erase i).store q (r, n')) m := by
  intro j r₁ n₁ hj
  rcases eq_or_ne j q with rfl | hjq
  · rw [Dict.store_self] at hj
    obtain ⟨rfl, rfl⟩ := Prod.mk.inj (Option.some.inj hj)
    exact ⟨i, n, hm⟩
  · rw [Dict.store_of_ne hjq] at hj
    exact within_erase m i j r₁ n₁ hj

variable {requests : List (ServiceRequest Id Pid Call Content)}

/-- The requests of the log were accepted, each has its own id, and no other request has the id of its response. -/
structure Known (m : Stored Id (ServiceRequest Id Pid Call Content))
    (requests : List (ServiceRequest Id Pid Call Content)) (used : List Id) : Prop where
  stored : ∀ {i r n}, m i = some (r, n) → r ∈ requests
  same : ∀ {r r'}, r ∈ requests → r' ∈ requests → r.transId = r'.transId → r = r'
  next : ∀ {r t}, r ∈ requests → r.next = some t → t ∈ used ∧ t ∉ requests.map ServiceRequest.transId

theorem known_empty : Known (Dict.new : Stored Id (ServiceRequest Id Pid Call Content)) [] [] where
  stored h := by cases h
  same h := by cases h
  next h := by cases h

theorem Known.within {m' : Stored Id (ServiceRequest Id Pid Call Content)} (h : Known m requests used)
    (hw : Within m' m) (ids : List Id) : Known m' requests (used ++ ids) where
  stored hi := by
    obtain ⟨i', n', hm⟩ := hw _ _ _ hi
    exact h.stored hm
  same := h.same
  next hr hn := ⟨List.mem_append_left _ (h.next hr hn).1, (h.next hr hn).2⟩

theorem Known.store (h : Known m requests used) (ha : ∀ r, r ∈ requests → r.transId ∈ used) (ht : r.transId ∉ used)
    (hnext : ∀ t, r.next = some t → t ∈ ids ∧ t ∉ used ∧ t ≠ r.transId) (q : Id) (n : Nat) :
    Known (m.store q (r, n)) (requests ++ [r]) (used ++ ids) := by
  have hcases : ∀ {r'}, r' ∈ requests ++ [r] → r' ∈ requests ∨ r' = r := fun hmem =>
    (List.mem_append.mp hmem).imp_right List.mem_singleton.mp
  have hnew : ∀ {r'}, r' ∈ requests → r'.transId ≠ r.transId := fun hmem heq => ht (heq ▸ ha _ hmem)
  refine ⟨fun {i r' n'} hi => ?_, fun hr hr' heq => ?_, fun {r' t} hr hn => ?_⟩
  · rcases eq_or_ne i q with rfl | hiq
    · rw [Dict.store_self] at hi
      obtain ⟨rfl, rfl⟩ := Prod.mk.inj (Option.some.inj hi)
      exact List.mem_append_right _ (List.mem_singleton_self _)
    · rw [Dict.store_of_ne hiq] at hi
      exact List.mem_append_left _ (h.stored hi)
  · rcases hcases hr with hold | hself <;> rcases hcases hr' with hold' | hself'
    · exact h.same hold hold' heq
    · exact absurd (heq.trans (congrArg _ hself')) (hnew hold)
    · exact absurd (heq.symm.trans (congrArg _ hself)) (hnew hold')
    · exact hself.trans hself'.symm
  · rw [List.map_append, List.mem_append, List.mem_append, not_or, List.map_singleton, List.mem_singleton]
    rcases hcases hr with hr | rfl
    · have hold := h.next hr hn
      exact ⟨.inl hold.1, hold.2, fun heq => ht (heq ▸ hold.1)⟩
    · obtain ⟨hids, hused, hne⟩ := hnext t hn
      refine ⟨.inr hids, fun hmem => ?_, hne⟩
      obtain ⟨r₁, hr₁, rfl⟩ := List.mem_map.mp hmem
      exact hused (ha r₁ hr₁)

/-! ## Sources of other nodes -/

/-- The request is not asked for the life of a source of another node, when it was retried as often as that. -/
def ServiceRequest.Local (cfg : ServiceConfig) (retries : Nat) : ServiceRequest Id Pid Call Content → Prop
  | destinationRequest _ _ _ _ (.remote _) => cfg.retry ≤ retries
  | _ => True

/-- The requests that the next message, or the message of their timer, may send again. -/
def Retryable (cfg : ServiceConfig) (m : Stored Id (ServiceRequest Id Pid Call Content))
    (outstanding : Dict Id Outstanding) : Prop :=
  ∀ i r n, m i = some (r, n) → cfg.retryDelay = 0 ∨ outstanding i = some .delayed → r.Local cfg n

omit [DecidableEq Id] in
theorem retryable_empty : Retryable cfg (Dict.new : Stored Id (ServiceRequest Id Pid Call Content)) Dict.new := by
  intro i r n h
  cases h

theorem Retryable.erase (h : Retryable cfg m outstanding) (i : Id) :
    Retryable cfg (m.erase i) (outstanding.erase i) := by
  intro j r n hj hout
  rcases eq_or_ne j i with rfl | hji
  · rw [Dict.erase_self] at hj
    cases hj
  · rw [Dict.erase_of_ne hji] at hj hout
    exact h j r n hj hout

theorem Retryable.store (h : Retryable cfg m outstanding) (hout : out ≠ .delayed)
    (hr : cfg.retryDelay = 0 → r.Local cfg n) : Retryable cfg (m.store q (r, n)) (outstanding.store q out) := by
  intro j r' n' hj hd
  rcases eq_or_ne j q with rfl | hjq
  · rw [Dict.store_self] at hj hd
    obtain ⟨rfl, rfl⟩ := Prod.mk.inj (Option.some.inj hj)
    exact hr (hd.resolve_right fun he => hout (Option.some.inj he))
  · rw [Dict.store_of_ne hjq] at hj hd
    exact h j r' n' hj hd

theorem Retryable.delay (h : Retryable cfg m outstanding) (hr : ∀ r n, m i = some (r, n) → r.Local cfg n) :
    Retryable cfg m (outstanding.store i .delayed) := by
  intro j r n hj hd
  rcases eq_or_ne j i with rfl | hji
  · exact hr r n hj
  · rw [Dict.store_of_ne hji] at hd
    exact h j r n hj hd

omit [DecidableEq Id] in
theorem ServiceRequest.Local.succ (h : r.Local cfg n) : r.Local cfg (n + 1) := by
  cases r with
  | destinationRequest call content timeout transId pid =>
    cases pid with
    | node pid => trivial
    | remote pid => exact Nat.le_succ_of_le h
  | bothRequest name content timeout transId nextName nextTransId => trivial
  | bothResponse name content timeout transId => trivial

/-! ## The handlers -/

variable {encode : Encode (ServiceRequest Id Pid Call Content)} {s s' : Service Id Pid Call Content}
  {env : ServiceEnv Id} {response : Content}

theorem sendAsyncActive_ne_delayed (env : ServiceEnv Id) (id : Id) : (sendAsyncActive env id).2 ≠ .delayed := by
  unfold sendAsyncActive
  cases env.sends <;> simp

/-- What is sent again has a new id or that of the request. -/
theorem retry_eq_some {mode : Mode} {again : Bool} (h : retry mode env r again = .ok (some (q, out, effects))) :
    (q = env.newId ∨ q = r.transId) ∧ (effects = [] ∨ (effects = [.send r.transId] ∧ again = true)) ∧
      out ≠ .delayed := by
  cases r with
  | destinationRequest call content timeout transId pid =>
    cases again with
    | false => cases h
    | true =>
      simp only [retry] at h
      split at h
      · obtain ⟨alive, -, h⟩ := bind_eq_ok h
        split at h
        · cases h
        · split at h
          · cases h
          · cases h
            exact ⟨.inl rfl, .inr ⟨rfl, rfl⟩, sendAsyncActive_ne_delayed env _⟩
      · cases h
  | bothRequest name content timeout transId nextName nextTransId =>
    simp only [retry] at h
    split at h
    · split at h
      · cases h
        exact ⟨.inr rfl, .inl rfl, by simp⟩
      · split at h
        · rename_i hagain
          cases h
          exact ⟨.inl rfl, .inr ⟨rfl, hagain⟩, sendAsyncActive_ne_delayed env _⟩
        · cases h
    · cases h
  | bothResponse name content timeout transId =>
    cases again with
    | false => cases h
    | true =>
      simp only [retry] at h
      split at h
      · cases h
        exact ⟨.inr rfl, .inr ⟨rfl, rfl⟩, sendAsyncActive_ne_delayed env _⟩
      · cases h

/-- A request that the service has accepted is retried without an exception exactly if its source is local, or it is
no more sent. -/
theorem retry_ok_iff (ha : r.Accepts cfg.mode) (env : ServiceEnv Id) (n : Nat) :
    (∃ x, retry cfg.mode env r (decide (n < cfg.retry)) = .ok x) ↔ r.Local cfg n := by
  cases r with
  | destinationRequest call content timeout transId pid =>
    have hmode : cfg.mode = .destination := ha
    by_cases hn : n < cfg.retry
    · rw [decide_eq_true hn, retry, if_pos hmode]
      cases pid with
      | node pid =>
        refine iff_of_true ?_ trivial
        show ∃ x, (if env.alive = false then _ else _) = _
        split
        · exact ⟨_, rfl⟩
        · split
          · exact ⟨_, rfl⟩
          · exact ⟨_, rfl⟩
      | remote pid => exact iff_of_false (by rintro ⟨x, hx⟩; cases hx) (Nat.not_le_of_lt hn)
    · rw [decide_eq_false hn]
      refine iff_of_true ⟨_, rfl⟩ ?_
      cases pid with
      | node pid => trivial
      | remote pid => exact Nat.le_of_not_lt hn
  | bothRequest name content timeout transId nextName nextTransId =>
    refine iff_of_true ?_ trivial
    rw [retry]
    split
    · split
      · exact ⟨_, rfl⟩
      · split
        · exact ⟨_, rfl⟩
        · exact ⟨_, rfl⟩
    · exact ⟨_, rfl⟩
  | bothResponse name content timeout transId => exact ha.elim

theorem serviceRetry_delivery (ht : Tracks encode s.log m) (hd : Delivery cfg m s.outstanding accepted used effects)
    (hnew : env.newId ∉ used) (hids : env.newId ∈ ids) (ha : serviceRetry cfg env i s = .ok (s', effects')) :
    ∃ m', Tracks encode s'.log m' ∧ Delivery cfg m' s'.outstanding accepted (used ++ ids) (effects ++ effects') ∧
      Within m' m ∧ (Retryable cfg m s.outstanding → Retryable cfg m' s'.outstanding) := by
  obtain ⟨c, hfetch, ha⟩ := bind_eq_ok ha
  obtain ⟨retried, hretry, ha⟩ := bind_eq_ok ha
  obtain ⟨newLogging, hlog, ha⟩ := bind_eq_ok ha
  have hc := Dict.fetch_eq_ok.mp hfetch
  rw [eraseRetry, bind_ok hfetch] at hlog
  cases retried with
  | none =>
    simp only [Option.map_none] at ha hlog
    cases ha
    cases hlog
    exact ⟨_, ht.erase hc, hd.resolve (ht.find hc) ids (.inr rfl), within_erase m i, fun hr => hr.erase i⟩
  | some x =>
    obtain ⟨q, out, eff⟩ := x
    simp only [Option.map_some] at ha hlog
    cases ha
    cases hlog
    obtain ⟨hq, heff, hout⟩ := retry_eq_some hretry
    have hid : (q ∉ used ∧ q ∈ ids) ∨ q = c.request.transId := hq.imp_left fun heq => by
      rw [heq]
      exact ⟨hnew, hids⟩
    have hsend : effects' = [] ∨ (effects' = [.send c.request.transId] ∧ c.retries < cfg.retry) :=
      heff.imp_right fun hagain => ⟨hagain.1, of_decide_eq_true hagain.2⟩
    obtain ⟨hdistinct, hnext⟩ := hd.resend (ht.find hc) hid hsend
    exact ⟨_, ht.retry hc hdistinct.symm, hnext, within_resend (ht.find hc) q _, fun hr =>
      (hr.erase i).store hout fun hdelay => (hr _ _ _ (ht.find hc) (.inl hdelay)).succ⟩

theorem serviceReturn_delivery (ht : Tracks encode s.log m) (hd : Delivery cfg m s.outstanding accepted used effects)
    (hmode : cfg.mode = .destination) (ids : List Id)
    (ha : serviceReturn encode cfg env i response s = .ok (s', effects')) :
    ∃ m', Tracks encode s'.log m' ∧ Delivery cfg m' s'.outstanding accepted (used ++ ids) (effects ++ effects') ∧
      Within m' m ∧ (Retryable cfg m s.outstanding → Retryable cfg m' s'.outstanding) := by
  rw [serviceReturn, hmode] at ha
  obtain ⟨x, hlog, ha⟩ := bind_eq_ok ha
  obtain ⟨c, hfetch, hlog⟩ := bind_eq_ok hlog
  have hc := Dict.fetch_eq_ok.mp hfetch
  cases hlog
  cases hr : c.request with
  | destinationRequest call content timeout transId pid =>
    simp only [hr] at ha
    cases ha
    have hfind := ht.find hc
    rw [hr] at hfind
    exact ⟨_, ht.erase hc, hd.resolve hfind ids (.inl rfl), within_erase m i, fun hr => hr.erase i⟩
  | bothRequest name content timeout transId nextName nextTransId =>
    simp only [hr] at ha
    cases ha
  | bothResponse name content timeout transId =>
    simp only [hr] at ha
    cases ha

theorem serviceRequest_delivery (ht : Tracks encode s.log m) (hd : Delivery cfg m s.outstanding accepted used effects)
    (hr : r.Accepts cfg.mode) (hid : r.transId ∉ used) (hnew : env.newId ∉ used) (hne : env.newId ≠ r.transId)
    (hti : r.transId ∈ ids) (hqi : env.newId ∈ ids)
    (hnext : ∀ t, r.next = some t → t ∈ ids ∧ t ≠ env.newId ∧ t ≠ r.transId) :
    Tracks encode (serviceRequest encode env r s).1.log (m.store env.newId (r, 0)) ∧
      Delivery cfg (m.store env.newId (r, 0)) (serviceRequest encode env r s).1.outstanding (accepted ++ [r.transId])
        (used ++ ids) (effects ++ (serviceRequest encode env r s).2) := by
  have hnone : m env.newId = none := by
    cases hm : m env.newId with
    | none => rfl
    | some x => exact absurd (hd.used_id (r := x.1) (n := x.2) hm) hnew
  exact ⟨ht.store hnone r, hd.store hr hid hnew hne hti hqi hnext⟩

/-- In `both` mode, the event is not a response. No message or timer to come asks for the life of a source of another
node. -/
def ServiceEvent.Meets (cfg : ServiceConfig) (s : Service Id Pid Call Content) :
    ServiceEvent Id Pid Call Content → Prop
  | request _ r => cfg.retryDelay = 0 → r.Local cfg 0
  | returnAsyncActive _ _ _ => cfg.mode = .destination
  | timeoutAsyncActive _ i => cfg.retryDelay ≠ 0 → ∀ c, s.log.chunks i = some c → c.request.Local cfg c.retries
  | .retryDelay _ _ => True

/-- The ids of a request that is new are different. -/
theorem newIds_request (hnodup : (ServiceEvent.request env r).newIds.Nodup) :
    r.transId ∈ (ServiceEvent.request env r).newIds ∧ env.newId ∈ (ServiceEvent.request env r).newIds ∧
      env.newId ≠ r.transId ∧ ∀ t, r.next = some t →
        t ∈ (ServiceEvent.request env r).newIds ∧ t ≠ env.newId ∧ t ≠ r.transId := by
  have hself : r.transId ∈ (ServiceEvent.request env r).newIds ∧ env.newId ∈ (ServiceEvent.request env r).newIds := by
    cases r <;> simp [ServiceEvent.newIds, ServiceRequest.transId]
  refine ⟨hself.1, hself.2, ?_⟩
  cases r with
  | destinationRequest call content timeout transId pid =>
    have hne : transId ≠ env.newId := by simpa [ServiceEvent.newIds, ServiceRequest.transId] using hnodup
    exact ⟨hne.symm, fun t ht => by cases ht⟩
  | bothRequest name content timeout transId nextName nextTransId =>
    simp only [ServiceEvent.newIds, List.nodup_cons, List.mem_cons, List.not_mem_nil, not_or, or_false] at hnodup
    refine ⟨fun heq => hnodup.1.2 heq.symm, fun t ht => ?_⟩
    obtain rfl := Option.some.inj ht
    exact ⟨by simp [ServiceEvent.newIds], hnodup.2.1, fun heq => hnodup.1.1 heq.symm⟩
  | bothResponse name content timeout transId =>
    have hne : transId ≠ env.newId := by simpa [ServiceEvent.newIds, ServiceRequest.transId] using hnodup
    exact ⟨hne.symm, fun t ht => by cases ht⟩

theorem Served.delivery (h : Served encode cfg (ServiceEvent.Meets cfg) s requests used effects) :
    ∃ m, Tracks encode s.log m ∧ Delivery cfg m s.outstanding (requests.map ServiceRequest.transId) used effects ∧
      Known m requests used ∧ Retryable cfg m s.outstanding := by
  induction h with
  | start => exact ⟨_, tracks_empty, Delivery.empty, known_empty, retryable_empty⟩
  | @step s s' requests used effects effects' e _ hen hok hnodup hfresh ha ih =>
    obtain ⟨m, ht, hd, hk, hr⟩ := ih
    cases e with
    | request env r =>
      cases ha
      obtain ⟨hti, hqi, hne, hnext⟩ := newIds_request hnodup
      obtain ⟨ht', hd'⟩ := serviceRequest_delivery ht hd hen (hfresh _ hti) (hfresh _ hqi) hne hti hqi hnext
      rw [ServiceEvent.accepts, List.map_append, List.map_singleton]
      refine ⟨_, ht', hd', hk.store (fun r₁ hr₁ => hd.accepted_used (List.mem_map_of_mem hr₁)) (hfresh _ hti)
        (fun t hn => ?_) _ _, hr.store (sendAsyncActive_ne_delayed env env.newId) hok⟩
      exact ⟨(hnext t hn).1, hfresh t (hnext t hn).1, (hnext t hn).2.2⟩
    | returnAsyncActive env i response =>
      obtain ⟨m', ht', hd', hw, hr'⟩ := serviceReturn_delivery ht hd hok [env.newId] ha
      simp only [ServiceEvent.accepts, List.append_nil]
      exact ⟨m', ht', hd', hk.within hw _, hr' hr⟩
    | timeoutAsyncActive env i =>
      simp only [ServiceEvent.accepts, List.append_nil]
      rw [ServiceEvent.apply] at ha
      split at ha
      · have hids := List.mem_singleton_self env.newId
        obtain ⟨m', ht', hd', hw, hr'⟩ := serviceRetry_delivery ht hd (hfresh _ hids) hids ha
        exact ⟨m', ht', hd', hk.within hw _, hr' hr⟩
      · rename_i hdelay
        cases ha
        rw [List.append_nil]
        refine ⟨m, ht, hd.delay ?_ _ _, hk.within (fun i r n hm => ⟨i, n, hm⟩) _, hr.delay fun r n hm => ?_⟩
        · rcases hen with hi | hi <;> (rw [hi]; simp)
        · obtain ⟨c, hc, hcr⟩ := Option.map_eq_some_iff.mp ((ht.stored i).trans hm)
          obtain ⟨rfl, rfl⟩ := Prod.mk.inj hcr
          exact hok hdelay c hc
    | retryDelay env i =>
      simp only [ServiceEvent.accepts, List.append_nil]
      have hids := List.mem_singleton_self env.newId
      obtain ⟨m', ht', hd', hw, hr'⟩ := serviceRetry_delivery ht hd (hfresh _ hids) hids ha
      exact ⟨m', ht', hd', hk.within hw _, hr' hr⟩

/-! ## Runs of the service -/

/-- The request of the id is found, and raises only where the retry does. -/
theorem serviceRetry_ok_iff {c : Chunk (ServiceRequest Id Pid Call Content)} (hc : s.log.chunks i = some c) :
    (∃ x, serviceRetry cfg env i s = .ok x) ↔
      ∃ x, retry cfg.mode env c.request (decide (c.retries < cfg.retry)) = .ok x := by
  have hfetch := Dict.fetch_eq_ok.mpr hc
  rw [serviceRetry, bind_ok hfetch]
  cases hF : retry cfg.mode env c.request (decide (c.retries < cfg.retry)) with
  | error e => exact iff_of_false (by rintro ⟨x, hx⟩; cases hx) (by rintro ⟨x, hx⟩; cases hx)
  | ok retried =>
    refine iff_of_true ?_ ⟨_, rfl⟩
    cases retried with
    | none =>
      show ∃ x, (eraseRetry i cfg.retry (fun _ _ => none) s.log >>= _) = _
      rw [eraseRetry, bind_ok hfetch]
      exact ⟨_, rfl⟩
    | some x =>
      show ∃ x', (eraseRetry i cfg.retry (fun _ _ => some x.1) s.log >>= _) = _
      rw [eraseRetry, bind_ok hfetch]
      exact ⟨_, rfl⟩

/-- Each event that can come finds the request of its id. -/
theorem ServiceEvent.apply_ok (ht : Tracks encode s.log m) (hd : Delivery cfg m s.outstanding accepted used effects)
    (hr : Retryable cfg m s.outstanding) {e : ServiceEvent Id Pid Call Content} (hen : e.Enabled cfg s) : ∃ x,
    e.apply encode cfg s = .ok x := by
  have hchunk : ∀ {i}, s.outstanding i ≠ none → ∃ c, s.log.chunks i = some c ∧ c.request.Accepts cfg.mode := by
    intro i hi
    obtain ⟨x, hx⟩ := Option.ne_none_iff_exists'.mp fun hnone => hi ((hd.outstanding_iff i).mpr hnone)
    obtain ⟨c, hc, rfl⟩ := Option.map_eq_some_iff.mp ((ht.stored i).trans hx)
    exact ⟨c, hc, hd.accepts (ht.find hc)⟩
  have hretry : ∀ {env : ServiceEnv Id} {i : Id}, s.outstanding i ≠ none →
      cfg.retryDelay = 0 ∨ s.outstanding i = some .delayed → ∃ x, serviceRetry cfg env i s = .ok x := by
    intro env i hi hdue
    obtain ⟨c, hc, hacc⟩ := hchunk hi
    obtain ⟨x, hx⟩ := (retry_ok_iff hacc env c.retries).mpr (hr _ _ _ (ht.find hc) hdue)
    exact (serviceRetry_ok_iff hc).mpr ⟨x, hx⟩
  cases e with
  | request env r => exact ⟨_, rfl⟩
  | returnAsyncActive env i response =>
    obtain ⟨c, hc, hacc⟩ := hchunk (by rcases hen with hi | hi <;> (rw [hi]; simp))
    have hfetch := Dict.fetch_eq_ok.mpr hc
    cases hr : c.request with
    | destinationRequest call content timeout transId pid =>
      rw [hr] at hacc
      rw [ServiceEvent.apply, serviceReturn, show cfg.mode = .destination from hacc]
      simp only [erase, bind_ok hfetch, hr]
      exact ⟨_, rfl⟩
    | bothRequest name content timeout transId nextName nextTransId =>
      rw [hr] at hacc
      have hF : responseUpdate response c.request =
          some (nextTransId, .bothResponse nextName response timeout nextTransId) := by rw [hr]; rfl
      rw [ServiceEvent.apply, serviceReturn, show cfg.mode = .both from hacc]
      simp only [update_eq hc hF]
      exact ⟨_, rfl⟩
    | bothResponse name content timeout transId =>
      rw [hr] at hacc
      exact hacc.elim
  | timeoutAsyncActive env i =>
    rw [ServiceEvent.apply]
    split
    · rename_i hdelay
      exact hretry (by rcases hen with hi | hi <;> (rw [hi]; simp)) (.inl hdelay)
    · exact ⟨_, rfl⟩
  | retryDelay env i =>
    have hi : s.outstanding i = some .delayed := hen
    exact hretry (by rw [hi]; simp) (.inr hi)

/-- How often the request was resolved, as itself or as its response. -/
def ServiceRequest.resolutions (r : ServiceRequest Id Pid Call Content) (effects : List (Effect Id)) : Nat :=
  Queue.resolutions r.transId effects + r.next.elim 0 fun t => Queue.resolutions t effects

/-- What holds of the service in each state: no handler raises, a message comes for the ids of the log, each request
that was accepted is stored under one id until it is resolved once, and it is sent no more than the retries allow. -/
structure Durable (encode : Encode (ServiceRequest Id Pid Call Content)) (cfg : ServiceConfig)
    (s : Service Id Pid Call Content) (requests : List (ServiceRequest Id Pid Call Content))
    (effects : List (Effect Id)) : Prop where
  handled : ∀ e : ServiceEvent Id Pid Call Content, e.Enabled cfg s → ∃ x, e.apply encode cfg s = .ok x
  outstanding_iff : ∀ i, s.outstanding i = none ↔ s.log.chunks i = none
  stored_or_resolved : ∀ r, r ∈ requests →
    (r.resolutions effects = 0 ∧ ∃ i c, s.log.chunks i = some c ∧ r.Holds c.request ∧
        ∀ i' c', s.log.chunks i' = some c' → r.Holds c'.request → i' = i) ∨
      (r.resolutions effects = 1 ∧ ∀ i c, s.log.chunks i = some c → ¬ r.Holds c.request)
  accepted : ∀ i c, s.log.chunks i = some c → ∃ r, r ∈ requests ∧ r.Holds c.request
  sends_le : ∀ t, sends t effects ≤ cfg.retry + 1
  persisted : ∃ m, WellLaid encode s.log m

/-- A request that is stored as it was accepted is not a response. -/
theorem ServiceRequest.holds_iff {r r' : ServiceRequest Id Pid Call Content} {mode : Mode} (h : r'.Accepts mode) :
    r.Holds r' ↔ r' = r := by
  cases r' with
  | destinationRequest call content timeout transId pid => exact Iff.rfl
  | bothRequest name content timeout transId nextName nextTransId => exact Iff.rfl
  | bothResponse name content timeout transId => exact h.elim

theorem Known.resolutions_eq (hk : Known m requests used)
    (hd : Delivery cfg m outstanding (requests.map ServiceRequest.transId) used effects) (hr : r ∈ requests) :
    r.resolutions effects = resolutions r.transId effects := by
  rw [ServiceRequest.resolutions]
  cases hn : r.next with
  | none => rfl
  | some t => rw [Option.elim_some, (hd.other (hk.next hr hn).2).1, Nat.add_zero]

theorem Known.durable (hk : Known m requests used) (ht : Tracks encode s.log m)
    (hd : Delivery cfg m s.outstanding (requests.map ServiceRequest.transId) used effects)
    (hr : Retryable cfg m s.outstanding) : Durable encode cfg s requests effects where
  handled _ hen := ServiceEvent.apply_ok ht hd hr hen
  outstanding_iff i := by
    rw [hd.outstanding_iff, ← ht.stored i, Option.map_eq_none_iff]
  stored_or_resolved r hr := by
    have hiff : ∀ {i c}, s.log.chunks i = some c → (r.Holds c.request ↔ c.request = r) := fun hc =>
      ServiceRequest.holds_iff (hd.accepts (ht.find hc))
    rw [hk.resolutions_eq hd hr]
    by_cases hex : ∃ i c, s.log.chunks i = some c ∧ c.request = r
    · obtain ⟨i, c, hc, rfl⟩ := hex
      refine .inl ⟨hd.unresolved (ht.find hc), i, c, hc, (hiff hc).mpr rfl, fun i' c' hc' hheld => ?_⟩
      exact hd.unique (ht.find hc') (ht.find hc) (congrArg ServiceRequest.transId ((hiff hc').mp hheld))
    · refine .inr ⟨?_, fun i c hc hheld => hex ⟨i, c, hc, (hiff hc).mp hheld⟩⟩
      rcases hd.resolved (List.mem_map_of_mem hr) with ⟨i, r', n, hm, heq⟩ | hone
      · obtain ⟨c, hc, hcr⟩ := Option.map_eq_some_iff.mp ((ht.stored i).trans hm)
        have hr' : c.request = r' := (Prod.mk.inj hcr).1
        exact absurd ⟨i, c, hc, hr'.trans (hk.same (hk.stored hm) hr heq)⟩ hex
      · exact hone
  accepted i c hc := ⟨c.request, hk.stored (ht.find hc), (ServiceRequest.holds_iff (hd.accepts (ht.find hc))).mpr rfl⟩
  sends_le := hd.sends_le
  persisted := ⟨m, ht.wellLaid⟩

/-- A response that is stored leaves the id of its request to the log, and the request has two ids. A request whose
source is of another node raises when it is retried. -/
theorem Known.not_durable (hk : Known m requests used) (ht : Tracks encode s.log m)
    (hd : Delivery cfg m s.outstanding (requests.map ServiceRequest.transId) used effects)
    {e : ServiceEvent Id Pid Call Content} (hen : e.Enabled cfg s) (hfresh : ∀ i, i ∈ e.newIds → i ∉ used)
    (hnot : ¬ e.Meets cfg s) (ha : e.apply encode cfg s = .ok (s', effects')) (effects'' : List (Effect Id)) :
    ¬ Durable encode cfg s' (requests ++ e.accepts) effects'' := by
  intro hdurable
  cases e with
  | request env r =>
    obtain ⟨hdelay, hlocal⟩ := Classical.not_imp.mp hnot
    cases ha
    have hid : env.newId ∈ (ServiceEvent.request env r).newIds := by
      cases r <;> simp [ServiceEvent.newIds]
    have hnone : m env.newId = none := Option.eq_none_iff_forall_ne_some.mpr fun x hx =>
      hfresh _ hid (hd.used_id (r := x.1) (n := x.2) hx)
    have hstored := ((ht.store hnone r).stored env.newId).trans (Dict.store_self _ _ _)
    obtain ⟨c, hc, hcr⟩ := Option.map_eq_some_iff.mp hstored
    obtain ⟨rfl, hretries⟩ := Prod.mk.inj hcr
    have hdue : (ServiceEvent.timeoutAsyncActive env env.newId).Enabled cfg
        (serviceRequest encode env c.request s).1 := by
      show (s.outstanding.store _ _) _ = _ ∨ (s.outstanding.store _ _) _ = _
      rw [Dict.store_self]
      cases env.sends <;> simp
    obtain ⟨x, hx⟩ := hdurable.handled _ hdue
    rw [ServiceEvent.apply, if_pos hdelay] at hx
    refine hlocal ?_
    rw [← hretries]
    exact (retry_ok_iff hen env c.retries).mp ((serviceRetry_ok_iff hc).mp ⟨x, hx⟩)
  | timeoutAsyncActive env i =>
    obtain ⟨hdelay, hnot⟩ := Classical.not_imp.mp hnot
    obtain ⟨c, hnot⟩ := not_forall.mp hnot
    obtain ⟨hc, hlocal⟩ := Classical.not_imp.mp hnot
    rw [ServiceEvent.apply, if_neg hdelay] at ha
    cases ha
    have hdue : (ServiceEvent.retryDelay env i).Enabled cfg ⟨s.log, s.outstanding.store i .delayed⟩ :=
      Dict.store_self _ _ _
    have hchunk : (⟨s.log, s.outstanding.store i .delayed⟩ : Service Id Pid Call Content).log.chunks i = some c := hc
    exact hlocal ((retry_ok_iff (hd.accepts (ht.find hc)) env c.retries).mp
      ((serviceRetry_ok_iff hchunk).mp (hdurable.handled _ hdue)))
  | retryDelay env i => exact hnot trivial
  | returnAsyncActive env i response =>
    have hi : s.outstanding i ≠ none := by rcases hen with hi | hi <;> (rw [hi]; simp)
    obtain ⟨x, hx⟩ := Option.ne_none_iff_exists'.mp fun hnone => hi ((hd.outstanding_iff i).mpr hnone)
    obtain ⟨c, hc, rfl⟩ := Option.map_eq_some_iff.mp ((ht.stored i).trans hx)
    have hacc := hd.accepts (ht.find hc)
    have hheld : c.request.Holds c.request := (ServiceRequest.holds_iff hacc).mpr rfl
    have hmem : c.request ∈ requests ++ (ServiceEvent.returnAsyncActive env i response).accepts :=
      List.mem_append_left _ (hk.stored (ht.find hc))
    cases hr : c.request with
    | destinationRequest call content timeout transId pid =>
      rw [hr] at hacc
      exact hnot hacc
    | bothResponse name content timeout transId =>
      rw [hr] at hacc
      exact hacc
    | bothRequest name content timeout transId nextName nextTransId =>
      rw [hr] at hacc
      have hF : responseUpdate response c.request =
          some (nextTransId, .bothResponse nextName response timeout nextTransId) := by rw [hr]; rfl
      have hnext : c.request.next = some nextTransId := by rw [hr]; rfl
      have hne : nextTransId ≠ i := (hd.next (ht.find hc) hnext).2.1
      rw [ServiceEvent.apply, serviceReturn, show cfg.mode = .both from hacc] at ha
      simp only [update_eq hc hF] at ha
      cases ha
      -- the log has the response beside the request now
      have hstored := storeStart_request encode (.bothResponse nextName response timeout nextTransId) s.log
      have hchunks := eraseChunk_chunks c
        { (storeStart encode (.bothResponse nextName response timeout nextTransId) s.log).2 with
          chunks := s.log.chunks.store nextTransId
            (storeStart encode (.bothResponse nextName response timeout nextTransId) s.log).1 }
      have hstale := (congrFun hchunks i).trans ((Dict.store_of_ne hne.symm _ _).trans hc)
      have hnew := (congrFun hchunks nextTransId).trans (Dict.store_self _ _ _)
      rcases hdurable.stored_or_resolved c.request hmem with ⟨-, j, d, -, -, huniq⟩ | ⟨-, hgone⟩
      · refine hne ((huniq _ _ hnew ?_).trans (huniq _ _ hstale hheld).symm)
        rw [hstored.1]
        exact hnext
      · exact hgone _ _ hstale hheld

end CloudI.Queue
