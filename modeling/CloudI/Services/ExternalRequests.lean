import CloudI.Services.External

/-!
# Every request of an external service is settled once

`Inv` is kept by every step of a dispatcher (`inv_step`): the queue is in step
with its timers and with the ledger, and while the dispatcher is not busy
nothing waits and the OS process has no request. `requests_settled` is what it
says of each request.
-/

namespace CloudI.Services.External

open Incoming (Inv)

set_option linter.unusedSectionVars false

variable {TransId Pid Term Rate S : Type} [DecidableEq TransId] {rt : Runtime TransId Pid Term Rate}
  {out : Outside S} {σ σ' : System TransId Pid Term Rate S}

/-- The OS process may have a request; a planned update keeps the flag that it overrides. -/
def System.busy (σ : System TransId Pid Term Rate S) : Bool :=
  match σ.state.updatePlan with
  | some p => p.queueRequests
  | none => σ.state.queueRequests

/-- The OS process has polled and has no request. -/
structure System.Free (σ : System TransId Pid Term Rate S) : Prop where
  polling : σ.os.polling = false
  outstanding : σ.os.outstanding = none
  aspects : σ.state.aspectsRequestAfterF = none

structure SystemInv (σ : System TransId Pid Term Rate S) : Prop where
  incoming : Inv σ.ledger σ.state.incoming σ.timers
  plan : ∀ p, σ.state.updatePlan = some p → σ.state.queueRequests = true
  idle : σ.state.queueRequests = false → σ.state.incoming.held = []
  free : σ.busy = false → σ.Free
  polling : σ.os.polling = true → σ.os.outstanding = none ∧ σ.state.aspectsRequestAfterF = none
  aspects : σ.os.outstanding ≠ none → σ.state.aspectsRequestAfterF ≠ none
  waits : σ.waiting = true → ∃ p, σ.state.updatePlan = some p ∧ p.queueRequests = false

theorem SystemInv.init (o : Options Rate) (serviceState : S) :
    SystemInv (System.init o serviceState : System TransId Pid Term Rate S) where
  incoming := Incoming.inv_new
  plan p hp := by cases hp
  idle h := by cases h
  free h := by cases h
  polling _ := ⟨rfl, rfl⟩
  aspects h := absurd rfl h
  waits h := by cases h

/-! ## The queue is processed -/

/-- With no plan, nothing of the OS process matters but that it is free while nothing waits. -/
theorem SystemInv.of_no_plan (hin : Inv σ.ledger σ.state.incoming σ.timers) (hplan : σ.state.updatePlan = none)
    (hidle : σ.state.queueRequests = false → σ.state.incoming.held = [] ∧ σ.Free)
    (hpoll : σ.os.polling = true → σ.os.outstanding = none ∧ σ.state.aspectsRequestAfterF = none)
    (hasp : σ.os.outstanding ≠ none → σ.state.aspectsRequestAfterF ≠ none) (hwait : σ.waiting = false) :
    SystemInv σ where
  incoming := hin
  plan p hp := by
    rw [hplan] at hp
    cases hp
  idle h := (hidle h).1
  free h := by
    rw [System.busy, hplan] at h
    exact (hidle h).2
  polling := hpoll
  aspects := hasp
  waits h := absurd (hwait.symm.trans h) Bool.false_ne_true

theorem processQueue_inv (hin : Inv σ.ledger σ.state.incoming σ.timers) (hplan : σ.state.updatePlan = none)
    (hfree : σ.Free) (hwait : σ.waiting = false) (hr : processQueue out σ = .ok σ') : SystemInv σ' := by
  obtain ⟨hpoll, hout, hasp⟩ := hfree
  have hnot : σ.os.polling ≠ true := Bool.eq_false_iff.mp hpoll
  rw [processQueue] at hr
  split at hr
  · rename_i hq
    split at hr
    · rename_i NewQueue hout1
      obtain ⟨hnil, hin'⟩ := Incoming.held_of_out_none hin hout1
      cases hr
      exact .of_no_plan hin' hplan (fun _ => ⟨hnil, hpoll, hout, hasp⟩) (fun h => absurd h hnot)
        (fun h => absurd hout h) hwait
    · rename_i Size T NewQueue hout1
      split at hr
      · obtain ⟨⟨Timeout, s', t'⟩, hs, hr⟩ := bind_eq_ok hr
        obtain ⟨Timeout₁, s₁, t₁, hs₁, hin', -⟩ := Incoming.start_spec hin hout1
        cases (mapError_eq_ok hs).symm.trans hs₁
        simp only at hr
        split at hr
        · cases hr
          exact .of_no_plan hin' hplan (fun h => absurd (h.symm.trans hq) Bool.false_ne_true)
            (fun h => absurd h hnot) (fun _ => Option.some_ne_none T) hwait
        · cases hr
      · cases hr
        exact .of_no_plan hin hplan (fun h => absurd (h.symm.trans hq) Bool.false_ne_true) (fun h => absurd h hnot)
          (fun h => absurd hout h) hwait
      · cases hr
        exact .of_no_plan hin hplan (fun h => absurd (h.symm.trans hq) Bool.false_ne_true) (fun h => absurd h hnot)
          (fun h => absurd hout h) hwait
  · cases hr

theorem processUpdate_inv {p : UpdatePlan Pid Rate S} (hin : Inv σ.ledger σ.state.incoming σ.timers)
    (hq : σ.state.queueRequests = true) (hfree : σ.Free) (hwait : σ.waiting = false)
    (hr : processUpdate rt out p σ = .ok σ') : SystemInv σ' := by
  rw [processUpdate] at hr
  have hfree' : ∀ {σ₁ : System TransId Pid Term Rate S}, σ₁.os = σ.os →
      σ₁.state.aspectsRequestAfterF = σ.state.aspectsRequestAfterF → σ₁.Free := fun ho ha =>
    ⟨ho ▸ hfree.polling, ho ▸ hfree.outstanding, ha ▸ hfree.aspects⟩
  split at hr
  · cases hr
  · split at hr
    · cases hr
    · rename_i hpq
      split at hr
      · exact processQueue_inv (by exact hin) rfl (by exact hfree' rfl rfl) (by exact hwait) hr
      · split at hr
        · exact processQueue_inv (by exact hin) rfl (by exact hfree' rfl rfl) (by exact hwait) hr
        · split at hr
          · split at hr
            · cases hr
              exact ⟨hin, fun _ _ => hq, fun h => absurd (h.symm.trans hq) Bool.false_ne_true,
                fun _ => ⟨hfree.polling, hfree.outstanding, hfree.aspects⟩,
                fun _ => ⟨hfree.outstanding, hfree.aspects⟩, fun h => absurd hfree.outstanding h,
                fun _ => ⟨p, rfl, Bool.eq_false_iff.mpr hpq⟩⟩
            · cases hr
          · split at hr
            · exact processQueue_inv (by exact hin) rfl (by exact hfree' rfl rfl) (by exact hwait) hr
            · cases hr

theorem processQueues_inv (hin : Inv σ.ledger σ.state.incoming σ.timers)
    (hplan : ∀ p, σ.state.updatePlan = some p → σ.state.queueRequests = true) (hfree : σ.Free)
    (hwait : σ.waiting = false) (hr : processQueues rt out σ = .ok σ') : SystemInv σ' := by
  rw [processQueues] at hr
  split at hr
  · rename_i p hp
    simp only at hr
    split at hr
    · refine processUpdate_inv ?_ ?_ ?_ ?_ hr
      · exact hin
      · exact hplan p hp
      · exact ⟨hfree.1, hfree.2, hfree.3⟩
      · exact hwait
    · cases hr
      refine ⟨hin, fun _ _ => hplan p hp, fun h => ?_, fun _ => ⟨hfree.1, hfree.2, hfree.3⟩,
        fun _ => ⟨hfree.2, hfree.3⟩, fun h => absurd hfree.outstanding h,
        fun h => absurd (hwait.symm.trans h) Bool.false_ne_true⟩
      rw [show σ.state.queueRequests = false from h] at hplan
      cases hplan p hp
  · rename_i hp
    exact processQueue_inv hin hp hfree hwait hr

/-! ## The messages -/

theorem sendRequest_inv {T : Request TransId Pid Term} (h : SystemInv σ) (hwait : σ.waiting = false)
    (hT : T.transId ∉ σ.ledger.accepted) (hr : sendRequest rt out T σ = .ok σ') : SystemInv σ' := by
  have hrefuse : ∀ o, SystemInv (refuse o T σ) := fun o =>
    ⟨h.incoming, h.plan, h.idle, fun hb => ⟨(h.free hb).1, (h.free hb).2, (h.free hb).3⟩, h.polling, h.aspects, h.waits⟩
  rw [sendRequest] at hr
  split at hr
  · cases hr
    exact hrefuse _
  · simp only at hr
    split at hr
    · rename_i hq
      split at hr
      · obtain ⟨⟨s', t'⟩, hs, hr⟩ := bind_eq_ok hr
        obtain ⟨s₁, t₁, hs₁, hin', -⟩ := Incoming.recvTimeoutStart_spec h.incoming hT T.timeout
          (queueLimits rt σ.state.options T σ.state.incoming).2
        cases (mapError_eq_ok hs).symm.trans hs₁
        cases hr
        exact ⟨hin', h.plan, fun hf => absurd (hf.symm.trans hq) Bool.false_ne_true,
          fun hb => ⟨(h.free hb).1, (h.free hb).2, (h.free hb).3⟩, h.polling, h.aspects, h.waits⟩
      · cases hr
        exact hrefuse _
    · rename_i hq
      have hplan : σ.state.updatePlan = none := by
        cases hp : σ.state.updatePlan with
        | none => rfl
        | some p => exact absurd (h.plan p hp) hq
      have hfree : σ.Free := h.free (by rw [System.busy, hplan]; exact Bool.eq_false_iff.mpr hq)
      split at hr
      · split at hr
        · split at hr
          · cases hr
            refine .of_no_plan (h.incoming.startNow hT) hplan (fun hf => ?_)
              (fun hp => absurd (hp.symm.trans hfree.polling) Bool.false_ne_true.symm) (fun _ => Option.some_ne_none T)
              hwait
            cases hf
          · cases hr
        · cases hr
      · cases hr
        exact hrefuse _

theorem polling_inv {a : Aspects S} (h : SystemInv σ) (hwait : σ.waiting = false) (he : σ.os.polling = true)
    (hr : polling rt out a σ = .ok σ') :
    SystemInv σ' := by
  unfold polling at hr
  split at hr
  · refine processQueues_inv ?_ ?_ ?_ ?_ hr
    · exact h.incoming
    · exact h.plan
    · exact ⟨rfl, (h.polling he).1, (h.polling he).2⟩
    · exact hwait
  · cases hr

theorem response_inv {a : Aspects S} (h : SystemInv σ) (hwait : σ.waiting = false)
    (hr : response rt out a σ = .ok σ') : SystemInv σ' := by
  unfold response at hr
  split at hr
  · rename_i ha
    refine processQueues_inv ?_ ?_ ?_ ?_ hr
    · exact h.incoming
    · exact h.plan
    · refine ⟨Bool.eq_false_iff.mpr fun hp => ?_, rfl, rfl⟩
      exact absurd (ha.symm.trans (h.polling hp).2) (Option.some_ne_none _)
    · exact hwait
  · cases hr

theorem update_inv {P : Pid} {p : UpdatePlan Pid Rate S} (h : SystemInv σ) (hwait : σ.waiting = false) :
    SystemInv (update P p σ) := by
  rw [update]
  split
  · exact h
  · rename_i hp
    split
    · refine ⟨h.incoming, fun _ _ => rfl, fun hf => ?_, fun hb => ?_, h.polling, h.aspects,
        fun hw => absurd (hwait.symm.trans hw) Bool.false_ne_true⟩
      · cases hf
      · have hb : σ.busy = false := by
          rw [System.busy, hp]
          exact (planUpdate_queueRequests P p σ.state.queueRequests).symm.trans hb
        exact ⟨(h.free hb).1, (h.free hb).2, (h.free hb).3⟩
    · exact ⟨h.incoming, h.plan, h.idle, fun hb => ⟨(h.free hb).1, (h.free hb).2, (h.free hb).3⟩, h.polling,
          h.aspects, h.waits⟩

theorem updateNow_inv {P : Pid} {b : Bool} (h : SystemInv σ) (hwait : σ.waiting = false)
    (hr : updateNow rt out P b σ = .ok σ') :
    SystemInv σ' := by
  rw [updateNow] at hr
  split at hr
  · cases hr
  · rename_i p hp
    have hq := h.plan p hp
    simp only at hr
    split at hr
    · rename_i hpq
      cases hr
      refine ⟨h.incoming, fun _ _ => hq, h.idle, fun hb => ?_, h.polling, h.aspects,
        fun hw => absurd (hwait.symm.trans hw) Bool.false_ne_true⟩
      exact absurd (hb.symm.trans hpq) Bool.false_ne_true
    · rename_i hpq
      have hfree := h.free (by rw [System.busy, hp]; exact Bool.eq_false_iff.mpr hpq)
      refine processUpdate_inv ?_ ?_ ?_ ?_ hr
      · exact h.incoming
      · exact hq
      · exact ⟨hfree.1, hfree.2, hfree.3⟩
      · exact hwait

/-- The dispatcher that waited has a new OS process, which will poll. -/
theorem updateAfter_inv {Result : Bool} (h : SystemInv σ) (hwait : σ.waiting = true)
    (hr : updateAfter rt out Result σ = .ok σ') : SystemInv σ' := by
  obtain ⟨p, hp, hpq⟩ := h.waits hwait
  have hfree := h.free (by rw [System.busy, hp]; exact hpq)
  rw [updateAfter, hp] at hr
  dsimp only at hr
  split at hr
  · cases hr
    exact .of_no_plan h.incoming rfl (fun hf => absurd (hf.symm.trans (h.plan p hp)) Bool.false_ne_true)
      (fun _ => ⟨rfl, hfree.aspects⟩) (fun hn => absurd rfl hn) rfl
  · cases hr

theorem Event.inv {e : Event TransId Pid Term Rate S} (h : SystemInv σ) (he : e.Enabled σ)
    (hr : e.apply rt out σ = .ok σ') : SystemInv σ' := by
  -- a change of the name of the state or of `ready` leaves what the invariant is about
  have hname : ∀ n b, SystemInv { σ with state := { σ.state with stateName := n, ready := b } } := fun n b =>
    ⟨h.incoming, h.plan, h.idle, fun hb => ⟨(h.free hb).1, (h.free hb).2, (h.free hb).3⟩, h.polling, h.aspects, h.waits⟩
  cases e with
  | osInit =>
    rw [Event.apply, External.osInit] at hr
    split at hr
    · cases hr
      exact hname _ _
    · split at hr
      · cases hr
        exact hname _ _
      · cases hr
    · cases hr
  | monitorReady =>
    rw [Event.apply, External.monitorReady] at hr
    split at hr
    · cases hr
      exact hname _ _
    · split at hr
      · cases hr
        exact hname _ _
      · cases hr
    · cases hr
  | polling a => exact polling_inv h he.1 he.2 hr
  | request T => exact sendRequest_inv h he.1 he.2 hr
  | response a => exact response_inv h he hr
  | update P p =>
    cases hr
    exact update_inv h he
  | updateNow P b => exact updateNow_inv h he hr
  | updateAfter b => exact updateAfter_inv h he hr
  | exit => cases hr

/-- The timeout of a request that waits removes it, whatever the dispatcher does at the time. -/
theorem recvTimeout_settles (h : SystemInv σ) {m : RecvTimeout TransId} {t : RecvTimers TransId}
    (hm : Timers.Receive m σ.timers t) (hi : m.transId ∈ σ.state.incoming.ids) :
    ∃ σ', recvTimeout m { σ with timers := t } = .ok σ' ∧ SystemInv σ' ∧ m.transId ∈ σ'.ledger.timedOut := by
  have hq : σ.state.queueRequests = true := by
    by_contra hf
    rw [Incoming.ids, h.idle (Bool.eq_false_iff.mpr hf)] at hi
    cases hi
  obtain ⟨s', hs, hin', -⟩ := Incoming.recvTimeout_hit h.incoming hm hi
  refine ⟨{ σ with
    state := { σ.state with incoming := s' }
    timers := t
    ledger := { σ.ledger with timedOut := m.transId :: σ.ledger.timedOut } }, ?_,
    ⟨hin', h.plan, fun hf => ?_, fun hb => ?_, h.polling, h.aspects, h.waits⟩, List.mem_cons_self⟩
  · rw [recvTimeout]
    simp only
    rw [hq, hs]
    rfl
  · exact absurd (hf.symm.trans hq) Bool.false_ne_true
  · exact ⟨(h.free hb).1, (h.free hb).2, (h.free hb).3⟩

theorem recvTimeout_inv (h : SystemInv σ) {m : RecvTimeout TransId} {t : RecvTimers TransId}
    (hm : Timers.Receive m σ.timers t) (hr : recvTimeout m { σ with timers := t } = .ok σ') : SystemInv σ' := by
  by_cases hi : m.transId ∈ σ.state.incoming.ids
  · obtain ⟨σ₁, hr₁, h₁, -⟩ := recvTimeout_settles h hm hi
    cases hr.symm.trans hr₁
    exact h₁
  · obtain ⟨s', hs, hin', hheld⟩ := Incoming.recvTimeout_miss h.incoming hm hi σ.state.queueRequests
    rw [recvTimeout, hs] at hr
    cases hr
    exact ⟨hin', h.plan, fun hf => hheld.trans (h.idle hf), fun hb => ⟨(h.free hb).1, (h.free hb).2, (h.free hb).3⟩,
      h.polling, h.aspects, h.waits⟩

/-! ## Every run -/

theorem inv_step (h : SystemInv σ) (hs : Step rt σ σ') : SystemInv σ' := by
  cases hs with
  | event e out he hr => exact Event.inv h he hr
  | recvTimeout _ hm hr => exact recvTimeout_inv h hm hr
  | elapse ht =>
    exact ⟨h.incoming.elapse ht, h.plan, h.idle, fun hb => ⟨(h.free hb).1, (h.free hb).2, (h.free hb).3⟩,
      h.polling, h.aspects, h.waits⟩

theorem Reachable.inv (h : Reachable rt σ) : SystemInv σ := by
  induction h with
  | init o s => exact .init o s
  | step _ hs ih => exact inv_step ih hs

/-- In every state reached: a dispatcher that does not queue requests has none
queued and its OS process has none; the timers kept are those of the requests
queued, and the size is theirs; every request accepted is queued, or was
written to the OS process, or was removed by its timeout, and only one of
these, once; and the timeout of one that is queued is still to come, and will
remove it. -/
theorem requests_settled (h : Reachable rt σ) :
    (σ.state.queueRequests = false → σ.state.incoming.held = [] ∧ σ.os.outstanding = none) ∧
    (∀ i, σ.state.incoming.recvTimeouts i ≠ none ↔ i ∈ σ.state.incoming.ids) ∧
    σ.state.incoming.queuedSize = (σ.state.incoming.held.map Prod.fst).sum ∧
    σ.ledger.accepted.Nodup ∧
    σ.ledger.accepted.Perm (σ.state.incoming.ids ++ (σ.ledger.started ++ σ.ledger.timedOut)) ∧
    (∀ x ∈ σ.state.incoming.held, ∃ ref, σ.state.incoming.recvTimeouts x.2.transId = some ref ∧
      σ.timers.Pending ref (timeoutOf x)) ∧
    ∀ x ∈ σ.state.incoming.held, ∀ t, Timers.Receive (timeoutOf x) σ.timers t →
      ∃ σ', recvTimeout (timeoutOf x) { σ with timers := t } = .ok σ' ∧ x.2.transId ∈ σ'.ledger.timedOut := by
  have hinv := h.inv
  refine ⟨fun hq => ⟨hinv.idle hq, ?_⟩, hinv.incoming.keys, hinv.incoming.size, hinv.incoming.nodup,
    hinv.incoming.ledger, hinv.incoming.timer, fun x hx t ht => ?_⟩
  · cases hp : σ.state.updatePlan with
    | none => exact (hinv.free (by rw [System.busy, hp]; exact hq)).outstanding
    | some p => exact absurd (hq.symm.trans (hinv.plan p hp)) Bool.false_ne_true
  · obtain ⟨σ', hr, -, hm⟩ := recvTimeout_settles hinv ht (Incoming.mem_ids.mpr ⟨x, hx, rfl⟩)
    exact ⟨σ', hr, hm⟩

theorem requests_settled_waiting :
    ∃ σ : System Nat Nat Nat Nat Unit, σ.ledger.accepted = [7] ∧
      ∀ x ∈ σ.state.incoming.held, ∃ ref, σ.state.incoming.recvTimeouts x.2.transId = some ref ∧
        σ.timers.Pending ref (timeoutOf x) := by
  have hr : Reachable (⟨fun _ => true, fun _ => 0, fun r => (true, r), id⟩ : Runtime Nat Nat Nat Nat) _ :=
    .step (.init ⟨none, none, none, 0⟩ ()) (.event (.request
      (⟨.sendAsync, [], [], 0, 0, 10, ⟨0, by decide, by decide⟩, 7, 0⟩ : Request Nat Nat Nat)) ⟨.raise, true, true⟩
      ⟨rfl, List.not_mem_nil⟩ rfl)
  exact ⟨_, rfl, (requests_settled hr).2.2.2.2.2.1⟩

end CloudI.Services.External
