import CloudI.Services.Internal

/-!
# The state of an internal service is passed on in series

`SystemInv` is kept by every step of an internal service (`inv_step`): its
flag and its plan say whether a callback is out, what was done to the service
state is a run of `Serial`, and the info messages and the service requests
accepted are in the queues or were handed to a callback. `serial_state` is
what it says of every run.
-/

namespace CloudI.Services.Internal

open Incoming (Inv)

set_option linter.unusedSectionVars false

variable {TransId Pid Term Rate S : Type} [DecidableEq TransId] {rt : Runtime TransId Pid Term Rate} {mode : Mode}
  {out : Outside Term S} {σ σ' : System TransId Pid Term Rate S} {s₀ : S}

/-! ## The workers -/

/-- A worker that the process knows lives. -/
def Live (pid : Option Nat) (uses : Dict Nat (Option Nat)) : Prop := ∀ p, pid = some p → uses p ≠ none

/-- The two workers that the process knows are different ones. -/
structure Pids (pid other : Option Nat) (next : Nat) : Prop where
  lt : ∀ p, pid = some p → p < next
  other_lt : ∀ p, other = some p → p < next
  ne : ∀ p, pid = some p → other ≠ some p

/-- No callback is out, and the service state is `s`. -/
structure Calm (s₀ : S) (W : Workers TransId Pid Term S) (pid other : Option Nat) (s : S) : Prop where
  running : W.running = []
  results : W.results = []
  live : Live pid W.uses
  otherLive : Live other W.uses
  pids : Pids pid other W.next
  run : Serial.Run ⟨s₀, none⟩ W.trace ⟨s, none⟩
  updates : ∀ n ∈ W.updates, n = 0

/-- The callback of `w` is the one that is out, and did not return yet. -/
structure Calling (s₀ : S) (W : Workers TransId Pid Term S) (pid other : Option Nat) (s : S)
    (w : Work TransId Pid Term S) : Prop where
  running : W.running = [w]
  results : W.results = []
  live : Live pid W.uses
  otherLive : Live other W.uses
  pids : Pids pid other W.next
  run : Serial.Run ⟨s₀, none⟩ W.trace ⟨s, some w.callback⟩
  updates : ∀ n ∈ W.updates, n = 0

/-- The callback that is out returned with `r`, which was not received yet. -/
structure Returned (s₀ : S) (W : Workers TransId Pid Term S) (pid other : Option Nat)
    (r : Result TransId Pid Term S) : Prop where
  running : W.running = []
  results : W.results = [r]
  live : ∀ p, pid = some p → (r.exits = true → p ≠ r.pid) → W.uses p ≠ none
  otherLive : ∀ p, other = some p → (r.exits = true → p ≠ r.pid) → W.uses p ≠ none
  pids : Pids pid other W.next
  run : Serial.Run ⟨s₀, none⟩ W.trace ⟨r.serviceState, none⟩
  updates : ∀ n ∈ W.updates, n = 0

/-- The worker for the callback. -/
def Owner (mode : Mode) (requestPid infoPid : Option Nat) (pid : Nat) : Callback TransId Pid Term → Prop
  | .request _ => requestPid = some pid
  | .info _ => infoPid = some pid ∧ mode = .normal

/-- One callback is out, of the worker for it. -/
def Busy (s₀ : S) (mode : Mode) (W : Workers TransId Pid Term S) (requestPid infoPid : Option Nat) (s : S) : Prop :=
  (∃ w, Calling s₀ W requestPid infoPid s w ∧ Owner mode requestPid infoPid w.pid w.callback) ∨
  ∃ r, Returned s₀ W requestPid infoPid r ∧ Owner mode requestPid infoPid r.pid r.callback

variable {W : Workers TransId Pid Term S} {pid other : Option Nat} {s : S}

theorem Pids.symm {n : Nat} (h : Pids pid other n) : Pids other pid n where
  lt := h.other_lt
  other_lt := h.lt
  ne p ho hp := h.ne p hp ho

theorem Calm.symm (h : Calm s₀ W pid other s) : Calm s₀ W other pid s :=
  ⟨h.running, h.results, h.otherLive, h.live, h.pids.symm, h.run, h.updates⟩

theorem Calling.symm {w : Work TransId Pid Term S} (h : Calling s₀ W pid other s w) : Calling s₀ W other pid s w :=
  ⟨h.running, h.results, h.otherLive, h.live, h.pids.symm, h.run, h.updates⟩

/-- A callback that is started reaches a worker. -/
theorem Calm.loopPid (h : Calm s₀ W pid other s) (Uses : Option Nat) (c : Callback TransId Pid Term) :
    Calling s₀ (W.loopPid pid Uses c s).2 (some (W.loopPid pid Uses c s).1) other s
      ⟨(W.loopPid pid Uses c s).1, c, s⟩ := by
  have hother : ∀ p, other = some p → p ≠ W.next := fun p hp => Nat.ne_of_lt (h.pids.other_lt p hp)
  cases pid with
  | none =>
    constructor
    case running =>
      show W.running ++ _ = _
      rw [h.running]
      rfl
    case results => exact h.results
    case live =>
      intro p hp
      obtain rfl := Option.some.inj hp
      show W.uses.store W.next Uses W.next ≠ none
      rw [Dict.store, Function.update_self]
      exact Option.some_ne_none _
    case otherLive =>
      intro p hp
      show W.uses.store W.next Uses p ≠ none
      rw [Dict.store, Function.update_of_ne (hother p hp)]
      exact h.otherLive p hp
    case pids =>
      refine ⟨fun p hp => ?_, fun p hp => ?_, fun p hp ho => ?_⟩
      · exact Option.some.inj hp ▸ Nat.lt_succ_self _
      · exact Nat.lt_succ_of_lt (h.pids.other_lt p hp)
      · exact hother p ho (Option.some.inj hp).symm
    case run => exact h.run.snoc (.started c s)
    case updates => exact h.updates
  | some p =>
    have hp : W.uses p ≠ none := h.live p rfl
    have hsent : W.loopPid (some p) Uses c s = (p, W.send p c s) := by
      rw [Workers.loopPid, if_neg hp]
    rw [hsent]
    constructor
    case running =>
      show W.running ++ _ = _
      rw [h.running]
      rfl
    case results => exact h.results
    case live => exact h.live
    case otherLive => exact h.otherLive
    case pids => exact h.pids
    case run => exact h.run.snoc (.started c s)
    case updates => exact h.updates

/-- Only the trace and the messages are changed by a message to a worker that lives. -/
theorem Calm.loopPid_trace (h : Calm s₀ W pid other s) (Uses : Option Nat) (c : Callback TransId Pid Term) :
    (W.loopPid pid Uses c s).2.trace = W.trace ++ [.started c s] := by
  cases pid with
  | none => rfl
  | some p =>
    have hp : W.uses p ≠ none := h.live p rfl
    rw [Workers.loopPid, if_neg hp]
    rfl

/-- A worker that is not known any more was told to exit. -/
theorem Calm.stop (h : Calm s₀ W pid other s) (b : Prop) [Decidable b] :
    Calm s₀ (W.stop (if b then pid else none)) (if b then none else pid) other s := by
  by_cases hb : b
  · rw [if_pos hb, if_pos hb]
    have hno : ∀ p : Nat, none ≠ some p := fun p => (Option.some_ne_none p).symm
    have hnone : Pids none other W.next := ⟨fun p hp => absurd hp (hno p), h.pids.other_lt, fun p hp =>
        absurd hp (hno p)⟩
    cases pid with
    | none => exact ⟨h.running, h.results, h.live, h.otherLive, hnone, h.run, h.updates⟩
    | some q =>
      refine ⟨h.running, h.results, fun p hp => absurd hp (hno p), fun p hp => ?_, hnone, h.run, h.updates⟩
      show W.uses.erase q p ≠ none
      have hpq : p ≠ q := fun he => h.pids.ne q rfl (he ▸ hp)
      rw [Dict.erase, Function.update_of_ne hpq]
      exact h.otherLive p hp
  · rw [if_neg hb, if_neg hb]
    exact h

/-- The worker returns. -/
theorem Calling.finish {w w' : Work TransId Pid Term S} {l₁ l₂ : List (Work TransId Pid Term S)}
    (h : Calling s₀ W pid other s w) (hl : W.running = l₁ ++ w' :: l₂) (Uses : Option Nat) (success : Bool) (s' : S) :
    w' = w ∧ ∃ r, r.pid = w.pid ∧ r.callback = w.callback ∧
      Returned s₀ (W.finish w' l₁ l₂ Uses success s') pid other r := by
  rw [h.running] at hl
  obtain ⟨rfl, hl⟩ := List.append_eq_singleton_iff.mp hl.symm |>.resolve_right fun hr => by cases hr.2
  obtain ⟨rfl, rfl⟩ := List.cons.inj hl
  have huses : ∀ p, W.uses p ≠ none → (decide (Uses = some 1) = true → p ≠ w.pid) →
      (W.finish w [] [] Uses success s').uses p ≠ none := by
    intro p hp he
    show (if Uses = some 1 then W.uses.erase w.pid else W.uses.store w.pid (Uses.map fun n => n - 1)) p ≠ none
    split
    · rename_i hone
      rw [Dict.erase, Function.update_of_ne (he (decide_eq_true hone))]
      exact hp
    · by_cases hpw : p = w.pid
      · rw [hpw, Dict.store, Function.update_self]
        exact Option.some_ne_none _
      · rw [Dict.store, Function.update_of_ne hpw]
        exact hp
  refine ⟨rfl, ⟨w.pid, w.callback, success, s', Uses = some 1⟩, rfl, rfl, rfl, ?_, ?_, ?_, h.pids,
    h.run.snoc (.finished w.callback s s'), h.updates⟩
  · show W.results ++ _ = _
    rw [h.results]
    rfl
  · exact fun p hp => huses p (h.live p hp)
  · exact fun p hp => huses p (h.otherLive p hp)

/-! ## What was handed to the callbacks -/

/-- The info message that a callback was started with. -/
def handedInfo : Activity (Callback TransId Pid Term) S → Option Term
  | .started (.info Request) _ => some Request
  | _ => none

/-- The transaction id of the service request that a callback was started with. -/
def startedId : Activity (Callback TransId Pid Term) S → Option TransId
  | .started (.request T) _ => some T.transId
  | _ => none

/-- What was accepted is in the queues, or was handed to a callback or removed by its timeout. -/
structure Books (L : Ledger TransId) (incoming : Incoming TransId Pid Term) (t : RecvTimers TransId)
    (infos queuedInfo : List Term) (trace : List (Activity (Callback TransId Pid Term) S)) : Prop where
  incoming : Inv L incoming t
  infos : infos = trace.filterMap handedInfo ++ queuedInfo
  started : L.started = (trace.filterMap startedId).reverse

/-- A callback may be out; a planned update keeps the flag that it overrides. -/
def System.busy (σ : System TransId Pid Term Rate S) : Bool :=
  match σ.state.updatePlan with
  | some p => p.queueRequests
  | none => σ.state.queueRequests

abbrev System.Booked (σ : System TransId Pid Term Rate S) : Prop :=
  Books σ.ledger σ.state.incoming σ.timers σ.infos σ.state.queuedInfo σ.workers.trace

abbrev System.IsCalm (s₀ : S) (σ : System TransId Pid Term Rate S) : Prop :=
  Calm s₀ σ.workers σ.state.requestPid σ.state.infoPid σ.state.serviceState

abbrev System.IsBusy (s₀ : S) (mode : Mode) (σ : System TransId Pid Term Rate S) : Prop :=
  Busy s₀ mode σ.workers σ.state.requestPid σ.state.infoPid σ.state.serviceState

structure SystemInv (s₀ : S) (mode : Mode) (σ : System TransId Pid Term Rate S) : Prop where
  books : σ.Booked
  plan : ∀ p, σ.state.updatePlan = some p → σ.state.queueRequests = true ∧ σ.ready = true
  ready : σ.ready = false → σ.state.queueRequests = true
  idle : σ.state.queueRequests = false → σ.state.incoming.held = [] ∧ σ.state.queuedInfo = []
  calm : σ.ready = false ∨ σ.busy = false → σ.IsCalm s₀
  busy : σ.ready = true → σ.busy = true → σ.IsBusy s₀ mode

theorem SystemInv.init (o : Options Rate) (uses : PidUses) :
    SystemInv s₀ mode (System.init o uses s₀ : System TransId Pid Term Rate S) where
  books := ⟨Incoming.inv_new, rfl, rfl⟩
  plan p hp := absurd hp (Option.some_ne_none p).symm
  ready _ := rfl
  idle h := absurd h Bool.false_ne_true.symm
  calm _ := by
    have hno : ∀ p : Nat, none ≠ some p := fun p => (Option.some_ne_none p).symm
    exact ⟨rfl, rfl, fun p hp => absurd hp (hno p), fun p hp => absurd hp (hno p),
      ⟨fun p hp => absurd hp (hno p), fun p hp => absurd hp (hno p), fun p hp => absurd hp (hno p)⟩, .nil _,
      fun n hn => absurd hn List.not_mem_nil⟩
  busy h := absurd h Bool.false_ne_true

/-- A process with no plan that is ready. -/
theorem SystemInv.of_no_plan (hb : σ.Booked) (hplan : σ.state.updatePlan = none) (hready : σ.ready = true)
    (hidle : σ.state.queueRequests = false →
      σ.state.incoming.held = [] ∧ σ.state.queuedInfo = [] ∧ σ.IsCalm s₀)
    (hbusy : σ.state.queueRequests = true → σ.IsBusy s₀ mode) : SystemInv s₀ mode σ where
  books := hb
  plan p hp := by
    rw [hplan] at hp
    cases hp
  ready h := absurd (h.symm.trans hready) Bool.false_ne_true
  idle h := ⟨(hidle h).1, (hidle h).2.1⟩
  calm h := by
    have h := h.resolve_left fun h => absurd (h.symm.trans hready) Bool.false_ne_true
    rw [System.busy, hplan] at h
    exact (hidle h).2.2
  busy _ h := by
    rw [System.busy, hplan] at h
    exact hbusy h

variable {trace : List (Activity (Callback TransId Pid Term) S)} {infos queuedInfo : List Term}

/-- A callback for a request or an info message is started. -/
theorem Books.startRequest {L L' : Ledger TransId} {incoming incoming' : Incoming TransId Pid Term}
    {t t' : RecvTimers TransId} (h : Books L incoming t infos queuedInfo trace)
    (hin : Inv L' incoming' t') (T : Request TransId Pid Term) (hL : L'.started = T.transId :: L.started) :
    Books L' incoming' t' infos queuedInfo (trace ++ [.started (.request T) s]) where
  incoming := hin
  infos := by
    rw [List.filterMap_append, h.infos]
    exact congrArg (fun l => l ++ queuedInfo) (List.append_nil _).symm
  started := by
    rw [hL, h.started, List.filterMap_append, List.reverse_append]
    rfl

variable {t : RecvTimers TransId} {incoming : Incoming TransId Pid Term}

theorem Books.startInfo {L : Ledger TransId} {Request : Term}
    (h : Books L incoming t infos (Request :: queuedInfo) trace) :
    Books L incoming t infos queuedInfo (trace ++ [.started (.info Request) s]) where
  incoming := h.incoming
  infos := by
    rw [h.infos, List.filterMap_append, List.append_assoc]
    rfl
  started := by
    rw [h.started, List.filterMap_append]
    exact congrArg List.reverse (List.append_nil _).symm

/-- The end of a callback and an update are in no book. -/
theorem Books.unbooked {L : Ledger TransId} (h : Books L incoming t infos queuedInfo trace)
    {a : Activity (Callback TransId Pid Term) S} (hi : handedInfo a = none) (hs : startedId a = none) :
    Books L incoming t infos queuedInfo (trace ++ [a]) where
  incoming := h.incoming
  infos := by
    rw [h.infos, List.filterMap_append, List.filterMap_cons_none hi, List.filterMap_nil, List.append_nil]
  started := by
    rw [h.started, List.filterMap_append, List.filterMap_cons_none hs, List.filterMap_nil, List.append_nil]

/-! ## The queues are processed -/

theorem processQueue_inv (hb : σ.Booked) (hplan : σ.state.updatePlan = none) (hready : σ.ready = true)
    (hinfo : σ.state.queuedInfo = []) (hc : σ.IsCalm s₀) (hr : processQueue σ = .ok σ') : SystemInv s₀ mode σ' := by
  rw [processQueue] at hr
  split at hr
  · rename_i hq
    split at hr
    · rename_i NewQueue hout1
      obtain ⟨hnil, hin'⟩ := Incoming.held_of_out_none hb.incoming hout1
      rw [← Except.ok.inj hr]
      refine .of_no_plan ⟨hin', hb.infos, hb.started⟩ hplan hready (fun _ => ⟨hnil, hinfo, hc⟩) fun h => ?_
      exact absurd h Bool.false_ne_true
    · rename_i Size T NewQueue hout1
      obtain ⟨⟨Timeout, s', t'⟩, hs, hr⟩ := bind_eq_ok hr
      obtain ⟨Timeout₁, s₁, t₁, hs₁, hin', -⟩ := Incoming.start_spec hb.incoming hout1
      obtain ⟨rfl, h₁⟩ := Prod.mk.inj (Except.ok.inj ((mapError_eq_ok hs).symm.trans hs₁))
      obtain ⟨rfl, rfl⟩ := Prod.mk.inj h₁
      have hcall := hc.loopPid σ.state.pidUses.request (.request { T with timeout := Timeout })
      have htrace := hc.loopPid_trace σ.state.pidUses.request (.request { T with timeout := Timeout })
      rw [← Except.ok.inj hr]
      refine .of_no_plan ?_ hplan hready (fun h => absurd (h.symm.trans hq) Bool.false_ne_true) fun _ =>
        .inl ⟨_, hcall, rfl⟩
      show Books _ _ _ _ _ (σ.workers.loopPid _ _ _ _).2.trace
      rw [htrace]
      exact hb.startRequest hin' { T with timeout := Timeout } rfl
  · cases hr

/-- What processing the info messages leads to: a callback is out, or no info message is left. -/
structure Informed (s₀ : S) (mode : Mode) (σ : System TransId Pid Term Rate S) : Prop where
  books : σ.Booked
  plan : σ.state.updatePlan = none
  ready : σ.ready = true
  busy : σ.state.queueRequests = true → σ.IsBusy s₀ mode
  calm : σ.state.queueRequests = false → σ.state.queuedInfo = [] ∧ σ.IsCalm s₀

theorem callInfo_calm (hc : σ.IsCalm s₀) (Request : Term) (s : S) : (callInfo Request s σ).IsCalm s₀ :=
  ⟨hc.running, hc.results, hc.live, hc.otherLive, hc.pids,
    (hc.run.snoc (Serial.Step.started (Callback.info Request) _)).snoc (Serial.Step.finished _ _ s), hc.updates⟩

theorem duoProcessQueueInfo_informed {l : List Term} (hb : σ.Booked) (hplan : σ.state.updatePlan = none)
    (hready : σ.ready = true) (hl : σ.state.queuedInfo = l) (hc : σ.IsCalm s₀)
    (hr : duoProcessQueueInfo out l σ = .ok σ') : Informed s₀ mode σ' := by
  induction l generalizing σ with
  | nil =>
    rw [← Except.ok.inj hr]
    refine ⟨⟨hb.incoming, ?_, hb.started⟩, hplan, hready, fun h => absurd h Bool.false_ne_true, fun _ => ⟨rfl, hc⟩⟩
    exact hl ▸ hb.infos
  | cons Request l ih =>
    rw [duoProcessQueueInfo] at hr
    split at hr
    · rename_i NewServiceState _
      refine ih ?_ ?_ ?_ ?_ ?_ hr
      · have hb' := hb
        rw [System.Booked, hl] at hb'
        exact (hb'.startInfo).unbooked rfl rfl
      · exact hplan
      · exact hready
      · rfl
      · exact callInfo_calm (σ := { σ with state := { σ.state with queuedInfo := l } }) hc Request NewServiceState
    · cases hr

theorem processInfos_informed (hb : σ.Booked) (hplan : σ.state.updatePlan = none) (hready : σ.ready = true)
    (hc : σ.IsCalm s₀) (hr : processInfos mode out σ = .ok σ') : Informed s₀ mode σ' := by
  unfold processInfos at hr
  split at hr
  · rw [processQueueInfo] at hr
    split at hr
    · rename_i hq
      split at hr
      · rename_i hnil
        rw [← Except.ok.inj hr]
        exact ⟨hb, hplan, hready, fun h => absurd h Bool.false_ne_true, fun _ => ⟨hnil, hc⟩⟩
      · rename_i Request l hl
        have hcall := hc.symm.loopPid σ.state.pidUses.info (.info Request)
        have htrace := hc.symm.loopPid_trace σ.state.pidUses.info (.info Request)
        rw [← Except.ok.inj hr]
        refine ⟨?_, hplan, hready, fun _ => .inl ⟨_, hcall.symm, rfl, rfl⟩, fun h =>
          absurd (h.symm.trans hq) Bool.false_ne_true⟩
        show Books _ _ _ _ _ (σ.workers.loopPid _ _ _ _).2.trace
        rw [htrace]
        have hb' := hb
        rw [System.Booked, hl] at hb'
        exact hb'.startInfo
    · cases hr
  · split at hr
    · exact duoProcessQueueInfo_informed hb hplan hready rfl hc hr
    · cases hr

theorem processQueuesNoPlan_inv (hb : σ.Booked) (hplan : σ.state.updatePlan = none) (hready : σ.ready = true)
    (hc : σ.IsCalm s₀) (hr : processQueuesNoPlan mode out σ = .ok σ') : SystemInv s₀ mode σ' := by
  obtain ⟨σ₁, h₁, hr⟩ := bind_eq_ok hr
  have hi : Informed s₀ mode σ₁ := processInfos_informed hb hplan hready hc h₁
  simp only at hr
  split at hr
  · rename_i hq
    rw [← Except.ok.inj hr]
    exact .of_no_plan hi.books hi.plan hi.ready (fun h => absurd (h.symm.trans hq) Bool.false_ne_true) hi.busy
  · rename_i hq
    obtain ⟨hnil, hcalm⟩ := hi.calm (Bool.eq_false_iff.mpr hq)
    exact processQueue_inv (by exact hi.books) (by exact hi.plan) (by exact hi.ready) (by exact hnil)
      (by exact hcalm) hr

/-! ## Updates -/

theorem updated_calm (hc : σ.IsCalm s₀) (s : S) : (σ.updated s).IsCalm s₀ := by
  refine ⟨hc.running, hc.results, hc.live, hc.otherLive, hc.pids, hc.run.snoc (.updated _ s), fun n hn => ?_⟩
  rcases List.mem_append.mp hn with hn | hn
  · exact hc.updates n hn
  · rw [List.mem_singleton.mp hn, hc.running, hc.results]
    rfl

theorem updateState_calm (p : Plan Pid Rate S) (hc : σ.IsCalm s₀) : (updateState rt mode p σ).IsCalm s₀ :=
  ((hc.stop (PidKey.requestPidUses ∈ p.pidKeys ∨ PidKey.requestPidOptions ∈ p.pidKeys)).symm.stop
    (mode = .normal ∧ (PidKey.infoPidUses ∈ p.pidKeys ∨ PidKey.infoPidOptions ∈ p.pidKeys))).symm

theorem stop_trace (pid : Option Nat) (W : Workers TransId Pid Term S) : (W.stop pid).trace = W.trace := by
  cases pid <;> rfl

theorem updateState_trace (p : Plan Pid Rate S) :
    (updateState rt mode p σ).workers.trace = σ.workers.trace := by
  rw [updateState]
  exact (stop_trace _ _).trans (stop_trace _ _)

/-- An update changes nothing but the service state, the options and the workers. -/
theorem update_spec (p : Plan Pid Rate S) (hb : σ.Booked) (hc : σ.IsCalm s₀) :
    (update rt mode p σ).2.Booked ∧ (update rt mode p σ).2.IsCalm s₀ ∧ (update rt mode p σ).2.ready = σ.ready := by
  have hstate : ∀ s, ((updateState rt mode p σ).updated s).Booked ∧
      ((updateState rt mode p σ).updated s).IsCalm s₀ := by
    intro s
    refine ⟨?_, updated_calm (updateState_calm p hc) s⟩
    have htrace : (updateState rt mode p σ).workers.trace = σ.workers.trace := updateState_trace p
    have hb' : (updateState rt mode p σ).Booked := by
      rw [System.Booked, htrace]
      exact hb
    exact hb'.unbooked rfl rfl
  rw [update]
  split
  · exact ⟨hb, hc, rfl⟩
  · split
    · exact ⟨hb, hc, rfl⟩
    · split
      · exact ⟨(hstate _).1, (hstate _).2, rfl⟩
      · split
        · exact ⟨(hstate _).1, (hstate _).2, rfl⟩
        · exact ⟨hb.unbooked rfl rfl, updated_calm hc _, rfl⟩

theorem processUpdate_inv {p : Plan Pid Rate S} (hb : σ.Booked) (hready : σ.ready = true) (hc : σ.IsCalm s₀)
    (hr : processUpdate rt mode out p σ = .ok σ') : SystemInv s₀ mode σ' := by
  rw [processUpdate] at hr
  split at hr
  · cases hr
  · split at hr
    · cases hr
    · obtain ⟨hb', hc', hr'⟩ : (update rt mode p σ).2.Booked ∧ (update rt mode p σ).2.IsCalm s₀ ∧
          (update rt mode p σ).2.ready = σ.ready := update_spec p hb hc
      refine processQueuesNoPlan_inv ?_ ?_ ?_ ?_ hr
      · exact hb'
      · rfl
      · exact hr'.trans hready
      · exact hc'

theorem processQueues_inv (hb : σ.Booked) (hready : σ.ready = true)
    (hplan : ∀ p, σ.state.updatePlan = some p → σ.state.queueRequests = true) (hc : σ.IsCalm s₀)
    (hr : processQueues rt mode out σ = .ok σ') : SystemInv s₀ mode σ' := by
  rw [processQueues] at hr
  split at hr
  · rename_i p hp
    have hq := hplan p hp
    simp only at hr
    split at hr
    · refine processUpdate_inv ?_ ?_ ?_ hr
      · exact hb
      · exact hready
      · exact hc
    · rw [← Except.ok.inj hr]
      refine ⟨hb, fun _ _ => ⟨hq, hready⟩, fun _ => hq, fun h => ?_, fun _ => hc, fun _ h => ?_⟩
      · exact absurd (h.symm.trans hq) Bool.false_ne_true
      · have h : (planReady p.toUpdatePlan).1.queueRequests = true := h
        rw [planReady_queueRequests] at h
        cases h
  · rename_i hp
    exact processQueuesNoPlan_inv hb hp hready hc hr

/-! ## The messages -/

theorem SystemInv.no_plan (h : SystemInv s₀ mode σ) (hq : ¬ σ.state.queueRequests = true) :
    σ.state.updatePlan = none := by
  cases hp : σ.state.updatePlan with
  | none => rfl
  | some p => exact absurd (h.plan p hp).1 hq

/-- A process that does not queue is ready, and no callback is out. -/
theorem SystemInv.free (h : SystemInv s₀ mode σ) (hq : ¬ σ.state.queueRequests = true) :
    σ.ready = true ∧ σ.IsCalm s₀ := by
  refine ⟨?_, h.calm (.inr ?_)⟩
  · by_contra hr
    exact hq (h.ready (Bool.eq_false_iff.mpr hr))
  · rw [System.busy, h.no_plan hq]
    exact Bool.eq_false_iff.mpr hq

theorem initExecute_inv (h : SystemInv s₀ mode σ) (he : σ.ready = false)
    (hr : initExecute rt mode out σ = .ok σ') : SystemInv s₀ mode σ' := by
  refine processQueues_inv ?_ ?_ ?_ ?_ hr
  · exact h.books
  · rfl
  · exact fun p hp => (h.plan p hp).1
  · exact h.calm (.inl he)

theorem sendRequest_inv {T : Request TransId Pid Term} (h : SystemInv s₀ mode σ)
    (hT : T.transId ∉ σ.ledger.accepted) (hr : sendRequest rt T σ = .ok σ') : SystemInv s₀ mode σ' := by
  have hrefuse : ∀ o, SystemInv s₀ mode (refuse o T σ) := fun o =>
    ⟨h.books, h.plan, h.ready, h.idle, h.calm, h.busy⟩
  rw [sendRequest] at hr
  split at hr
  · rename_i hq
    split at hr
    · rw [← Except.ok.inj hr]
      exact hrefuse _
    · simp only at hr
      split at hr
      · obtain ⟨⟨s', t'⟩, hs, hr⟩ := bind_eq_ok hr
        obtain ⟨s₁, t₁, hs₁, hin', -⟩ := Incoming.recvTimeoutStart_spec h.books.incoming hT T.timeout
          (queueLimits rt σ.state.options T σ.state.incoming).2
        obtain ⟨rfl, rfl⟩ := Prod.mk.inj (Except.ok.inj ((mapError_eq_ok hs).symm.trans hs₁))
        rw [← Except.ok.inj hr]
        exact ⟨⟨hin', h.books.infos, h.books.started⟩, h.plan, h.ready,
          fun hf => absurd (hf.symm.trans hq) Bool.false_ne_true, h.calm, h.busy⟩
      · rw [← Except.ok.inj hr]
        exact hrefuse _
  · rename_i hq
    obtain ⟨hready, hc⟩ := h.free hq
    simp only at hr
    split at hr
    · have hcall := hc.loopPid σ.state.pidUses.request (.request T)
      have htrace := hc.loopPid_trace σ.state.pidUses.request (.request T)
      rw [← Except.ok.inj hr]
      refine .of_no_plan ?_ (h.no_plan hq) hready (fun hf => absurd hf Bool.false_ne_true.symm) fun _ =>
        .inl ⟨_, hcall, rfl⟩
      show Books _ _ _ _ _ (σ.workers.loopPid _ _ _ _).2.trace
      rw [htrace]
      exact h.books.startRequest (h.books.incoming.startNow hT) T rfl
    · rw [← Except.ok.inj hr]
      exact hrefuse _

/-- An info message that comes is behind those that wait. -/
theorem Books.arrive {L : Ledger TransId} (h : Books L incoming t infos queuedInfo trace) (Request : Term) :
    Books L incoming t (infos ++ [Request]) (queuedInfo ++ [Request]) trace where
  incoming := h.incoming
  infos := by rw [h.infos, List.append_assoc]
  started := h.started

theorem handleInfoMessage_inv {Request : Term} (h : SystemInv s₀ mode σ)
    (hr : handleInfoMessage mode out Request σ = .ok σ') : SystemInv s₀ mode σ' := by
  have hb := h.books.arrive Request
  simp only [handleInfoMessage] at hr
  split at hr
  · rename_i hq
    rw [← Except.ok.inj hr]
    exact ⟨hb, h.plan, h.ready, fun hf => absurd (hf.symm.trans hq) Bool.false_ne_true, h.calm, h.busy⟩
  · rename_i hq
    obtain ⟨hready, hc⟩ := h.free hq
    obtain ⟨hheld, hnil⟩ := h.idle (Bool.eq_false_iff.mpr hq)
    rw [hnil] at hb
    split at hr
    · have hcall := hc.symm.loopPid σ.state.pidUses.info (.info Request)
      have htrace := hc.symm.loopPid_trace σ.state.pidUses.info (.info Request)
      rw [← Except.ok.inj hr]
      refine .of_no_plan ?_ (h.no_plan hq) hready (fun hf => absurd hf Bool.false_ne_true.symm) fun _ =>
        .inl ⟨_, hcall.symm, rfl, rfl⟩
      show Books _ _ _ _ σ.state.queuedInfo (σ.workers.loopPid _ _ _ _).2.trace
      rw [htrace, hnil]
      exact hb.startInfo
    · split at hr
      · rename_i NewServiceState _
        rw [← Except.ok.inj hr]
        refine .of_no_plan ?_ (h.no_plan hq) hready (fun _ => ⟨hheld, hnil, callInfo_calm hc Request NewServiceState⟩)
          fun hf => absurd hf hq
        show Books _ _ _ _ σ.state.queuedInfo _
        rw [hnil]
        exact hb.startInfo.unbooked rfl rfl
      · cases hr

theorem planned_inv {P : Pid} {p : Plan Pid Rate S} {Request : Term} (h : SystemInv s₀ mode σ)
    (hready : σ.ready = true) (hr : planned mode out P p Request σ = .ok σ') : SystemInv s₀ mode σ' := by
  rw [planned] at hr
  split at hr
  · exact handleInfoMessage_inv h hr
  · rename_i hp
    rw [← Except.ok.inj hr]
    -- the plan keeps the flag
    have hbusy : ∀ b, (@planUpdate TransId _ _ _ P p.toUpdatePlan σ.state.queueRequests).1.queueRequests = b →
        σ.busy = b := fun b hb => by
      rw [System.busy, hp]
      exact (planUpdate_queueRequests P p.toUpdatePlan σ.state.queueRequests).symm.trans hb
    refine ⟨h.books, fun _ _ => ⟨rfl, hready⟩, fun _ => rfl, fun hf => absurd hf Bool.false_ne_true.symm, fun hb => ?_,
      fun _ hb => h.busy hready (hbusy true hb)⟩
    exact h.calm (.inr (hbusy false (hb.resolve_left fun hf => absurd (hf.symm.trans hready) Bool.false_ne_true)))

theorem updateNow_inv {P : Pid} {b : Bool} (h : SystemInv s₀ mode σ)
    (hr : updateNow rt mode out P b σ = .ok σ') : SystemInv s₀ mode σ' := by
  rw [updateNow] at hr
  split at hr
  · cases hr
  · rename_i p hp
    obtain ⟨hq, hready⟩ := h.plan p hp
    have hbusy : σ.busy = p.queueRequests := by rw [System.busy, hp]
    simp only at hr
    split at hr
    · rename_i hpq
      rw [← Except.ok.inj hr]
      refine ⟨h.books, fun _ _ => ⟨hq, hready⟩, fun _ => hq, h.idle, fun hf => ?_,
        fun _ _ => h.busy hready (hbusy.trans hpq)⟩
      have hf : p.queueRequests = false := hf.resolve_left fun hf => absurd (hf.symm.trans hready) Bool.false_ne_true
      exact absurd (hf.symm.trans hpq) Bool.false_ne_true
    · rename_i hpq
      refine processUpdate_inv ?_ ?_ ?_ hr
      · exact h.books
      · exact hready
      · exact h.calm (.inr (hbusy.trans (Bool.eq_false_iff.mpr hpq)))

/-- With a callback out, the process is ready and its flag is set. -/
theorem SystemInv.calling (h : SystemInv s₀ mode σ) (hc : ¬ σ.IsCalm s₀) :
    σ.ready = true ∧ σ.busy = true ∧ σ.IsBusy s₀ mode := by
  have hready : σ.ready = true := by
    by_contra hr
    exact hc (h.calm (.inl (Bool.eq_false_iff.mpr hr)))
  have hbusy : σ.busy = true := by
    by_contra hb
    exact hc (h.calm (.inr (Bool.eq_false_iff.mpr hb)))
  exact ⟨hready, hbusy, h.busy hready hbusy⟩

/-- The worker that exited is not known any more, and the other one lives. -/
theorem Returned.received {r : Result TransId Pid Term S} {st : State TransId Pid Term Rate S}
    (h : Returned s₀ σ.workers σ.state.requestPid σ.state.infoPid r)
    (hst : (if r.exits then resultExit mode r σ.state else some σ.state) = some st) :
    Calm s₀ { σ.workers with results := [] } st.requestPid st.infoPid r.serviceState ∧
      st = { σ.state with requestPid := st.requestPid, infoPid := st.infoPid } := by
  have hno : ∀ p : Nat, none ≠ some p := fun p => (Option.some_ne_none p).symm
  split at hst
  · unfold resultExit at hst
    split at hst
    · split at hst
      · rename_i hpid
        rw [← Option.some.inj hst]
        refine ⟨⟨h.running, rfl, fun p hp => absurd hp (hno p), fun p hp => ?_,
          ⟨fun p hp => absurd hp (hno p), h.pids.other_lt, fun p hp => absurd hp (hno p)⟩, h.run, h.updates⟩, rfl⟩
        exact h.otherLive p hp fun _ he => h.pids.ne _ hpid (he ▸ hp)
      · cases hst
    · split at hst
      · cases hst
      · split at hst
        · rename_i hpid
          rw [← Option.some.inj hst]
          refine ⟨⟨h.running, rfl, fun p hp => ?_, fun p hp => absurd hp (hno p),
            ⟨h.pids.lt, fun p hp => absurd hp (hno p), fun p _ => hno p⟩, h.run, h.updates⟩, rfl⟩
          exact h.live p hp fun _ he => h.pids.ne p hp (he ▸ hpid.1)
        · cases hst
  · rename_i hexits
    rw [← Option.some.inj hst]
    exact ⟨⟨h.running, rfl, fun p hp => h.live p hp fun he => absurd he hexits,
      fun p hp => h.otherLive p hp fun he => absurd he hexits, h.pids, h.run, h.updates⟩, rfl⟩

theorem result_inv {r : Result TransId Pid Term S} {l₁ l₂ : List (Result TransId Pid Term S)}
    (h : SystemInv s₀ mode σ) (hl : σ.workers.results = l₁ ++ r :: l₂)
    (hr : result rt mode out r { σ with workers := { σ.workers with results := l₁ ++ l₂ } } = .ok σ') :
    SystemInv s₀ mode σ' := by
  have hcalm : ¬ σ.IsCalm s₀ := fun hc => by
    rw [hc.results] at hl
    exact List.append_ne_nil_of_right_ne_nil l₁ (List.cons_ne_nil r l₂) hl.symm
  obtain ⟨hready, -, hbusy⟩ := h.calling hcalm
  rcases hbusy with ⟨w, hw, -⟩ | ⟨r', hret, -⟩
  · rw [hw.results] at hl
    exact absurd hl.symm (List.append_ne_nil_of_right_ne_nil l₁ (List.cons_ne_nil r l₂))
  · rw [hret.results] at hl
    obtain ⟨rfl, hl⟩ := List.append_eq_singleton_iff.mp hl.symm |>.resolve_right fun hr => by cases hr.2
    obtain ⟨rfl, rfl⟩ := List.cons.inj hl
    rw [result] at hr
    split at hr
    · cases hr
    · rename_i st hst
      split at hr
      · obtain ⟨hc, hst'⟩ := hret.received hst
        have hq : ∀ p, st.updatePlan = some p → st.queueRequests = true := fun p hp => by
          rw [hst'] at hp ⊢
          exact (h.plan p hp).1
        have hb : Books σ.ledger st.incoming σ.timers σ.infos st.queuedInfo σ.workers.trace := by
          rw [hst']
          exact h.books
        refine processQueues_inv ?_ ?_ ?_ ?_ hr
        · exact hb
        · exact hready
        · exact hq
        · exact hc
      · cases hr

/-- A worker returns. -/
theorem work_inv {w : Work TransId Pid Term S} {l₁ l₂ : List (Work TransId Pid Term S)} {Uses : Option Nat}
    {success : Bool} {s : S} (h : SystemInv s₀ mode σ) (hl : σ.workers.running = l₁ ++ w :: l₂) :
    SystemInv s₀ mode { σ with workers := σ.workers.finish w l₁ l₂ Uses success s } := by
  have hcalm : ¬ σ.IsCalm s₀ := fun hc => by
    rw [hc.running] at hl
    exact List.append_ne_nil_of_right_ne_nil l₁ (List.cons_ne_nil w l₂) hl.symm
  obtain ⟨hready, hbusy, hout⟩ := h.calling hcalm
  refine ⟨h.books.unbooked rfl rfl, h.plan, h.ready, h.idle, fun hf => ?_, fun _ _ => ?_⟩
  · rcases hf with hf | hf
    · exact absurd (hf.symm.trans hready) Bool.false_ne_true
    · exact absurd (hf.symm.trans hbusy) Bool.false_ne_true
  · rcases hout with ⟨w', hw, ho⟩ | ⟨r, hret, -⟩
    · obtain ⟨rfl, r, hpid, hcb, hret⟩ := hw.finish hl Uses success s
      refine .inr ⟨r, hret, ?_⟩
      rw [hpid, hcb]
      exact ho
    · rw [hret.running] at hl
      exact absurd hl.symm (List.append_ne_nil_of_right_ne_nil l₁ (List.cons_ne_nil w l₂))

/-- The timeout of a request that waits removes it, whatever the process does at the time. -/
theorem recvTimeout_settles (h : SystemInv s₀ mode σ) {m : RecvTimeout TransId}
    (hm : Timers.Receive m σ.timers t) (hi : m.transId ∈ σ.state.incoming.ids) :
    ∃ σ', recvTimeout m { σ with timers := t } = .ok σ' ∧ SystemInv s₀ mode σ' ∧ m.transId ∈ σ'.ledger.timedOut := by
  have hq : σ.state.queueRequests = true := by
    by_contra hf
    rw [Incoming.ids, (h.idle (Bool.eq_false_iff.mpr hf)).1] at hi
    cases hi
  obtain ⟨s', hs, hin', -⟩ := Incoming.recvTimeout_hit h.books.incoming hm hi
  refine ⟨{ σ with
    state := { σ.state with incoming := s' }
    timers := t
    ledger := { σ.ledger with timedOut := m.transId :: σ.ledger.timedOut } }, ?_,
    ⟨⟨hin', h.books.infos, h.books.started⟩, h.plan, h.ready, fun hf => ?_, h.calm, h.busy⟩, List.mem_cons_self⟩
  · rw [recvTimeout]
    simp only
    rw [hq, hs]
    rfl
  · exact absurd (hf.symm.trans hq) Bool.false_ne_true

theorem recvTimeout_inv (h : SystemInv s₀ mode σ) {m : RecvTimeout TransId}
    (hm : Timers.Receive m σ.timers t) (hr : recvTimeout m { σ with timers := t } = .ok σ') :
    SystemInv s₀ mode σ' := by
  by_cases hi : m.transId ∈ σ.state.incoming.ids
  · obtain ⟨σ₁, hr₁, h₁, -⟩ := recvTimeout_settles h hm hi
    rw [← Except.ok.inj (hr₁.symm.trans hr)]
    exact h₁
  · obtain ⟨s', hs, hin', hheld⟩ := Incoming.recvTimeout_miss h.books.incoming hm hi σ.state.queueRequests
    rw [recvTimeout, hs] at hr
    rw [← Except.ok.inj hr]
    exact ⟨⟨hin', h.books.infos, h.books.started⟩, h.plan, h.ready,
      fun hf => ⟨hheld.trans (h.idle hf).1, (h.idle hf).2⟩, h.calm, h.busy⟩

/-! ## Every run -/

theorem Event.inv {e : Event TransId Pid Term Rate S} (h : SystemInv s₀ mode σ) (he : e.Enabled mode σ)
    (hr : e.apply rt mode out σ = .ok σ') : SystemInv s₀ mode σ' := by
  cases e with
  | initExecute => exact initExecute_inv h he hr
  | request T => exact sendRequest_inv h he.2 hr
  | info Request => exact handleInfoMessage_inv h hr
  | update P p Request => exact planned_inv h he hr
  | updateNow P b => exact updateNow_inv h hr
  | exit => cases hr

theorem Background.inv (h : SystemInv s₀ mode σ) (hs : Background rt mode σ σ') : SystemInv s₀ mode σ' := by
  cases hs with
  | work success s hl huses => exact work_inv h hl
  | result out hl hr => exact result_inv h hl hr
  | recvTimeout hm hr => exact recvTimeout_inv h hm hr
  | elapse ht =>
    exact ⟨⟨h.books.incoming.elapse ht, h.books.infos, h.books.started⟩, h.plan, h.ready, h.idle, h.calm, h.busy⟩

theorem inv_step (h : SystemInv s₀ mode σ) (hs : Step rt mode σ σ') : SystemInv s₀ mode σ' := by
  cases hs with
  | event e out he hr => exact Event.inv h he hr
  | background hs => exact hs.inv h

theorem Reachable.inv (h : Reachable rt mode s₀ σ) : SystemInv s₀ mode σ := by
  induction h with
  | init o uses => exact .init o uses
  | step _ hs ih => exact inv_step ih hs

/-- How many callbacks are out, of those that a worker calls. -/
def Workers.outstanding (W : Workers TransId Pid Term S) : Nat := W.running.length + W.results.length

theorem Calm.outstanding (h : Calm s₀ W pid other s) : W.outstanding = 0 := by
  rw [Workers.outstanding, h.running, h.results]
  rfl

theorem Busy.outstanding {requestPid infoPid : Option Nat} (h : Busy s₀ mode W requestPid infoPid s) :
    W.outstanding = 1 := by
  rcases h with ⟨w, hw, -⟩ | ⟨r, hr, -⟩
  · rw [Workers.outstanding, hw.running, hw.results]
    rfl
  · rw [Workers.outstanding, hr.running, hr.results]
    rfl

/-- One callback is out, or none, and what was done to the service state was done in series. -/
theorem SystemInv.serial (h : SystemInv s₀ mode σ) :
    σ.workers.outstanding ≤ 1 ∧ (∃ a, Serial.Run ⟨s₀, none⟩ σ.workers.trace a) ∧ ∀ n ∈ σ.workers.updates, n = 0 := by
  by_cases hc : σ.IsCalm s₀
  · exact ⟨hc.outstanding ▸ Nat.zero_le 1, ⟨_, hc.run⟩, hc.updates⟩
  · obtain ⟨-, -, hbusy⟩ := h.calling hc
    refine ⟨Nat.le_of_eq hbusy.outstanding, ?_⟩
    rcases hbusy with ⟨w, hw, -⟩ | ⟨r, hr, -⟩
    · exact ⟨⟨_, hw.run⟩, hw.updates⟩
    · exact ⟨⟨_, hr.run⟩, hr.updates⟩

/-- In every state reached: at most one callback is out; the callbacks and the
updates were done in series, each callback and each update on the service state
that the one before it left, and no callback was out at an update; the info
messages accepted are those handed to a callback, in this order, and those
that wait; every request accepted waits, or was handed to a callback, or was
removed by its timeout, and only one of these, once, and the timeout of one
that waits is still to come and will remove it; and nothing waits but for a
callback that is out, or for an update, or while the service initializes. -/
theorem serial_state (h : Reachable rt mode s₀ σ) :
    σ.workers.outstanding ≤ 1 ∧
    (∃ a, Serial.Run ⟨s₀, none⟩ σ.workers.trace a) ∧
    (∀ l₁ c s l₂, σ.workers.trace = l₁ ++ .started c s :: l₂ → s = Serial.lastState s₀ l₁) ∧
    (∀ l₁ s s' l₂, σ.workers.trace = l₁ ++ .updated s s' :: l₂ → s = Serial.lastState s₀ l₁) ∧
    (∀ n ∈ σ.workers.updates, n = 0) ∧
    σ.infos = σ.workers.trace.filterMap handedInfo ++ σ.state.queuedInfo ∧
    σ.ledger.accepted.Nodup ∧
    σ.ledger.accepted.Perm (σ.state.incoming.ids ++ (σ.ledger.started ++ σ.ledger.timedOut)) ∧
    σ.ledger.started = (σ.workers.trace.filterMap startedId).reverse ∧
    (∀ x ∈ σ.state.incoming.held, ∃ ref, σ.state.incoming.recvTimeouts x.2.transId = some ref ∧
      σ.timers.Pending ref (timeoutOf x)) ∧
    (∀ x ∈ σ.state.incoming.held, ∀ t, Timers.Receive (timeoutOf x) σ.timers t →
      ∃ σ', recvTimeout (timeoutOf x) { σ with timers := t } = .ok σ' ∧ x.2.transId ∈ σ'.ledger.timedOut) ∧
    (σ.state.incoming.held ≠ [] ∨ σ.state.queuedInfo ≠ [] →
      σ.workers.outstanding = 1 ∨ σ.state.updatePlan ≠ none ∨ σ.ready = false) := by
  have hinv := h.inv
  obtain ⟨hone, ⟨a, hrun⟩, hupdates⟩ := hinv.serial
  refine ⟨hone, ⟨a, hrun⟩, fun l₁ c s l₂ hl => hrun.given_eq hl, fun l₁ s s' l₂ hl => hrun.updated_eq hl, hupdates,
    hinv.books.infos, hinv.books.incoming.nodup, hinv.books.incoming.ledger, hinv.books.started,
    hinv.books.incoming.timer, fun x hx t ht => ?_, fun hwait => ?_⟩
  · obtain ⟨σ', hr, -, hm⟩ := recvTimeout_settles hinv ht (Incoming.mem_ids.mpr ⟨x, hx, rfl⟩)
    exact ⟨σ', hr, hm⟩
  · by_contra hno
    obtain ⟨hout, hplan, hready⟩ := not_or.mp hno |>.imp_right not_or.mp
    have hplan : σ.state.updatePlan = none := not_not.mp hplan
    have hready : σ.ready = true := (Bool.not_eq_false _).mp hready
    have hq : σ.state.queueRequests = true := by
      by_contra hf
      obtain ⟨hheld, hinfo⟩ := hinv.idle (Bool.eq_false_iff.mpr hf)
      exact hwait.elim (fun hw => hw hheld) fun hw => hw hinfo
    exact hout (hinv.busy hready (by rw [System.busy, hplan]; exact hq)).outstanding

theorem serial_state_request :
    ∃ σ : System Nat Nat Nat Nat Nat, σ.ledger.started = [7] ∧ σ.workers.outstanding ≤ 1 ∧
      ∃ a, Serial.Run ⟨3, none⟩ σ.workers.trace a := by
  have hinit : Reachable (⟨fun _ => true, fun _ => 0, fun r => (true, r), id⟩ : Runtime Nat Nat Nat Nat) .normal 3 _ :=
    .step (.init ⟨none, none, none, 0⟩ ⟨some 1, none⟩) (.event .initExecute ⟨fun _ _ _ => none⟩ rfl rfl)
  have hrequest := hinit.step (.event (.request
    (⟨.sendAsync, [], [], 0, 0, 10, ⟨0, by decide, by decide⟩, 7, 0⟩ : Request Nat Nat Nat)) ⟨fun _ _ _ => none⟩
    ⟨rfl, List.not_mem_nil⟩ rfl)
  exact ⟨_, rfl, (serial_state hrequest).1, (serial_state hrequest).2.1⟩

end CloudI.Services.Internal
