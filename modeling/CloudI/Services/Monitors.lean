import CloudI.Services.SendTimeouts

/-!
# The monitors of a dispatcher

A dispatcher monitors processes for two reasons: because the service asks for
it with `{monitor, Pid}`, and because a request to the process is pending. The
messages of both come to the same clause of `handle_info`, which decides by
the pid: the message is taken for one about the requests when the pid has
pending requests, and is handed to the service otherwise.

`System.Meets` is the condition on a step under which the pid decides right,
and `routed_of_reachable` says that in a run whose steps meet it each message
goes where its reference says; `routed_service_first` is a run in which it does not.
-/

namespace CloudI.Services.Monitors

open SendTimeouts

variable {TransId Pid Client Term : Type}

/-- A reference of a monitor, by who made it. -/
inductive MonitorRef where
  /-- of a request that was sent -/
  | request (n : Nat)
  /-- returned to the service -/
  | service (n : Nat)
deriving DecidableEq

/-- A dispatcher with the monitors that have not fired, the messages `DOWN` in
its mailbox, the references of those it has handled, and of those it handed to
the service (to `handle_info_message`, or to the process of `duo_mode`). -/
structure World (TransId Pid Client Term : Type) where
  sys : SendTimeouts.System TransId Pid Client Term
  serviceRefs : Nat
  active : List (MonitorRef × Pid)
  mailbox : List (MonitorRef × Pid)
  delivered : List MonitorRef
  handed : List MonitorRef

def World.init (Dispatcher : Pid) (RequestTimeoutImmediateMax : Nat) (ResponseTimeoutAdjustment : Bool) :
    World TransId Pid Client Term where
  sys := .init Dispatcher RequestTimeoutImmediateMax ResponseTimeoutAdjustment
  serviceRefs := 0
  active := []
  mailbox := []
  delivered := []
  handed := []

variable [LinearOrder TransId] [DecidableEq Pid]

/-! ## The steps -/

/-- What a step of the dispatcher does to the requests that were sent. -/
inductive Change (TransId Pid : Type) where
  | start (Timeout : Nat) (P : Pid)
  | finish (i : TransId)
  | keep

def eventChange : Event TransId Pid Client Term → Change TransId Pid
  | .sendAsync Timeout _ P => .start Timeout P
  | .sendAsyncActive Timeout _ P => .start Timeout P
  | .sendSync Timeout _ P _ => .start Timeout P
  | .returnAsync r => .finish r.transId
  | .returnSync r => .finish r.transId
  | .down _ => .keep

def timeoutChange (m : TimeoutMessage TransId) : Change TransId Pid :=
  match m.request with
  | some i => .finish i
  | none => .keep

/-- The call of `erlang:monitor/2` when a request is sent. -/
def started (Timeout : Nat) (P : Pid) (σ : SendTimeouts.System TransId Pid Client Term) : Option (MonitorRef × Pid) :=
  if Timeout ≥ σ.state.requestTimeoutImmediateMax ∧ σ.state.sendTimeoutMonitors P = none then
    some (.request σ.monitorRefs, P)
  else none

/-- The reference that `send_timeout_end/3` gives to `erlang:demonitor/1`. -/
def ended (i : TransId) (s : SendTimeouts.State TransId Pid Client Term) : Option MonitorRef :=
  match s.sendTimeouts i with
  | some (_, some P, _) =>
    match s.sendTimeoutMonitors P with
    | some (MonitorRef, TransIdList) => if TransIdList = [i] then some (.request MonitorRef) else none
    | none => none
  | _ => none

/-- The reference that a step gives to `erlang:demonitor/1`. -/
def Change.demonitored (σ : SendTimeouts.System TransId Pid Client Term) : Change TransId Pid → Option MonitorRef
  | start .. => none
  | finish i => ended i σ.state
  | keep => none

/-- The monitor that a step makes. -/
def Change.started (σ : SendTimeouts.System TransId Pid Client Term) :
    Change TransId Pid → Option (MonitorRef × Pid)
  | start Timeout P => Monitors.started Timeout P σ
  | finish _ => none
  | keep => none

/-- The monitors after a step. -/
def Change.apply (c : Change TransId Pid) (σ' : SendTimeouts.System TransId Pid Client Term)
    (w : World TransId Pid Client Term) : World TransId Pid Client Term :=
  { w with
    sys := σ'
    active := (c.started w.sys).toList ++ w.active.filter fun m => c.demonitored w.sys ≠ some m.1 }

/-- `handle_info` of `{'DOWN', MonitorRef, process, Pid, Info}` -/
def handleDown (ref : MonitorRef) (P : Pid) (w : World TransId Pid Client Term) : World TransId Pid Client Term :=
  match sendTimeoutDead P w.sys with
  | (true, σ) => { w with sys := σ, delivered := ref :: w.delivered }
  | (false, σ) => { w with sys := σ, delivered := ref :: w.delivered, handed := ref :: w.handed }

/-- What happens next. -/
inductive Action (TransId Pid Client Term : Type) where
  | event (e : Event TransId Pid Client Term)
  | timeout (m : TimeoutMessage TransId)
  | elapse
  | options
  /-- `{monitor, Pid}` -/
  | monitor (P : Pid)
  /-- `{demonitor, MonitorRef}` and `{demonitor, MonitorRef, Options}`, with the option `flush` -/
  | demonitor (ref : MonitorRef) (flush : Bool)
  /-- the process of a monitor is down -/
  | fire (ref : MonitorRef) (P : Pid)
  | deliver (ref : MonitorRef) (P : Pid)

variable (rt : SendTimeouts.Runtime Term)

/-- The messages of monitors fire and are delivered in any order. -/
inductive Step : World TransId Pid Client Term → Action TransId Pid Client Term → World TransId Pid Client Term → Prop
  | event {w : World TransId Pid Client Term} {σ' : SendTimeouts.System TransId Pid Client Term}
      (e : Event TransId Pid Client Term) : (∀ P, e ≠ .down P) → e.Enabled .internal w.sys →
      e.apply rt .internal w.sys = .ok σ' → Step w (.event e) ((eventChange e).apply σ' w)
  | timeout {w : World TransId Pid Client Term} {σ' : SendTimeouts.System TransId Pid Client Term}
      {t : SendTimers TransId} (m : TimeoutMessage TransId) : Timers.Receive m w.sys.timers t →
      m.apply .internal { w.sys with timers := t } = .ok σ' → Step w (.timeout m) ((timeoutChange m).apply σ' w)
  | elapse {w : World TransId Pid Client Term} {t : SendTimers TransId} : Timers.Elapse w.sys.timers t →
      Step w .elapse { w with sys := { w.sys with timers := t } }
  | options {w : World TransId Pid Client Term} (RequestTimeoutImmediateMax : Nat) (ResponseTimeoutAdjustment : Bool) :
      Step w .options { w with sys := { w.sys with state := { w.sys.state with
        requestTimeoutImmediateMax := RequestTimeoutImmediateMax
        responseTimeoutAdjustment := ResponseTimeoutAdjustment } } }
  | monitor {w : World TransId Pid Client Term} (P : Pid) : Step w (.monitor P)
      { w with serviceRefs := w.serviceRefs + 1, active := (.service w.serviceRefs, P) :: w.active }
  | demonitor {w : World TransId Pid Client Term} (ref : MonitorRef) (flush : Bool) : Step w (.demonitor ref flush)
      { w with
        active := w.active.filter fun m => m.1 ≠ ref
        mailbox := if flush then w.mailbox.filter fun m => m.1 ≠ ref else w.mailbox }
  | fire {w : World TransId Pid Client Term} {ref : MonitorRef} {P : Pid} : (ref, P) ∈ w.active →
      Step w (.fire ref P) { w with active := w.active.erase (ref, P), mailbox := w.mailbox ++ [(ref, P)] }
  | deliver {w : World TransId Pid Client Term} {ref : MonitorRef} {P : Pid} : (ref, P) ∈ w.mailbox →
      Step w (.deliver ref P) (handleDown ref P { w with mailbox := w.mailbox.erase (ref, P) })

/-- The condition on a step: a message for the service is delivered when no
request to its process is pending, and the monitor of the requests to a
process is not removed with its message in the mailbox. -/
def Meets (w : World TransId Pid Client Term) : Action TransId Pid Client Term → Prop
  | .deliver (.service _) P => w.sys.state.sendTimeoutMonitors P = none
  | .event e => ∀ ref, (eventChange e).demonitored w.sys = some ref → ∀ P, (ref, P) ∉ w.mailbox
  | .timeout m => ∀ ref, (timeoutChange m).demonitored w.sys = some ref → ∀ P, (ref, P) ∉ w.mailbox
  | _ => True

/-- The states reached by steps that satisfy a condition. -/
inductive Reachable (C : World TransId Pid Client Term → Action TransId Pid Client Term → Prop) :
    World TransId Pid Client Term → Prop
  | init (Dispatcher : Pid) (RequestTimeoutImmediateMax : Nat) (ResponseTimeoutAdjustment : Bool) :
      Reachable C (.init Dispatcher RequestTimeoutImmediateMax ResponseTimeoutAdjustment)
  | step {w w' : World TransId Pid Client Term} {a : Action TransId Pid Client Term} :
      Reachable C w → C w a → Step rt w a w' → Reachable C w'

/-- Each message whose reference was returned to the service has been handed to
it once for its one delivery, and no message about the requests has. -/
structure Routed (w : World TransId Pid Client Term) : Prop where
  service : ∀ n, w.handed.count (.service n) = w.delivered.count (.service n) ∧
    w.delivered.count (.service n) ≤ 1
  request : ∀ n, MonitorRef.request n ∉ w.handed

/-! ## The monitors of the requests -/

variable {σ σ₁ σ' : SendTimeouts.System TransId Pid Client Term}

/-- A step keeps the monitors of the requests but for the one it makes and the one it removes. -/
structure Tracks (c : Change TransId Pid) (σ σ' : SendTimeouts.System TransId Pid Client Term) : Prop where
  refs : σ.monitorRefs ≤ σ'.monitorRefs
  kept : ∀ P n L, σ.state.sendTimeoutMonitors P = some (n, L) →
    (∃ L', σ'.state.sendTimeoutMonitors P = some (n, L')) ∨ c.demonitored σ = some (.request n)
  new : ∀ P n L, σ'.state.sendTimeoutMonitors P = some (n, L) →
    (∃ L', σ.state.sendTimeoutMonitors P = some (n, L')) ∨ n < σ'.monitorRefs
  started : ∀ ref P, c.started σ = some (ref, P) → ref = .request σ.monitorRefs ∧ σ.monitorRefs < σ'.monitorRefs ∧
    ∃ L, σ'.state.sendTimeoutMonitors P = some (σ.monitorRefs, L)

omit [DecidableEq Pid] in
theorem tracks_same {c : Change TransId Pid} (hc : c.started σ = none) (hrefs : σ'.monitorRefs = σ.monitorRefs)
    (hmon : σ'.state.sendTimeoutMonitors = σ.state.sendTimeoutMonitors) : Tracks c σ σ' where
  refs := hrefs.ge
  kept P n L h := .inl ⟨L, by rw [hmon, h]⟩
  new P n L h := .inl ⟨L, by rw [← hmon, h]⟩
  started ref P h := by
    rw [hc] at h
    cases h

/-- The entry of a process is stored again with the same reference. -/
theorem tracks_restore {c : Change TransId Pid} {P : Pid} {n : Nat} {L L' : List TransId}
    (hc : c.started σ = none) (hrefs : σ'.monitorRefs = σ.monitorRefs)
    (hP : σ.state.sendTimeoutMonitors P = some (n, L))
    (hmon : σ'.state.sendTimeoutMonitors = σ.state.sendTimeoutMonitors.store P (n, L')) : Tracks c σ σ' where
  refs := hrefs.ge
  kept Q m M hQ := by
    refine .inl ?_
    rw [hmon, Dict.store]
    by_cases hQP : Q = P
    · subst hQP
      rw [hP] at hQ
      cases hQ
      exact ⟨L', Function.update_self ..⟩
    · exact ⟨M, by rw [Function.update_of_ne hQP, hQ]⟩
  new Q m M hQ := by
    refine .inl ?_
    rw [hmon, Dict.store] at hQ
    by_cases hQP : Q = P
    · subst hQP
      rw [Function.update_self] at hQ
      cases hQ
      exact ⟨L, hP⟩
    · rw [Function.update_of_ne hQP] at hQ
      exact ⟨M, hQ⟩
  started ref Q h := by
    rw [hc] at h
    cases h

/-- The monitor of a process without an entry is made. -/
theorem tracks_new {c : Change TransId Pid} {P : Pid} {L : List TransId}
    (hc : c.started σ = some (.request σ.monitorRefs, P)) (hrefs : σ'.monitorRefs = σ.monitorRefs + 1)
    (hP : σ.state.sendTimeoutMonitors P = none)
    (hmon : σ'.state.sendTimeoutMonitors = σ.state.sendTimeoutMonitors.store P (σ.monitorRefs, L)) :
    Tracks c σ σ' where
  refs := by omega
  kept Q m M hQ := by
    have hQP : Q ≠ P := by
      rintro rfl
      rw [hP] at hQ
      cases hQ
    exact .inl ⟨M, by rw [hmon, Dict.store, Function.update_of_ne hQP, hQ]⟩
  new Q m M hQ := by
    rw [hmon, Dict.store] at hQ
    by_cases hQP : Q = P
    · subst hQP
      rw [Function.update_self] at hQ
      cases hQ
      exact .inr (by omega)
    · rw [Function.update_of_ne hQP] at hQ
      exact .inl ⟨M, hQ⟩
  started ref Q h := by
    rw [hc] at h
    cases h
    exact ⟨rfl, by omega, L, by rw [hmon, Dict.store, Function.update_self]⟩

/-- The last request to a process is over. -/
theorem tracks_removed {c : Change TransId Pid} {P : Pid} {n : Nat} {L : List TransId}
    (hc : c.started σ = none) (hrefs : σ'.monitorRefs = σ.monitorRefs)
    (hP : σ.state.sendTimeoutMonitors P = some (n, L))
    (hmon : σ'.state.sendTimeoutMonitors = σ.state.sendTimeoutMonitors.erase P)
    (hd : c.demonitored σ = some (.request n)) : Tracks c σ σ' where
  refs := hrefs.ge
  kept Q m M hQ := by
    by_cases hQP : Q = P
    · subst hQP
      rw [hP] at hQ
      cases hQ
      exact .inr hd
    · exact .inl ⟨M, by rw [hmon, Dict.erase, Function.update_of_ne hQP, hQ]⟩
  new Q m M hQ := by
    rw [hmon, Dict.erase] at hQ
    by_cases hQP : Q = P
    · subst hQP
      rw [Function.update_self] at hQ
      cases hQ
    · rw [Function.update_of_ne hQP] at hQ
      exact .inl ⟨M, hQ⟩
  started ref Q h := by
    rw [hc] at h
    cases h

theorem tracks_start (r : Receiver Client) (Timeout : Nat) (i : TransId) (P : Pid) :
    Tracks (.start Timeout P) σ (timeoutStart r Timeout i P σ) := by
  have hstarted : (Change.start Timeout P : Change TransId Pid).started σ = Monitors.started Timeout P σ := rfl
  by_cases hT : Timeout ≥ σ.state.requestTimeoutImmediateMax
  · have hr : timeoutStart r Timeout i P σ = storeRequest r (some P) Timeout i (monitorRequest i P σ) := if_pos hT
    cases hP : σ.state.sendTimeoutMonitors P with
    | some x =>
      obtain ⟨n, L⟩ := x
      have hc : Monitors.started Timeout P σ = none := if_neg fun h => by
        rw [hP] at h
        cases h.2
      exact tracks_restore (hstarted.trans hc) (by rw [hr, monitorRequest, hP]; rfl) hP
        (by rw [hr, monitorRequest, hP]; rfl)
    | none =>
      have hc : Monitors.started Timeout P σ = some (.request σ.monitorRefs, P) := if_pos ⟨hT, hP⟩
      exact tracks_new (hstarted.trans hc) (by rw [hr, monitorRequest, hP]; rfl) hP
        (by rw [hr, monitorRequest, hP]; rfl)
  · refine tracks_same ?_ (by rw [timeoutStart, if_neg hT]; rfl) (by rw [timeoutStart, if_neg hT]; rfl)
    rw [hstarted, Monitors.started, if_neg fun h => hT h.1]

/-- The timers change and not the monitors. -/
def SameMonitors (σ σ₁ : SendTimeouts.System TransId Pid Client Term) : Prop :=
  σ₁.monitorRefs = σ.monitorRefs ∧ σ₁.state.sendTimeoutMonitors = σ.state.sendTimeoutMonitors

omit [LinearOrder TransId] [DecidableEq Pid] in
theorem sameMonitors_cancelTimerAsync (OldTimeout Tref : Nat) :
    SameMonitors σ (cancelTimerAsync OldTimeout Tref σ) := by
  unfold cancelTimerAsync
  split <;> exact ⟨rfl, rfl⟩

omit [LinearOrder TransId] [DecidableEq Pid] in
theorem sameMonitors_responseTimeout (OldTimeout Tref : Nat) :
    SameMonitors σ (responseTimeout OldTimeout Tref σ).2 := by
  unfold responseTimeout
  split <;> exact ⟨rfl, rfl⟩

omit [DecidableEq Pid] in
theorem SameMonitors.asyncResponseTimeoutStart (h : SameMonitors σ σ₁) (ResponseInfo Response : Term) (Timeout : Nat)
    (i : TransId) : SameMonitors σ (asyncResponseTimeoutStart ResponseInfo Response Timeout i σ₁) := by
  unfold SendTimeouts.asyncResponseTimeoutStart
  split <;> exact h

theorem tracks_finish {i : TransId} {r : Receiver Client} {D : Option Pid} {Tref : Nat}
    (hi : σ.state.sendTimeouts i = some (r, D, Tref)) (hsame : SameMonitors σ σ₁) :
    Tracks (.finish i) σ (sendTimeoutEnd i D σ₁) := by
  have hrefs' : (sendTimeoutEnd i D σ₁).monitorRefs = σ.monitorRefs := hsame.1
  have hmon' : (sendTimeoutEnd i D σ₁).state.sendTimeoutMonitors = endMonitor i D σ.state.sendTimeoutMonitors := by
    rw [← hsame.2]
    rfl
  cases D with
  | none => exact tracks_same rfl hrefs' hmon'
  | some P =>
    have hended : (Change.finish i : Change TransId Pid).demonitored σ = ended i σ.state := rfl
    cases hP : σ.state.sendTimeoutMonitors P with
    | none => exact tracks_same rfl hrefs' (hmon'.trans (by rw [endMonitor, demonitorRequest, hP]))
    | some x =>
      obtain ⟨n, L⟩ := x
      rw [endMonitor, demonitorRequest, hP] at hmon'
      simp only at hmon'
      by_cases hL : L = [i]
      · rw [if_pos hL] at hmon'
        refine tracks_removed rfl hrefs' hP hmon' ?_
        rw [hended, ended, hi]
        simp only [hP, if_pos hL]
      · rw [if_neg hL] at hmon'
        exact tracks_restore rfl hrefs' hP hmon'

theorem event_tracks {rt : SendTimeouts.Runtime Term} {e : Event TransId Pid Client Term} (he : ∀ P, e ≠ .down P)
    (hr : e.apply rt .internal σ = .ok σ') : Tracks (eventChange e) σ σ' := by
  cases e with
  | sendAsync Timeout i P =>
    cases hr
    exact tracks_start _ Timeout i P
  | sendAsyncActive Timeout i P =>
    cases hr
    exact tracks_start _ Timeout i P
  | sendSync Timeout i P c =>
    cases hr
    exact tracks_start _ Timeout i P
  | returnAsync r =>
    simp only [Event.apply, Internal.returnAsync] at hr
    split at hr
    · cases hr
    · split at hr
      · cases hr
        exact tracks_same rfl rfl rfl
      · rename_i d Tref hi
        split at hr <;> cases hr
        · exact tracks_finish hi (sameMonitors_cancelTimerAsync r.timeout Tref)
        · exact tracks_finish hi (sameMonitors_responseTimeout r.timeout Tref)
      · rename_i d Tref hi
        split at hr <;> cases hr
        · exact tracks_finish hi (sameMonitors_cancelTimerAsync r.timeout Tref)
        · exact tracks_finish hi ((sameMonitors_responseTimeout r.timeout Tref).asyncResponseTimeoutStart _ _ _ _)
      · cases hr
  | returnSync r =>
    simp only [Event.apply, Internal.returnSync] at hr
    split at hr
    · cases hr
    · split at hr
      · cases hr
        exact tracks_same rfl rfl rfl
      · rename_i c d Tref hi
        cases hr
        exact tracks_finish hi (sameMonitors_cancelTimerAsync r.timeout Tref)
      · cases hr
  | down P => exact absurd rfl (he P)

theorem timeout_tracks {t : SendTimers TransId} {m : TimeoutMessage TransId}
    (hr : m.apply .internal { σ with timers := t } = .ok σ') : Tracks (timeoutChange m) σ σ' := by
  cases m with
  | recvAsync i =>
    cases hr
    exact tracks_same rfl rfl rfl
  | sendAsync i =>
    simp only [TimeoutMessage.apply, Internal.sendAsyncTimeout] at hr
    split at hr
    · cases hr
      exact tracks_same rfl rfl rfl
    · rename_i d Tref hi
      cases hr
      exact tracks_finish hi ⟨rfl, rfl⟩
    · rename_i d Tref hi
      cases hr
      exact tracks_finish hi ⟨rfl, rfl⟩
    · cases hr
  | sendSync i =>
    simp only [TimeoutMessage.apply, Internal.sendSyncTimeout] at hr
    split at hr
    · cases hr
      exact tracks_same rfl rfl rfl
    · rename_i c d Tref hi
      cases hr
      exact tracks_finish hi ⟨rfl, rfl⟩
    · cases hr

/-! ## The invariant -/

/-- A reference that has been made. -/
def Known (w : World TransId Pid Client Term) : MonitorRef → Prop
  | .request n => n < w.sys.monitorRefs
  | .service n => n < w.serviceRefs

/-- The references of the monitors that have not fired, of the messages, and of those handled. -/
def World.refs (w : World TransId Pid Client Term) : List MonitorRef :=
  (w.active ++ w.mailbox).map Prod.fst ++ w.delivered

def isService : MonitorRef → Bool
  | .request _ => false
  | .service _ => true

/-- Each reference is in one place, and the process of a monitor of the
requests has it in `send_timeout_monitors` until its message is handled. -/
structure Inv (w : World TransId Pid Client Term) : Prop where
  nodup : w.refs.Nodup
  known : ∀ ref ∈ w.refs, Known w ref
  entries : ∀ P n L, w.sys.state.sendTimeoutMonitors P = some (n, L) → n < w.sys.monitorRefs
  pending : ∀ n P, (MonitorRef.request n, P) ∈ w.active ++ w.mailbox →
    ∃ L, w.sys.state.sendTimeoutMonitors P = some (n, L)
  handed : w.handed = w.delivered.filter isService

variable {w : World TransId Pid Client Term}

omit [LinearOrder TransId] [DecidableEq Pid] in
theorem inv_init (D : Pid) (Max : Nat) (Adjustment : Bool) :
    Inv (World.init D Max Adjustment : World TransId Pid Client Term) where
  nodup := List.nodup_nil
  known ref h := absurd h List.not_mem_nil
  entries P n L h := by cases h
  pending n P h := absurd h List.not_mem_nil
  handed := rfl

omit [LinearOrder TransId] [DecidableEq Pid] in
theorem Inv.sub (h : Inv w) {active mailbox : List (MonitorRef × Pid)} (ha : active.Sublist w.active)
    (hm : mailbox.Sublist w.mailbox) : Inv { w with active := active, mailbox := mailbox } := by
  have hsub := ha.append hm
  exact ⟨((hsub.map _).append_right _).nodup h.nodup,
    fun ref hr => h.known ref (((hsub.map _).append_right _).subset hr),
    h.entries, fun n P hp => h.pending n P (hsub.subset hp), h.handed⟩

omit [LinearOrder TransId] [DecidableEq Pid] in
/-- A monitor with a new reference is made. -/
theorem Inv.cons (h : Inv w) {ref : MonitorRef} {P : Pid} (hnew : ref ∉ w.refs) (hk : Known w ref)
    (hp : ∀ n, ref = .request n → ∃ L, w.sys.state.sendTimeoutMonitors P = some (n, L)) :
    Inv { w with active := (ref, P) :: w.active } := by
  refine ⟨List.nodup_cons.mpr ⟨hnew, h.nodup⟩, fun r hr => ?_, h.entries, fun n Q hm => ?_, h.handed⟩
  · rcases List.mem_cons.mp hr with rfl | hr
    · exact hk
    · exact h.known r hr
  · rcases List.mem_cons.mp hm with he | hm
    · cases he
      exact hp n rfl
    · exact h.pending n Q hm

omit [DecidableEq Pid] in
/-- A step of the dispatcher that removes no monitor with its message in the mailbox. -/
theorem Inv.change (h : Inv w) {c : Change TransId Pid} (ht : Tracks c w.sys σ')
    (hc : ∀ ref, c.demonitored w.sys = some ref → ∀ P, (ref, P) ∉ w.mailbox) : Inv (c.apply σ' w) := by
  have hactive : (w.active.filter fun m => c.demonitored w.sys ≠ some m.1).Sublist w.active := List.filter_sublist
  have h₀ := h.sub hactive (List.Sublist.refl _)
  have h₁ : Inv { w with sys := σ', active := w.active.filter fun m => c.demonitored w.sys ≠ some m.1 } := by
    refine ⟨h₀.nodup, fun ref hm => ?_, fun P n L hL => ?_, fun n P hm => ?_, h.handed⟩
    · have hk := h₀.known ref hm
      cases ref with
      | request n => exact Nat.lt_of_lt_of_le hk ht.refs
      | service n => exact hk
    · rcases ht.new P n L hL with ⟨L', hL'⟩ | hn
      · exact Nat.lt_of_lt_of_le (h.entries P n L' hL') ht.refs
      · exact hn
    · obtain ⟨L, hL⟩ := h₀.pending n P hm
      refine (ht.kept P n L hL).resolve_right fun hd => ?_
      rcases List.mem_append.mp hm with hm | hm
      · simp [hd] at hm
      · exact hc _ hd P hm
  rw [Change.apply]
  cases hs : c.started w.sys with
  | none => exact h₁
  | some x =>
    obtain ⟨ref, P⟩ := x
    obtain ⟨rfl, hlt, hmon⟩ := ht.started ref P hs
    refine h₁.cons (fun hm => Nat.lt_irrefl _ (h₀.known _ hm)) hlt fun n hn => ?_
    cases hn
    exact hmon

omit [LinearOrder TransId] [DecidableEq Pid] in
theorem Inv.monitor (h : Inv w) (P : Pid) :
    Inv { w with serviceRefs := w.serviceRefs + 1, active := (.service w.serviceRefs, P) :: w.active } := by
  have h₁ : Inv { w with serviceRefs := w.serviceRefs + 1 } := by
    refine ⟨h.nodup, fun ref hm => ?_, h.entries, h.pending, h.handed⟩
    have hk := h.known ref hm
    cases ref with
    | request n => exact hk
    | service n => exact Nat.lt_succ_of_lt hk
  refine h₁.cons (fun hm => Nat.lt_irrefl _ (h.known _ hm)) (Nat.lt_succ_self _) fun n hn => ?_
  cases hn

omit [LinearOrder TransId] in
theorem Inv.fire (h : Inv w) {ref : MonitorRef} {P : Pid} (hm : (ref, P) ∈ w.active) :
    Inv { w with active := w.active.erase (ref, P), mailbox := w.mailbox ++ [(ref, P)] } := by
  have hperm : (w.active.erase (ref, P) ++ (w.mailbox ++ [(ref, P)])).Perm (w.active ++ w.mailbox) := by
    refine (List.perm_append_comm.trans ?_).trans ((List.perm_cons_erase hm).symm.append_right _)
    rw [List.append_assoc]
    refine List.perm_append_comm.trans ?_
    simp
  refine ⟨(((hperm.map _).append_right _).nodup_iff).mpr h.nodup,
    fun r hr => h.known r (((hperm.map _).append_right _).subset hr), h.entries,
    fun n Q hq => h.pending n Q (hperm.subset hq), h.handed⟩

/-! ## The delivery of a message -/

omit [DecidableEq Pid] in
theorem foldl_timeoutDead_monitors (L : List TransId) : SameMonitors σ (L.foldl timeoutDead σ) := by
  induction L generalizing σ with
  | nil => exact ⟨rfl, rfl⟩
  | cons i L ih =>
    have hstep : SameMonitors σ (timeoutDead σ i) := by
      rw [timeoutDead]
      split <;> exact ⟨rfl, rfl⟩
    obtain ⟨h1, h2⟩ := @ih (timeoutDead σ i)
    exact ⟨h1.trans hstep.1, h2.trans hstep.2⟩

/-- The pid of a message with pending requests: the message is taken for one about them. -/
theorem handleDown_some {ref : MonitorRef} {P : Pid} {n : Nat} {L : List TransId}
    (h : w.sys.state.sendTimeoutMonitors P = some (n, L)) :
    ∃ σ', handleDown ref P w = { w with sys := σ', delivered := ref :: w.delivered } ∧
      σ'.monitorRefs = w.sys.monitorRefs ∧ σ'.state.sendTimeoutMonitors = w.sys.state.sendTimeoutMonitors.erase P := by
  obtain ⟨hrefs, hmon⟩ := foldl_timeoutDead_monitors (σ := w.sys) L
  rw [handleDown, sendTimeoutDead, h]
  exact ⟨_, rfl, hrefs, by rw [← hmon]⟩

/-- The pid of a message without pending requests: the message is handed to the service. -/
theorem handleDown_none {ref : MonitorRef} {P : Pid} (h : w.sys.state.sendTimeoutMonitors P = none) :
    handleDown ref P w = { w with delivered := ref :: w.delivered, handed := ref :: w.handed } := by
  rw [handleDown, sendTimeoutDead, h]

theorem Inv.deliver (h : Inv w) {ref : MonitorRef} {P : Pid} (hm : (ref, P) ∈ w.mailbox)
    (hC : Meets w (.deliver ref P)) : Inv (handleDown ref P { w with mailbox := w.mailbox.erase (ref, P) }) := by
  have h₀ := h.sub (List.Sublist.refl w.active) (List.erase_sublist (a := (ref, P)) (l := w.mailbox))
  have hperm : w.refs.Perm (ref :: ((w.active ++ w.mailbox.erase (ref, P)).map Prod.fst ++ w.delivered)) :=
    (((List.perm_cons_erase hm).append_left w.active).trans List.perm_middle).map Prod.fst |>.append_right w.delivered
  have hrefs : (((w.active ++ w.mailbox.erase (ref, P)).map Prod.fst) ++ ref :: w.delivered).Perm w.refs :=
    List.perm_middle.trans hperm.symm
  have hnodup := hrefs.nodup_iff.mpr h.nodup
  have hnew : ref ∉ (w.active ++ w.mailbox.erase (ref, P)).map Prod.fst := fun hin =>
    (List.nodup_cons.mp (hperm.nodup_iff.mp h.nodup)).1 (List.mem_append_left _ hin)
  cases ref with
  | service n =>
    rw [@handleDown_none _ _ _ _ _ _ { w with mailbox := w.mailbox.erase (.service n, P) } _ P hC]
    refine ⟨hnodup, fun r hr => h.known r (hrefs.subset hr), h.entries, h₀.pending, ?_⟩
    show _ :: w.handed = _
    rw [h.handed]
    rfl
  | request n =>
    obtain ⟨L, hL⟩ := h.pending n P (List.mem_append_right _ hm)
    obtain ⟨σ', hr, hrefs', hmon⟩ := @handleDown_some _ _ _ _ _ _
      { w with mailbox := w.mailbox.erase (.request n, P) } (.request n) P n L hL
    rw [hr]
    refine ⟨hnodup, fun r hin => ?_, fun Q m M hQ => ?_, fun m Q hin => ?_, ?_⟩
    · have hk := h.known r (hrefs.subset hin)
      cases r with
      | request m => exact Nat.lt_of_lt_of_eq hk hrefs'.symm
      | service m => exact hk
    · rw [hmon, Dict.erase, Function.update_apply] at hQ
      split at hQ
      · cases hQ
      · exact Nat.lt_of_lt_of_eq (h.entries Q m M hQ) hrefs'.symm
    · obtain ⟨M, hM⟩ := h₀.pending m Q hin
      have hQP : Q ≠ P := by
        rintro rfl
        rw [show w.sys.state.sendTimeoutMonitors Q = _ from hM] at hL
        cases hL
        exact hnew (List.mem_map_of_mem hin)
      exact ⟨M, by rw [hmon, Dict.erase, Function.update_of_ne hQP]; exact hM⟩
    · rw [List.filter_cons_of_neg (by simp [isService])]
      exact h.handed

/-! ## Runs -/

variable {rt : SendTimeouts.Runtime Term}

theorem Step.inv {a : Action TransId Pid Client Term} {w' : World TransId Pid Client Term} (h : Inv w)
    (hC : Meets w a) (hs : Step rt w a w') : Inv w' := by
  cases hs with
  | event e hdown he hr => exact h.change (event_tracks hdown hr) hC
  | timeout m hm hr => exact h.change (timeout_tracks hr) hC
  | elapse he => exact ⟨h.nodup, h.known, h.entries, h.pending, h.handed⟩
  | options Max Adjustment => exact ⟨h.nodup, h.known, h.entries, h.pending, h.handed⟩
  | monitor P => exact h.monitor P
  | demonitor ref flush =>
    refine h.sub List.filter_sublist ?_
    split
    · exact List.filter_sublist
    · exact List.Sublist.refl _
  | fire hm => exact h.fire hm
  | deliver hm => exact h.deliver hm hC

theorem inv_of_reachable (h : Reachable rt Meets w) : Inv w := by
  induction h with
  | init D Max Adjustment => exact inv_init D Max Adjustment
  | step _ hC hs ih => exact hs.inv ih hC

/-- In a run whose steps meet the condition every message goes where its reference says. -/
theorem routed_of_reachable (h : Reachable rt Meets w) : Routed w := by
  have hinv := inv_of_reachable h
  have hnodup : w.delivered.Nodup := (List.nodup_append.mp hinv.nodup).2.1
  refine ⟨fun n => ⟨?_, List.nodup_iff_count_le_one.mp hnodup _⟩, fun n hm => ?_⟩
  · rw [hinv.handed, List.count_filter rfl]
  · rw [hinv.handed, List.mem_filter] at hm
    cases hm.2

/-- The answers about terms in the examples of runs. -/
def noTerms : SendTimeouts.Runtime Unit := ⟨fun _ => false, fun _ => false⟩

/-- The service monitors the process 7 and has a request to it pending; both monitors fire. -/
theorem reachable_both {C : World Nat Nat Unit Unit → Action Nat Nat Unit Unit → Prop}
    (hC : ∀ w a, Meets w a → C w a) : ∃ σ, Reachable noTerms C (World.mk σ 1 []
      [(.service 0, 7), (.request 0, 7)] [] [] : World Nat Nat Unit Unit) ∧
      σ.state.sendTimeoutMonitors = Dict.new.store 7 (0, [1]) := by
  have h₀ : Reachable noTerms C (World.init 1 20 false : World Nat Nat Unit Unit) := .init 1 20 false
  have h₁ := h₀.step (hC _ (.monitor 7) trivial) (.monitor 7)
  have h₂ := h₁.step (hC _ (.event (.sendAsync 5000 1 7)) fun ref hr => by cases hr)
    (.event (.sendAsync 5000 1 7) (fun _ he => by cases he) (show 1 ∉ [] from List.not_mem_nil) rfl)
  have h₃ := h₂.step (hC _ (.fire (.service 0) 7) trivial)
    (.fire (show (MonitorRef.service 0, 7) ∈ [(.request 0, 7), (.service 0, 7)] by decide))
  have h₄ := h₃.step (hC _ (.fire (.request 0) 7) trivial)
    (.fire (show (MonitorRef.request 0, 7) ∈ [(.request 0, 7)] by decide))
  exact ⟨_, h₄, rfl⟩

/-- When the message about the requests is delivered first, the other one is handed to the service. -/
theorem routed_request_first :
    ∃ w : World Nat Nat Unit Unit, Routed w ∧ w.handed = [.service 0] ∧ w.delivered = [.service 0, .request 0] := by
  obtain ⟨σ, h, hmon⟩ := reachable_both fun _ _ h => h
  have h₁ := h.step (a := .deliver (.request 0) 7) trivial (.deliver (by simp))
  obtain ⟨σ', hr, -, hmon'⟩ := @handleDown_some _ _ _ _ _ _
    { World.mk σ 1 [] [(.service 0, 7), (.request 0, 7)] [] [] with
      mailbox := [(.service 0, 7), (.request 0, 7)].erase (.request 0, 7) } (.request 0) 7 0 [1] (by rw [hmon]; rfl)
  rw [hr] at h₁
  have hnone : σ'.state.sendTimeoutMonitors 7 = none := by rw [hmon']; exact Function.update_self ..
  have h₂ := h₁.step (a := .deliver (.service 0) 7) hnone
    (.deliver (show (MonitorRef.service 0, 7) ∈ [(.service 0, 7)] by decide))
  rw [handleDown_none hnone] at h₂
  exact ⟨_, routed_of_reachable h₂, rfl, rfl⟩

/-- When the message of the service's monitor is delivered first, it is lost, and the one about the requests is
handed to the service. -/
theorem routed_service_first :
    ¬ ∀ w : World Nat Nat Unit Unit, Reachable noTerms (fun _ _ => True) w → Routed w := by
  intro hclaim
  obtain ⟨σ, h, hmon⟩ := @reachable_both (fun _ _ => True) fun _ _ _ => trivial
  have h₁ := h.step (a := .deliver (.service 0) 7) trivial (.deliver (by simp))
  obtain ⟨σ', hr, -, hmon'⟩ := @handleDown_some _ _ _ _ _ _
    { World.mk σ 1 [] [(.service 0, 7), (.request 0, 7)] [] [] with
      mailbox := [(.service 0, 7), (.request 0, 7)].erase (.service 0, 7) } (.service 0) 7 0 [1] (by rw [hmon]; rfl)
  rw [hr] at h₁
  have hnone : σ'.state.sendTimeoutMonitors 7 = none := by rw [hmon']; exact Function.update_self ..
  have h₂ := h₁.step (a := .deliver (.request 0) 7) trivial
    (.deliver (show (MonitorRef.request 0, 7) ∈ [(.request 0, 7)] by decide))
  rw [handleDown_none hnone] at h₂
  exact (hclaim _ h₂).request 0 (List.mem_cons_self ..)

end CloudI.Services.Monitors
