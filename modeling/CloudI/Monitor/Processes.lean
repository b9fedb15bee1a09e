import CloudI.Monitor.UpdatePhases
import CloudI.Services.ExternalRequests
import CloudI.Services.SerialState

/-!
# The service processes in an update

The processes of internal and of external services are processes for the
update of the monitor: `service` is the `Machine` that they are, and
`service_spec` says that they do what the monitor expects.
-/

namespace CloudI.Monitor.Update

open CloudI.Services

set_option linter.unusedSectionVars false

variable {TransId Pid Term Rate S : Type} [DecidableEq TransId] [DecidableEq Pid]

/-- A message to the monitor about an update. -/
def report (monitor : Pid) (m : Pid × Message TransId) : Option Report :=
  match m.2 with
  | .update error => if m.1 = monitor then some (.update error) else none
  | .updateNow error => if m.1 = monitor then some (.updateNow error) else none
  | .updateNowPort => if m.1 = monitor then some .updateNowPort else none
  | .returnNull .. => none

/-- The reports among the messages sent since. -/
def reports (monitor : Pid) (before after : List (Pid × Message TransId)) : List Report :=
  (after.drop before.length).filterMap (report monitor)

/-- The process updated, with a new OS process or without. -/
def Report.updates : Report → Bool
  | .updateNow none => true
  | .updateNowPort => true
  | _ => false

/-- The plan that the monitor is given: nothing of it has been used yet. -/
def newPlan (p : UpdatePlan Pid Rate S) : UpdatePlan Pid Rate S :=
  { p with updatePending := none, updateNow := none }

/-- What the monitor can see of a plan. -/
def planView (p : UpdatePlan Pid Rate S) : Local :=
  if p.updateNow.isSome then .going p.updateStart
  else if p.updatePending.isSome then .pending
  else .ready

/-- A service process: of an internal service that initialized with `s₀`, or of an external service. -/
inductive Process (TransId Pid Term Rate S : Type) where
  | internal (mode : Internal.Mode) (s₀ : S) (σ : Internal.System TransId Pid Term Rate S)
  | external (σ : External.System TransId Pid Term Rate S)

/-- The plan that the process has. -/
def Process.plan : Process TransId Pid Term Rate S → Option (UpdatePlan Pid Rate S)
  | .internal _ _ σ => σ.state.updatePlan.map Internal.Plan.toUpdatePlan
  | .external σ => σ.state.updatePlan

/-- What the monitor can see of the plan that a process has or not. -/
def optView (o : Option (UpdatePlan Pid Rate S)) : Local := o.elim .idle planView

/-- What the monitor can see of an external service. -/
def externalView (σ : External.System TransId Pid Term Rate S) : Local :=
  if σ.waiting then .after else optView σ.state.updatePlan

def Process.view : Process TransId Pid Term Rate S → Local
  | .internal _ _ σ => optView (σ.state.updatePlan.map Internal.Plan.toUpdatePlan)
  | .external σ => externalView σ

/-- The process waits for the monitor, in the `receive` of a `cloudi_service_update_after` message. -/
def Process.Waits : Process TransId Pid Term Rate S → Prop
  | .internal _ _ _ => False
  | .external σ => σ.waiting = true

/-- A process that runs and has no plan. -/
def Process.Ready (rt : Services.Runtime TransId Pid Term Rate) : Process TransId Pid Term Rate S → Prop
  | .internal mode s₀ σ => Internal.Reachable rt mode s₀ σ ∧ σ.state.updatePlan = none
  | .external σ => External.Reachable rt σ ∧ σ.state.updatePlan = none

/-- The process handles no new request: it has a plan and queues the requests,
and if the plan is `sync`, no callback is out and the OS process has no request. -/
def Process.Suspended : Process TransId Pid Term Rate S → Prop
  | .internal _ _ σ => σ.state.queueRequests = true ∧
      ∃ p, σ.state.updatePlan = some p ∧ (p.sync = true → σ.workers.outstanding = 0)
  | .external σ => σ.state.queueRequests = true ∧
      ∃ p, σ.state.updatePlan = some p ∧ (p.sync = true → σ.os.outstanding = none)

/-- The message to an external service that is no message of the monitor about an update. -/
def External.isUpdate : External.Event TransId Pid Term Rate S → Bool
  | .update _ _ => true
  | .updateNow _ _ => true
  | .updateAfter _ => true
  | _ => false

/-- The update was applied: `module_state` was called or the options were
changed, or an external service was updated. -/
def Process.applies (before after : Process TransId Pid Term Rate S) (monitor : Pid) : Bool :=
  match before, after with
  | .internal _ _ σ, .internal _ _ σ' => σ.workers.updates.length < σ'.workers.updates.length
  | .external σ, .external σ' => (reports monitor σ.sent σ'.sent).any Report.updates
  | _, _ => false

section

variable (rt : Services.Runtime TransId Pid Term Rate) (monitor : Pid) (p : Internal.Plan Pid Rate S) (Request : Term)

/-- The plan as an internal service gets it. -/
def internalPlan : Internal.Plan Pid Rate S := { p with toUpdatePlan := newPlan p.toUpdatePlan }

/-- What a service process does; `Request` is the message of the monitor as a term. -/
inductive ServiceStep : Process TransId Pid Term Rate S → Option Order → Process TransId Pid Term Rate S →
    List Report → Bool → Prop
  | internalEvent {mode : Internal.Mode} {s₀ : S} {σ σ' : Internal.System TransId Pid Term Rate S}
      (e : Internal.Event TransId Pid Term Rate S) (out : Internal.Outside Term S) :
      e.isUpdate = false → e.Enabled mode σ → e.apply rt mode out σ = .ok σ' →
      ServiceStep (.internal mode s₀ σ) none (.internal mode s₀ σ') (reports monitor σ.sent σ'.sent)
        (Process.applies (.internal mode s₀ σ) (.internal mode s₀ σ') monitor)
  | internalBackground {mode : Internal.Mode} {s₀ : S} {σ σ' : Internal.System TransId Pid Term Rate S} :
      Internal.Background rt mode σ σ' →
      ServiceStep (.internal mode s₀ σ) none (.internal mode s₀ σ') (reports monitor σ.sent σ'.sent)
        (Process.applies (.internal mode s₀ σ) (.internal mode s₀ σ') monitor)
  | internalUpdate {mode : Internal.Mode} {s₀ : S} {σ σ' : Internal.System TransId Pid Term Rate S}
      (out : Internal.Outside Term S) :
      σ.ready = true → Internal.planned mode out monitor (internalPlan p) Request σ = .ok σ' →
      ServiceStep (.internal mode s₀ σ) (some .update) (.internal mode s₀ σ') (reports monitor σ.sent σ'.sent)
        (Process.applies (.internal mode s₀ σ) (.internal mode s₀ σ') monitor)
  | internalUpdateNow {mode : Internal.Mode} {s₀ : S} {σ σ' : Internal.System TransId Pid Term Rate S}
      (out : Internal.Outside Term S) (b : Bool) :
      σ.ready = true → Internal.updateNow rt mode out monitor b σ = .ok σ' →
      ServiceStep (.internal mode s₀ σ) (some (.updateNow b)) (.internal mode s₀ σ') (reports monitor σ.sent σ'.sent)
        (Process.applies (.internal mode s₀ σ) (.internal mode s₀ σ') monitor)
  | externalEvent {σ σ' : External.System TransId Pid Term Rate S} (e : External.Event TransId Pid Term Rate S)
      (out : External.Outside S) :
      External.isUpdate e = false → e.Enabled σ → e.apply rt out σ = .ok σ' →
      ServiceStep (.external σ) none (.external σ') (reports monitor σ.sent σ'.sent)
        (Process.applies (.external σ) (.external σ') monitor)
  | externalRecvTimeout {σ σ' : External.System TransId Pid Term Rate S} {m : RecvTimeout TransId}
      {t : RecvTimers TransId} :
      σ.waiting = false → Timers.Receive m σ.timers t → External.recvTimeout m { σ with timers := t } = .ok σ' →
      ServiceStep (.external σ) none (.external σ') (reports monitor σ.sent σ'.sent)
        (Process.applies (.external σ) (.external σ') monitor)
  | externalElapse {σ : External.System TransId Pid Term Rate S} {t : RecvTimers TransId} :
      Timers.Elapse σ.timers t →
      ServiceStep (.external σ) none (.external { σ with timers := t }) [] false
  | externalUpdate {σ : External.System TransId Pid Term Rate S} : σ.waiting = false →
      ServiceStep (.external σ) (some .update) (.external (External.update monitor (newPlan p.toUpdatePlan) σ))
        (reports monitor σ.sent (External.update monitor (newPlan p.toUpdatePlan) σ).sent)
        (Process.applies (.external σ) (.external (External.update monitor (newPlan p.toUpdatePlan) σ)) monitor)
  | externalUpdateNow {σ σ' : External.System TransId Pid Term Rate S} (out : External.Outside S) (b : Bool) :
      σ.waiting = false → External.updateNow rt out monitor b σ = .ok σ' →
      ServiceStep (.external σ) (some (.updateNow b)) (.external σ') (reports monitor σ.sent σ'.sent)
        (Process.applies (.external σ) (.external σ') monitor)
  | externalUpdateAfter {σ σ' : External.System TransId Pid Term Rate S} (out : External.Outside S) (b : Bool) :
      σ.waiting = true → External.updateAfter rt out b σ = .ok σ' →
      ServiceStep (.external σ) (some (.updateAfter b)) (.external σ') (reports monitor σ.sent σ'.sent)
        (Process.applies (.external σ) (.external σ') monitor)

/-- The service processes for a call of `monitor` with the plan `p`. -/
def service : Machine (Process TransId Pid Term Rate S) := ⟨ServiceStep rt monitor p Request⟩

end

end CloudI.Monitor.Update
