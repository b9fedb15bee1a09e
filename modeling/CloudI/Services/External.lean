import Mathlib.Logic.Relation
import CloudI.Services.Dispatcher

/-!
# The dispatcher of an external service

The process that hands service requests to one thread of an OS process, one
at a time. `Event.apply` is what it does with each message; time, and the
timers of the requests that wait, run beside it. Aspect functions, sockets and
the OS process are outside of the model: an event says what they did.
-/

namespace CloudI.Services.External

variable {TransId Pid Term Rate S : Type} [DecidableEq TransId]

/-- The states of the `gen_fsm`. -/
inductive StateName where
  | connect
  | initWait
  | handle
deriving DecidableEq

/-- The fields of `state` that handle incoming requests; `ready` is `initialize`. -/
structure State (TransId Pid Term Rate S : Type) where
  stateName : StateName
  ready : Bool
  incoming : Incoming TransId Pid Term
  updatePlan : Option (UpdatePlan Pid Rate S)
  queueRequests : Bool
  serviceState : S
  aspectsRequestAfterF : Option (Request TransId Pid Term)
  options : Options Rate

/-- The OS process: it polls once, and then has at most the request written to it last. -/
structure OsProcess (TransId Pid Term : Type) where
  polling : Bool
  outstanding : Option (Request TransId Pid Term)

/-- A dispatcher, with the messages it sent to itself and to others, its
timers and its OS process. While it is `waiting` it is in the `receive` of a
`cloudi_service_update_after` message, and handles nothing else. -/
structure System (TransId Pid Term Rate S : Type) where
  state : State TransId Pid Term Rate S
  waiting : Bool
  timers : RecvTimers TransId
  exit : Bool
  sent : List (Pid × Message TransId)
  os : OsProcess TransId Pid Term
  ledger : Ledger TransId

/-- The system when the dispatcher has been started. -/
def System.init (o : Options Rate) (serviceState : S) : System TransId Pid Term Rate S where
  state := { stateName := .connect, ready := false, incoming := {}, updatePlan := none, queueRequests := true,
             serviceState := serviceState, aspectsRequestAfterF := none, options := o }
  waiting := false
  timers := Timers.new
  exit := false
  sent := []
  os := { polling := true, outstanding := none }
  ledger := {}

/-- What the aspect functions returned. -/
inductive Aspects (S : Type) where
  | ok (timeout : Nat) (serviceState : S)
  | stop (serviceState : S)
  | raise

/-- What happened outside while a message was handled: the aspect functions
before a request, whether sending to the socket succeeded or a new socket was
opened, and whether a new OS process initialized. -/
structure Outside (S : Type) where
  aspects : Aspects S
  sendOk : Bool
  updateAfterOk : Bool

section

variable (rt : Runtime TransId Pid Term Rate) (out : Outside S)

/-- `process_queue/1` -/
def processQueue (σ : System TransId Pid Term Rate S) : Except Halt (System TransId Pid Term Rate S) :=
  if σ.state.queueRequests then
    match σ.state.incoming.queued.out1 with
    | (none, NewQueue) =>
      .ok { σ with state := { σ.state with queueRequests := false
                                           incoming := { σ.state.incoming with queued := NewQueue } } }
    | (some (Size, T), NewQueue) =>
      match out.aspects with
      | .ok _ NewServiceState => do
        let (Timeout, NewIncoming, NewTimers) ←
          orHalt (Incoming.start Size T.transId NewQueue σ.state.incoming σ.timers)
        if out.sendOk then
          return { σ with
            state := { σ.state with incoming := NewIncoming
                                    serviceState := NewServiceState
                                    aspectsRequestAfterF := some T }
            timers := NewTimers
            os := { σ.os with outstanding := some { T with timeout := Timeout } }
            ledger := { σ.ledger with started := T.transId :: σ.ledger.started } }
        else .error (.error .badmatch)
      | .stop NewServiceState =>
        .ok { σ with state := { σ.state with serviceState := NewServiceState }, exit := true }
      | .raise => .ok { σ with exit := true }
  else .error (.error .functionClause)

/-- `process_update/1`, for the plan `p`. Without a new OS process the queue
is processed next, by `process_queues/1` with no plan. For a new OS process the
plan goes on when the monitor says so. -/
def processUpdate (p : UpdatePlan Pid Rate S) (σ : System TransId Pid Term Rate S) :
    Except Halt (System TransId Pid Term Rate S) :=
  match p.updateNow with
  | none => .error (.error .badarg)
  | some UpdateNow =>
    if p.queueRequests then .error (.error .badmatch)
    else if p.type ≠ .external then
      processQueue out { σ with state := { σ.state with updatePlan := none }
                                sent := σ.sent ++ [(UpdateNow, .updateNow (some .type))] }
    else if ¬ p.updateStart then
      processQueue out { σ with state := { σ.state with updatePlan := none }
                                sent := σ.sent ++ [(UpdateNow, .updateNow (some .updateStartFailed))] }
    else if p.spawnOsProcess then
      if out.sendOk then
        .ok { σ with state := { σ.state with updatePlan := some p }
                     waiting := true
                     sent := σ.sent ++ [(UpdateNow, .updateNowPort)] }
      else .error .stop
    else if out.sendOk then
      processQueue out { σ with
        state := { σ.state with updatePlan := none, options := updateOptions rt p σ.state.options }
        sent := σ.sent ++ [(UpdateNow, .updateNow none)] }
    else .error (.error .badmatch)

/-- What `process_update/1` does with the `cloudi_service_update_after` message that it waits for. -/
def updateAfter (Result : Bool) (σ : System TransId Pid Term Rate S) : Except Halt (System TransId Pid Term Rate S) :=
  match σ.state.updatePlan with
  | some p =>
    if Result ∧ out.updateAfterOk then
      .ok { σ with state := { σ.state with updatePlan := none, options := updateOptions rt p σ.state.options }
                   waiting := false
                   os := { polling := true, outstanding := none } }
    else .error .stop
  | none => .error .stop

/-- `process_queues/1` -/
def processQueues (σ : System TransId Pid Term Rate S) : Except Halt (System TransId Pid Term Rate S) :=
  match σ.state.updatePlan with
  | some p =>
    let (p', answer) := planReady p
    let σ' := { σ with state := { σ.state with updatePlan := some p' }, sent := σ.sent ++ answer }
    if p.updateNow.isSome then processUpdate rt out p' σ' else .ok σ'
  | none => processQueue out σ

/-- A service request that is refused. -/
def refuse (o : Options Rate) (T : Request TransId Pid Term) (σ : System TransId Pid Term Rate S) :
    System TransId Pid Term Rate S :=
  { σ with state := { σ.state with options := o }, sent := σ.sent ++ refusal σ.state.options T }

/-- `handle_info` of a service request. -/
def sendRequest (T : Request TransId Pid Term) (σ : System TransId Pid Term Rate S) :
    Except Halt (System TransId Pid Term Rate S) :=
  if ¬ rt.isBinary T.request ∨ ¬ rt.isBinary T.requestInfo ∨ T.timeout = 0 then
    .ok (refuse σ.state.options T σ)
  else
    let (RateRequestOk, NewOptions) := rateRequest rt σ.state.options
    if σ.state.queueRequests then
      let (QueueOk, Size) := queueLimits rt σ.state.options T σ.state.incoming
      if QueueOk ∧ RateRequestOk then do
        let (NewIncoming, NewTimers) ←
          orHalt (Incoming.recvTimeoutStart T.timeout T.priority T.transId Size T σ.state.incoming σ.timers)
        return { σ with state := { σ.state with incoming := NewIncoming, options := NewOptions }
                        timers := NewTimers
                        ledger := { σ.ledger with accepted := T.transId :: σ.ledger.accepted } }
      else .ok (refuse NewOptions T σ)
    else if RateRequestOk then
      match out.aspects with
      | .ok NextTimeout NewServiceState =>
        if out.sendOk then
          .ok { σ with
            state := { σ.state with queueRequests := true
                                    serviceState := NewServiceState
                                    aspectsRequestAfterF := some T
                                    options := NewOptions }
            os := { σ.os with outstanding := some { T with timeout := NextTimeout } }
            ledger := { σ.ledger with accepted := T.transId :: σ.ledger.accepted
                                      started := T.transId :: σ.ledger.started } }
        else .error (.error .badmatch)
      | _ => .error .stop
    else .ok (refuse NewOptions T σ)

/-- `handle_info` of a timeout that was received. -/
def recvTimeout (m : RecvTimeout TransId) (σ : System TransId Pid Term Rate S) :
    Except Halt (System TransId Pid Term Rate S) := do
  let (Removed, NewIncoming) ← orHalt (Incoming.recvTimeout σ.state.queueRequests m σ.state.incoming)
  return { σ with
    state := { σ.state with incoming := NewIncoming }
    ledger := if Removed then { σ.ledger with timedOut := m.transId :: σ.ledger.timedOut } else σ.ledger }

/-- `'HANDLE'('polling')`; the event says what the aspect functions after the initialization returned. -/
def polling (aspectsInit : Aspects S) (σ : System TransId Pid Term Rate S) :
    Except Halt (System TransId Pid Term Rate S) :=
  match σ.state.stateName, aspectsInit with
  | .handle, .ok _ NewServiceState =>
    processQueues rt out { σ with state := { σ.state with serviceState := NewServiceState }
                                  os := { σ.os with polling := false } }
  | _, _ => .error .stop

/-- The `return_async`, `return_sync`, `forward_async` and `forward_sync`
messages of the OS process; without a request the function to call is
undefined, and the exception is caught. -/
def response (aspectsAfter : Aspects S) (σ : System TransId Pid Term Rate S) :
    Except Halt (System TransId Pid Term Rate S) :=
  match σ.state.stateName, σ.state.aspectsRequestAfterF, aspectsAfter with
  | .handle, some _, .ok _ NewServiceState =>
    processQueues rt out { σ with
      state := { σ.state with serviceState := NewServiceState, aspectsRequestAfterF := none }
      os := { σ.os with outstanding := none } }
  | _, _, _ => .error .stop

/-- `handle_info` of a `cloudi_service_update` message. -/
def update (UpdatePending : Pid) (p : UpdatePlan Pid Rate S) (σ : System TransId Pid Term Rate S) :
    System TransId Pid Term Rate S :=
  match σ.state.updatePlan with
  | some _ => σ
  | none =>
    if σ.state.stateName = .handle then
      let (p', answer) := planUpdate UpdatePending p σ.state.queueRequests
      { σ with state := { σ.state with updatePlan := some p', queueRequests := true }, sent := σ.sent ++ answer }
    else { σ with sent := σ.sent ++ [(UpdatePending, .update (some .invalidState))] }

/-- `handle_info` of a `cloudi_service_update_now` message. -/
def updateNow (UpdateNow : Pid) (UpdateStart : Bool) (σ : System TransId Pid Term Rate S) :
    Except Halt (System TransId Pid Term Rate S) :=
  match σ.state.updatePlan with
  | none => .error (.error .badmatch)
  | some p =>
    let p' := { p with updateNow := some UpdateNow, updateStart := UpdateStart }
    let σ' := { σ with state := { σ.state with updatePlan := some p' } }
    if p.queueRequests then .ok σ' else processUpdate rt out p' σ'

/-- `'CONNECT'('init')`; the initialization data is sent in `'INIT'('init')`. -/
def osInit (σ : System TransId Pid Term Rate S) : Except Halt (System TransId Pid Term Rate S) :=
  match σ.state.stateName, σ.state.ready with
  | .connect, false => .ok { σ with state := { σ.state with stateName := .initWait } }
  | .connect, true =>
    if out.sendOk then .ok { σ with state := { σ.state with stateName := .handle } } else .error (.error .badmatch)
  | _, _ => .error .stop

/-- `handle_info` of the message of the monitor that all processes have been spawned. -/
def monitorReady (σ : System TransId Pid Term Rate S) : Except Halt (System TransId Pid Term Rate S) :=
  match σ.state.stateName with
  | .connect => .ok { σ with state := { σ.state with ready := true } }
  | .initWait =>
    if out.sendOk then .ok { σ with state := { σ.state with stateName := .handle, ready := true } }
    else .error (.error .badmatch)
  | .handle => .error (.error .badmatch)

end

/-- The messages a dispatcher receives. -/
inductive Event (TransId Pid Term Rate S : Type) where
  | osInit
  | monitorReady
  | polling (aspectsInit : Aspects S)
  | request (T : Request TransId Pid Term)
  | response (aspectsAfter : Aspects S)
  | update (UpdatePending : Pid) (p : UpdatePlan Pid Rate S)
  | updateNow (UpdateNow : Pid) (UpdateStart : Bool)
  | updateAfter (Result : Bool)
  | exit

def Event.apply (rt : Runtime TransId Pid Term Rate) (out : Outside S) (e : Event TransId Pid Term Rate S)
    (σ : System TransId Pid Term Rate S) : Except Halt (System TransId Pid Term Rate S) :=
  match e with
  | osInit => External.osInit out σ
  | monitorReady => External.monitorReady out σ
  | polling aspectsInit => External.polling rt out aspectsInit σ
  | request T => sendRequest rt out T σ
  | response aspectsAfter => External.response rt out aspectsAfter σ
  | update UpdatePending p => .ok (External.update UpdatePending p σ)
  | updateNow UpdateNow UpdateStart => External.updateNow rt out UpdateNow UpdateStart σ
  | updateAfter Result => External.updateAfter rt out Result σ
  | exit => .error .stop

/-- The messages that can be handled: no transaction id is accepted twice, an
OS process polls once, and while the dispatcher waits the others stay in the
mailbox. -/
def Event.Enabled (σ : System TransId Pid Term Rate S) : Event TransId Pid Term Rate S → Prop
  | request T => σ.waiting = false ∧ T.transId ∉ σ.ledger.accepted
  | polling _ => σ.waiting = false ∧ σ.os.polling = true
  | updateAfter _ => σ.waiting = true
  | _ => σ.waiting = false

/-- One message handled, or time passed. -/
inductive Step (rt : Runtime TransId Pid Term Rate) : System TransId Pid Term Rate S →
    System TransId Pid Term Rate S → Prop
  | event {σ σ' : System TransId Pid Term Rate S} (e : Event TransId Pid Term Rate S) (out : Outside S) :
      e.Enabled σ → e.apply rt out σ = .ok σ' → Step rt σ σ'
  | recvTimeout {σ σ' : System TransId Pid Term Rate S} {m : RecvTimeout TransId} {t : RecvTimers TransId} :
      σ.waiting = false → Timers.Receive m σ.timers t → recvTimeout m { σ with timers := t } = .ok σ' → Step rt σ σ'
  | elapse {σ : System TransId Pid Term Rate S} {t : RecvTimers TransId} :
      Timers.Elapse σ.timers t → Step rt σ { σ with timers := t }

/-- The states of a dispatcher that keeps running. -/
inductive Reachable (rt : Runtime TransId Pid Term Rate) : System TransId Pid Term Rate S → Prop
  | init (o : Options Rate) (serviceState : S) : Reachable rt (System.init o serviceState)
  | step {σ σ' : System TransId Pid Term Rate S} : Reachable rt σ → Step rt σ σ' → Reachable rt σ'

end CloudI.Services.External
