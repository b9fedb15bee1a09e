import CloudI.Framework.Serial
import CloudI.Services.Dispatcher

/-!
# The serial state of an internal service

The process of an internal service that hands service requests and info
messages to the callbacks of the service module: the dispatcher, or in
`duo_mode` a process of its own, which calls the module for the info messages
itself. The callbacks run in a request process and an info process (here the
workers), which send back their result, or exit with it when their uses are
exhausted. What a callback or `module_state` returns is given by the events;
the responses, aspects, the other options and the dynamic count of processes
are outside of the model.
-/

namespace CloudI.Services.Internal

variable {TransId Pid Term Rate S : Type} [DecidableEq TransId]

/-- The two state machines, with the states `state` and `state_duo`. -/
inductive Mode where
  | normal
  | duo
deriving DecidableEq

/-- What a worker is told to call the service module with. -/
inductive Callback (TransId Pid Term : Type) where
  | request (T : Request TransId Pid Term)
  | info (Request : Term)

/-- `cloudi_service_request_loop` and `cloudi_service_info_loop` messages to a worker. -/
structure Work (TransId Pid Term S : Type) where
  pid : Nat
  callback : Callback TransId Pid Term
  serviceState : S

/-- The result of a callback, as a message or (`exits`) as the reason of an `'EXIT'`. -/
structure Result (TransId Pid Term S : Type) where
  pid : Nat
  callback : Callback TransId Pid Term
  success : Bool
  serviceState : S
  exits : Bool

/-- `request_pid_uses` and `info_pid_uses`, with `none` for `infinity`. -/
structure PidUses where
  request : Option Nat
  info : Option Nat

inductive PidKey where
  | requestPidUses
  | requestPidOptions
  | infoPidUses
  | infoPidOptions
deriving DecidableEq

/-- The plan of an update, with the options of the workers. -/
structure Plan (Pid Rate S : Type) extends UpdatePlan Pid Rate S where
  pidKeys : List PidKey
  pidUses : PidUses

structure State (TransId Pid Term Rate S : Type) where
  incoming : Incoming TransId Pid Term
  updatePlan : Option (Plan Pid Rate S)
  queueRequests : Bool
  queuedInfo : List Term
  serviceState : S
  requestPid : Option Nat
  infoPid : Option Nat
  options : Options Rate
  pidUses : PidUses

/-- The workers, with the uses they have left, the messages to them that they
did not finish, their results that were not received, and all that was done to
the state of the service. -/
structure Workers (TransId Pid Term S : Type) where
  uses : Dict Nat (Option Nat)
  next : Nat
  running : List (Work TransId Pid Term S)
  results : List (Result TransId Pid Term S)
  trace : List (Activity (Callback TransId Pid Term) S)
  /-- at each update: how many callbacks had not returned, or their results had not been received -/
  updates : List Nat

/-- The service process with its workers and its timers; `infos` are the info
messages it accepted, in the order in which they came. -/
structure System (TransId Pid Term Rate S : Type) where
  state : State TransId Pid Term Rate S
  workers : Workers TransId Pid Term S
  timers : RecvTimers TransId
  ready : Bool
  sent : List (Pid × Message TransId)
  ledger : Ledger TransId
  infos : List Term

/-- The system while the service initializes, which leaves the service state `serviceState`. -/
def System.init (o : Options Rate) (uses : PidUses) (serviceState : S) : System TransId Pid Term Rate S where
  state := { incoming := {}, updatePlan := none, queueRequests := true, queuedInfo := [],
             serviceState := serviceState, requestPid := none, infoPid := none, options := o, pidUses := uses }
  workers := { uses := Dict.new, next := 0, running := [], results := [], trace := [], updates := [] }
  timers := Timers.new
  ready := false
  sent := []
  ledger := {}
  infos := []

/-- What `handle_module_info` returns in `duo_mode`, with `none` for a failure,
and how many info messages are behind it in the queue. -/
structure Outside (Term S : Type) where
  info : Nat → Term → S → Option S

namespace Workers

/-- A worker that lives gets the message. -/
def send (pid : Nat) (c : Callback TransId Pid Term) (s : S) (W : Workers TransId Pid Term S) :
    Workers TransId Pid Term S :=
  { W with running := W.running ++ [⟨pid, c, s⟩], trace := W.trace ++ [.started c s] }

/-- `handle_module_request_loop_pid/4` and `handle_module_info_loop_pid/4` -/
def loopPid (OldPid : Option Nat) (Uses : Option Nat) (c : Callback TransId Pid Term) (s : S)
    (W : Workers TransId Pid Term S) : Nat × Workers TransId Pid Term S :=
  match OldPid with
  | none => (W.next, { W with uses := W.uses.store W.next Uses, next := W.next + 1 }.send W.next c s)
  -- a message to a process that exited is lost
  | some pid => (pid, if W.uses pid = none then W else W.send pid c s)

/-- The worker is told to exit. -/
def stop (pid : Option Nat) (W : Workers TransId Pid Term S) : Workers TransId Pid Term S :=
  match pid with
  | none => W
  | some p => { W with uses := W.uses.erase p }

/-- The worker of `w` returns; `l₁` and `l₂` are the other messages, and `Uses` is what it had left. -/
def finish (w : Work TransId Pid Term S) (l₁ l₂ : List (Work TransId Pid Term S)) (Uses : Option Nat)
    (success : Bool) (s : S) (W : Workers TransId Pid Term S) : Workers TransId Pid Term S :=
  { W with
    uses := if Uses = some 1 then W.uses.erase w.pid else W.uses.store w.pid (Uses.map fun n => n - 1)
    running := l₁ ++ l₂
    results := W.results ++ [⟨w.pid, w.callback, success, s, Uses = some 1⟩]
    trace := W.trace ++ [.finished w.callback s] }

end Workers

section

variable (rt : Runtime TransId Pid Term Rate) (mode : Mode) (out : Outside Term S)

/-- `process_queue_info/1` -/
def processQueueInfo (σ : System TransId Pid Term Rate S) : Except Halt (System TransId Pid Term Rate S) :=
  if σ.state.queueRequests then
    match σ.state.queuedInfo with
    | [] => .ok { σ with state := { σ.state with queueRequests := false } }
    | Request :: NewQueueInfo =>
      let (InfoPid, W) := σ.workers.loopPid σ.state.infoPid σ.state.pidUses.info (.info Request) σ.state.serviceState
      .ok { σ with state := { σ.state with queuedInfo := NewQueueInfo, infoPid := some InfoPid }, workers := W }
  else .error (.error .functionClause)

/-- The callback for an info message is called by the process itself. -/
def callInfo (Request : Term) (NewServiceState : S) (σ : System TransId Pid Term Rate S) :
    System TransId Pid Term Rate S :=
  { σ with
    state := { σ.state with serviceState := NewServiceState }
    workers := { σ.workers with trace := σ.workers.trace ++
      [.started (.info Request) σ.state.serviceState] ++ [.finished (.info Request) NewServiceState] } }

/-- `duo_process_queue_info/1`; a `stop` tuple is no state, which `duo_process_queues/1` expects. -/
def duoProcessQueueInfo : List Term → System TransId Pid Term Rate S →
    Except Halt (System TransId Pid Term Rate S)
  | [], σ => .ok { σ with state := { σ.state with queueRequests := false, queuedInfo := [] } }
  | Request :: NewQueueInfo, σ =>
    match out.info NewQueueInfo.length Request σ.state.serviceState with
    | some NewServiceState =>
      duoProcessQueueInfo NewQueueInfo
        (callInfo Request NewServiceState { σ with state := { σ.state with queuedInfo := NewQueueInfo } })
    | none => .error (.error .badmatch)

/-- `process_queue/1` and `duo_process_queue/1` -/
def processQueue (σ : System TransId Pid Term Rate S) : Except Halt (System TransId Pid Term Rate S) :=
  if σ.state.queueRequests then
    match σ.state.incoming.queued.out1 with
    | (none, NewQueue) =>
      .ok { σ with state := { σ.state with queueRequests := false
                                           incoming := { σ.state.incoming with queued := NewQueue } } }
    | (some (Size, T), NewQueue) => do
      let (Timeout, NewIncoming, NewTimers) ←
        orHalt (Incoming.start Size T.transId NewQueue σ.state.incoming σ.timers)
      let (RequestPid, W) := σ.workers.loopPid σ.state.requestPid σ.state.pidUses.request
        (.request { T with timeout := Timeout }) σ.state.serviceState
      return { σ with
        state := { σ.state with incoming := NewIncoming, requestPid := some RequestPid }
        workers := W
        timers := NewTimers
        ledger := { σ.ledger with started := T.transId :: σ.ledger.started } }
  else .error (.error .functionClause)

/-- The queue of info messages is processed. -/
def processInfos (σ : System TransId Pid Term Rate S) : Except Halt (System TransId Pid Term Rate S) :=
  match mode with
  | .normal => processQueueInfo σ
  | .duo =>
    if σ.state.queueRequests then duoProcessQueueInfo out σ.state.queuedInfo σ else .error (.error .functionClause)

/-- `process_queues/1` and `duo_process_queues/1` with no plan: info messages
are processed before service requests. -/
def processQueuesNoPlan (σ : System TransId Pid Term Rate S) : Except Halt (System TransId Pid Term Rate S) := do
  let σ' ← processInfos mode out σ
  if σ'.state.queueRequests then return σ'
  else processQueue { σ' with state := { σ'.state with queueRequests := true } }

/-- The uses after `update_state/2`; in `duo_mode` those of the info process do not change. -/
def updatePidUses (p : Plan Pid Rate S) (Old : PidUses) : PidUses where
  request := if .requestPidUses ∈ p.pidKeys then p.pidUses.request else Old.request
  info := if mode = .normal ∧ .infoPidUses ∈ p.pidKeys then p.pidUses.info else Old.info

/-- `update_state/2` -/
def updateState (p : Plan Pid Rate S) (σ : System TransId Pid Term Rate S) : System TransId Pid Term Rate S :=
  let requestKey := .requestPidUses ∈ p.pidKeys ∨ .requestPidOptions ∈ p.pidKeys
  let infoKey := mode = .normal ∧ (.infoPidUses ∈ p.pidKeys ∨ .infoPidOptions ∈ p.pidKeys)
  { σ with
    state := { σ.state with requestPid := if requestKey then none else σ.state.requestPid
                            infoPid := if infoKey then none else σ.state.infoPid
                            options := updateOptions rt p.toUpdatePlan σ.state.options
                            pidUses := updatePidUses mode p σ.state.pidUses }
    workers := (σ.workers.stop (if requestKey then σ.state.requestPid else none)).stop
      (if infoKey then σ.state.infoPid else none) }

/-- The activity is an update. -/
def System.updated (NextServiceState : S) (σ : System TransId Pid Term Rate S) : System TransId Pid Term Rate S :=
  { σ with
    state := { σ.state with serviceState := NextServiceState }
    workers := { σ.workers with
      trace := σ.workers.trace ++ [.updated σ.state.serviceState NextServiceState]
      updates := σ.workers.updates ++ [σ.workers.running.length + σ.workers.results.length] } }

/-- `update/3`, and what it says to the process that coordinates the update. -/
def update (p : Plan Pid Rate S) (σ : System TransId Pid Term Rate S) :
    Option UpdateError × System TransId Pid Term Rate S :=
  if p.type ≠ .internal then (some .type, σ)
  else if ¬ p.updateStart then (some .updateStartFailed, σ)
  else
    match p.moduleState with
    | none => (none, (updateState rt mode p σ).updated σ.state.serviceState)
    | some ModuleState =>
      match ModuleState σ.state.serviceState with
      | some NewServiceState => (none, (updateState rt mode p σ).updated NewServiceState)
      -- the function was applied, and its error leaves the state as it is
      | none => (some .moduleState, σ.updated σ.state.serviceState)

/-- `process_update/1` and `duo_process_update/1`, for the plan `p` -/
def processUpdate (p : Plan Pid Rate S) (σ : System TransId Pid Term Rate S) :
    Except Halt (System TransId Pid Term Rate S) :=
  match p.updateNow with
  | none => .error (.error .badarg)
  | some UpdateNow =>
    if p.queueRequests then .error (.error .badmatch)
    else
      let (error, σ') := update rt mode p σ
      processQueuesNoPlan mode out { σ' with state := { σ'.state with updatePlan := none }
                                             sent := σ'.sent ++ [(UpdateNow, .updateNow error)] }

/-- `process_queues/1` and `duo_process_queues/1` -/
def processQueues (σ : System TransId Pid Term Rate S) : Except Halt (System TransId Pid Term Rate S) :=
  match σ.state.updatePlan with
  | some p =>
    let (p', answer) := planReady p.toUpdatePlan
    let p' := { p with toUpdatePlan := p' }
    let σ' := { σ with state := { σ.state with updatePlan := some p' }, sent := σ.sent ++ answer }
    if p.updateNow.isSome then processUpdate rt mode out p' σ' else .ok σ'
  | none => processQueuesNoPlan mode out σ

/-- The end of `cloudi_service_init_execute`. -/
def initExecute (σ : System TransId Pid Term Rate S) : Except Halt (System TransId Pid Term Rate S) :=
  processQueues rt mode out { σ with ready := true }

/-- A service request that is refused. -/
def refuse (o : Options Rate) (T : Request TransId Pid Term) (σ : System TransId Pid Term Rate S) :
    System TransId Pid Term Rate S :=
  { σ with state := { σ.state with options := o }, sent := σ.sent ++ refusal σ.state.options T }

/-- `handle_info` and `duo_handle_info` of a service request. -/
def sendRequest (T : Request TransId Pid Term) (σ : System TransId Pid Term Rate S) :
    Except Halt (System TransId Pid Term Rate S) :=
  if σ.state.queueRequests then
    if T.timeout = 0 then .ok (refuse σ.state.options T σ)
    else
      let (QueueOk, Size) := queueLimits rt σ.state.options T σ.state.incoming
      let (RateRequestOk, NewOptions) := rateRequest rt σ.state.options
      if QueueOk ∧ RateRequestOk then do
        let (NewIncoming, NewTimers) ←
          orHalt (Incoming.recvTimeoutStart T.timeout T.priority T.transId Size T σ.state.incoming σ.timers)
        return { σ with state := { σ.state with incoming := NewIncoming, options := NewOptions }
                        timers := NewTimers
                        ledger := { σ.ledger with accepted := T.transId :: σ.ledger.accepted } }
      else .ok (refuse NewOptions T σ)
  else
    let (RateRequestOk, NewOptions) := rateRequest rt σ.state.options
    if RateRequestOk then
      let (RequestPid, W) := σ.workers.loopPid σ.state.requestPid σ.state.pidUses.request (.request T)
        σ.state.serviceState
      .ok { σ with
        state := { σ.state with queueRequests := true, requestPid := some RequestPid, options := NewOptions }
        workers := W
        ledger := { σ.ledger with accepted := T.transId :: σ.ledger.accepted
                                  started := T.transId :: σ.ledger.started } }
    else .ok (refuse NewOptions T σ)

/-- `handle_info_message/2`, and the last clauses of `duo_handle_info/2`. -/
def handleInfoMessage (Request : Term) (σ : System TransId Pid Term Rate S) :
    Except Halt (System TransId Pid Term Rate S) :=
  let σ := { σ with infos := σ.infos ++ [Request] }
  if σ.state.queueRequests then
    .ok { σ with state := { σ.state with queuedInfo := σ.state.queuedInfo ++ [Request] } }
  else
    match mode with
    | .normal =>
      let (InfoPid, W) := σ.workers.loopPid σ.state.infoPid σ.state.pidUses.info (.info Request) σ.state.serviceState
      .ok { σ with state := { σ.state with queueRequests := true, infoPid := some InfoPid }, workers := W }
    | .duo =>
      match out.info 0 Request σ.state.serviceState with
      | some NewServiceState => .ok (callInfo Request NewServiceState σ)
      | none => .error .stop

/-- `handle_info` and `duo_handle_info` of a timeout that was received. -/
def recvTimeout (m : RecvTimeout TransId) (σ : System TransId Pid Term Rate S) :
    Except Halt (System TransId Pid Term Rate S) := do
  let (Removed, NewIncoming) ← orHalt (Incoming.recvTimeout σ.state.queueRequests m σ.state.incoming)
  return { σ with
    state := { σ.state with incoming := NewIncoming }
    ledger := if Removed then { σ.ledger with timedOut := m.transId :: σ.ledger.timedOut } else σ.ledger }

/-- The state after an `'EXIT'` with the result `r`, if it is from a worker of
the process; `state_duo` has no info process. -/
def resultExit (r : Result TransId Pid Term S) (st : State TransId Pid Term Rate S) :
    Option (State TransId Pid Term Rate S) :=
  match r.callback with
  | .request _ => if st.requestPid = some r.pid then some { st with requestPid := none } else none
  | .info _ =>
    if st.requestPid = some r.pid then none
    else if st.infoPid = some r.pid ∧ mode = .normal then some { st with infoPid := none }
    else none

/-- `handle_info` and `duo_handle_info` of the result of a callback. -/
def result (r : Result TransId Pid Term S) (σ : System TransId Pid Term Rate S) :
    Except Halt (System TransId Pid Term Rate S) :=
  match if r.exits then resultExit mode r σ.state else some σ.state with
  | none => .error .stop
  | some st =>
    if r.success then processQueues rt mode out { σ with state := { st with serviceState := r.serviceState } }
    else .error .stop

/-- `handle_info` and `duo_handle_info` of a `cloudi_service_update` message,
which is the info message `Request` to a process that has a plan. -/
def planned (UpdatePending : Pid) (p : Plan Pid Rate S) (Request : Term) (σ : System TransId Pid Term Rate S) :
    Except Halt (System TransId Pid Term Rate S) :=
  match σ.state.updatePlan with
  | some _ => handleInfoMessage mode out Request σ
  | none =>
    let (p', answer) := planUpdate UpdatePending p.toUpdatePlan σ.state.queueRequests
    .ok { σ with state := { σ.state with updatePlan := some { p with toUpdatePlan := p' }, queueRequests := true }
                 sent := σ.sent ++ answer }

/-- `handle_info` and `duo_handle_info` of a `cloudi_service_update_now` message. -/
def updateNow (UpdateNow : Pid) (UpdateStart : Bool) (σ : System TransId Pid Term Rate S) :
    Except Halt (System TransId Pid Term Rate S) :=
  match σ.state.updatePlan with
  | none => .error (.error .badmatch)
  | some p =>
    let p' := { p with updateNow := some UpdateNow, updateStart := UpdateStart }
    let σ' := { σ with state := { σ.state with updatePlan := some p' } }
    if p.queueRequests then .ok σ' else processUpdate rt mode out p' σ'

end

/-- The messages that the process receives, but for the results of its workers. -/
inductive Event (TransId Pid Term Rate S : Type) where
  | initExecute
  | request (T : Request TransId Pid Term)
  | info (Request : Term)
  | update (UpdatePending : Pid) (p : Plan Pid Rate S) (Request : Term)
  | updateNow (UpdateNow : Pid) (UpdateStart : Bool)
  | exit

def Event.apply (rt : Runtime TransId Pid Term Rate) (mode : Mode) (out : Outside Term S)
    (e : Event TransId Pid Term Rate S) (σ : System TransId Pid Term Rate S) :
    Except Halt (System TransId Pid Term Rate S) :=
  match e with
  | initExecute => Internal.initExecute rt mode out σ
  | request T => sendRequest rt T σ
  | info Request => handleInfoMessage mode out Request σ
  | update UpdatePending p Request => planned mode out UpdatePending p Request σ
  | updateNow UpdateNow UpdateStart => Internal.updateNow rt mode out UpdateNow UpdateStart σ
  | exit => .error .stop

/-- The messages that can come: while the service initializes, only info
messages to the process that stands for the dispatcher then; and no
transaction id is accepted twice. -/
def Event.Enabled (mode : Mode) (σ : System TransId Pid Term Rate S) : Event TransId Pid Term Rate S → Prop
  | initExecute => σ.ready = false
  | request T => σ.ready = true ∧ T.transId ∉ σ.ledger.accepted
  | info _ => σ.ready = true ∨ mode = .normal
  | _ => σ.ready = true

/-- The messages of the monitor that update the service. -/
def Event.isUpdate : Event TransId Pid Term Rate S → Bool
  | update _ _ _ => true
  | updateNow _ _ => true
  | _ => false

/-- A worker returns, its result or a timeout is handled, or time passed. -/
inductive Background (rt : Runtime TransId Pid Term Rate) (mode : Mode) : System TransId Pid Term Rate S →
    System TransId Pid Term Rate S → Prop
  | work {σ : System TransId Pid Term Rate S} {w : Work TransId Pid Term S} {l₁ l₂ : List (Work TransId Pid Term S)}
      {Uses : Option Nat} (success : Bool) (s : S) :
      σ.workers.running = l₁ ++ w :: l₂ → σ.workers.uses w.pid = some Uses →
      Background rt mode σ { σ with workers := σ.workers.finish w l₁ l₂ Uses success s }
  | result {σ σ' : System TransId Pid Term Rate S} {r : Result TransId Pid Term S}
      {l₁ l₂ : List (Result TransId Pid Term S)} (out : Outside Term S) :
      σ.workers.results = l₁ ++ r :: l₂ →
      result rt mode out r { σ with workers := { σ.workers with results := l₁ ++ l₂ } } = .ok σ' →
      Background rt mode σ σ'
  | recvTimeout {σ σ' : System TransId Pid Term Rate S} {m : RecvTimeout TransId} {t : RecvTimers TransId} :
      Timers.Receive m σ.timers t → recvTimeout m { σ with timers := t } = .ok σ' → Background rt mode σ σ'
  | elapse {σ : System TransId Pid Term Rate S} {t : RecvTimers TransId} :
      Timers.Elapse σ.timers t → Background rt mode σ { σ with timers := t }

/-- One message handled by the process or by a worker, or time passed. -/
inductive Step (rt : Runtime TransId Pid Term Rate) (mode : Mode) : System TransId Pid Term Rate S →
    System TransId Pid Term Rate S → Prop
  | event {σ σ' : System TransId Pid Term Rate S} (e : Event TransId Pid Term Rate S) (out : Outside Term S) :
      e.Enabled mode σ → e.apply rt mode out σ = .ok σ' → Step rt mode σ σ'
  | background {σ σ' : System TransId Pid Term Rate S} : Background rt mode σ σ' → Step rt mode σ σ'

/-- The states of a process that keeps running, for a service that initialized with `s₀`. -/
inductive Reachable (rt : Runtime TransId Pid Term Rate) (mode : Mode) (s₀ : S) :
    System TransId Pid Term Rate S → Prop
  | init (o : Options Rate) (uses : PidUses) : Reachable rt mode s₀ (System.init o uses s₀)
  | step {σ σ' : System TransId Pid Term Rate S} :
      Reachable rt mode s₀ σ → Step rt mode σ σ' → Reachable rt mode s₀ σ'

end CloudI.Services.Internal
