import CloudI.Services.Incoming

/-!
# What the dispatchers share

The configuration options that the handlers of service requests read, the
plan of a service update, the messages sent, and the parts of these handlers
that the external and the internal services have in common.
-/

namespace CloudI.Services

/-- Why a dispatcher stops: a `stop` tuple (or an exit), or an exception. -/
inductive Halt where
  | stop
  | error (e : Exn)

/-- An exception stops the dispatcher. -/
def orHalt {α : Type} : Except Exn α → Except Halt α := Except.mapError .error

/-- The fields of `config_service_options` that the handlers read. -/
structure Options (Rate : Type) where
  queueLimit : Option Nat
  queueSize : Option Nat
  rateRequestMax : Option Rate
  responseTimeoutImmediateMax : Nat

inductive OptionsKey where
  | queueLimit
  | queueSize
  | rateRequestMax
  | responseTimeoutImmediateMax
  | other
deriving DecidableEq

inductive ServiceType where
  | internal
  | external
deriving DecidableEq

/-- The fields of `config_service_update` that the dispatchers read. The
function `module_state` is given without the module versions, and by `none`
where it returns or raises anything but `{ok, NewState}`. -/
structure UpdatePlan (Pid Rate S : Type) where
  type : ServiceType
  moduleState : Option (S → Option S)
  sync : Bool
  optionsKeys : List OptionsKey
  options : Options Rate
  spawnOsProcess : Bool
  updatePending : Option Pid
  updateNow : Option Pid
  updateStart : Bool
  queueRequests : Bool

inductive UpdateError where
  | invalidState
  | type
  | updateStartFailed
  | moduleState
deriving DecidableEq

/-- The messages that a dispatcher sends to other processes. -/
inductive Message (TransId : Type) where
  /-- a return with an empty response -/
  | returnNull (sendType : SendType) (name pattern : List Nat) (timeout : Nat) (transId : TransId)
  | update (error : Option UpdateError)
  | updateNow (error : Option UpdateError)
  /-- the port of a new OS process -/
  | updateNowPort

/-- What the handlers call outside of the dispatchers: the size of a term in
bytes, and the rate limit. -/
structure Runtime (TransId Pid Term Rate : Type) where
  isBinary : Term → Bool
  byteSize : Request TransId Pid Term → Nat
  rateRequestRequest : Rate → Bool × Rate
  rateRequestInit : Rate → Rate

variable {TransId Pid Term Rate S : Type}

/-- `service_options_copy/3` -/
def serviceOptionsCopy (OptionsKeys : List OptionsKey) (Old New : Options Rate) : Options Rate :=
  OptionsKeys.foldl (fun o k =>
    match k with
    | .queueLimit => { o with queueLimit := New.queueLimit }
    | .queueSize => { o with queueSize := New.queueSize }
    | .rateRequestMax => { o with rateRequestMax := New.rateRequestMax }
    | .responseTimeoutImmediateMax => { o with responseTimeoutImmediateMax := New.responseTimeoutImmediateMax }
    | .other => o) Old

/-- The options after `update_state/2`. -/
def updateOptions (rt : Runtime TransId Pid Term Rate) (p : UpdatePlan Pid Rate S) (Old : Options Rate) :
    Options Rate :=
  let o := serviceOptionsCopy p.optionsKeys Old p.options
  if .rateRequestMax ∈ p.optionsKeys then { o with rateRequestMax := o.rateRequestMax.map rt.rateRequestInit } else o

/-- The rate limit says whether another request is allowed. -/
def rateRequest (rt : Runtime TransId Pid Term Rate) (o : Options Rate) : Bool × Options Rate :=
  match o.rateRequestMax with
  | none => (true, o)
  | some r => ((rt.rateRequestRequest r).1, { o with rateRequestMax := some (rt.rateRequestRequest r).2 })

/-- The checks of a request that has to wait, and its size. -/
def queueLimits (rt : Runtime TransId Pid Term Rate) (o : Options Rate) (T : Request TransId Pid Term)
    (s : Incoming TransId Pid Term) : Bool × Nat :=
  let QueueLimitOk := o.queueLimit.all fun n => s.queued.len < n
  match o.queueSize with
  | none => (QueueLimitOk, 0)
  | some QueueSize => (QueueLimitOk && s.queuedSize + rt.byteSize T ≤ QueueSize, rt.byteSize T)

/-- The answer to a request that is refused. -/
def refusal (o : Options Rate) (T : Request TransId Pid Term) : List (Pid × Message TransId) :=
  if o.responseTimeoutImmediateMax ≤ T.timeout then
    [(T.source, .returnNull T.sendType T.name T.pattern T.timeout T.transId)]
  else []

/-- `handle_info` of a `cloudi_service_update` message: the plan kept, and the answer. -/
def planUpdate (UpdatePending : Pid) (p : UpdatePlan Pid Rate S) (QueueRequests : Bool) :
    UpdatePlan Pid Rate S × List (Pid × Message TransId) :=
  if p.sync ∧ QueueRequests then
    ({ p with updatePending := some UpdatePending, queueRequests := QueueRequests }, [])
  else ({ p with queueRequests := QueueRequests }, [(UpdatePending, .update none)])

/-- `process_queues/1` with a plan: no request is handled any more, and the answer if it is due. -/
def planReady (p : UpdatePlan Pid Rate S) : UpdatePlan Pid Rate S × List (Pid × Message TransId) :=
  match p.updatePending with
  | some UpdatePending => ({ p with updatePending := none, queueRequests := false }, [(UpdatePending, .update none)])
  | none => ({ p with queueRequests := false }, [])

@[simp] theorem planUpdate_queueRequests (P : Pid) (p : UpdatePlan Pid Rate S) (b : Bool) :
    (@planUpdate TransId _ _ _ P p b).1.queueRequests = b := by
  rw [planUpdate]
  split <;> rfl

@[simp] theorem planReady_queueRequests (p : UpdatePlan Pid Rate S) :
    (@planReady TransId _ _ _ p).1.queueRequests = false := by
  rw [planReady]
  split <;> rfl

@[simp] theorem planReady_updateNow (p : UpdatePlan Pid Rate S) :
    (@planReady TransId _ _ _ p).1.updateNow = p.updateNow := by
  rw [planReady]
  split <;> rfl

end CloudI.Services
