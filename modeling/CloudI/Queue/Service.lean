import CloudI.Queue.Layout

/-!
# The queue service

A service that stores each request in its log before it sends it on, and holds it there until it has the response.
In `destination` mode the response goes back to the source of the request. In `both` mode the source has an id at
once, and the response is sent to it as a request with that id. For each id that was sent one message comes back
(`Outstanding`), a response or a timeout, and a timeout may be delayed. `Event.apply` is what the service does with
them, beside the `Effect`s that others see.
-/

namespace CloudI.Queue

variable {Id Pid Call Content : Type}

/-- `fault_isolation` -/
inductive Mode where
  | destination
  | both
deriving DecidableEq

/-- The source of a request: a process of the node, or of another one. -/
inductive Source (Pid : Type) where
  | node (pid : Pid)
  | remote (pid : Pid)

/-- `erlang:is_process_alive/1`, which raises for a process of another node. -/
def Source.isProcessAlive (alive : Bool) : Source Pid → Except Exn Bool
  | node _ => .ok alive
  | remote _ => .error .badarg

/-- `request`: what is stored. The content is passed on as it is. -/
inductive ServiceRequest (Id Pid Call Content : Type) where
  /-- `destination_request` -/
  | destinationRequest (call : Call) (content : Content) (timeout : Int) (transId : Id) (pid : Source Pid)
  /-- `both_request` -/
  | bothRequest (name : Call) (content : Content) (timeout : Int) (transId : Id) (nextName : Call) (nextTransId : Id)
  /-- `both_response` -/
  | bothResponse (name : Call) (content : Content) (timeout : Int) (transId : Id)

def ServiceRequest.transId : ServiceRequest Id Pid Call Content → Id
  | destinationRequest _ _ _ i _ => i
  | bothRequest _ _ _ i _ _ => i
  | bothResponse _ _ _ i => i

/-- The id that its response is sent with. -/
def ServiceRequest.next : ServiceRequest Id Pid Call Content → Option Id
  | bothRequest _ _ _ _ _ nextTransId => some nextTransId
  | _ => none

/-- What is stored for the request: itself, or its response. -/
def ServiceRequest.Holds (r : ServiceRequest Id Pid Call Content) : ServiceRequest Id Pid Call Content → Prop
  | bothResponse _ _ _ i => r.next = some i
  | stored => stored = r

/-- The arguments of the service. -/
structure ServiceConfig where
  mode : Mode
  retry : Nat
  retryDelay : Nat

/-- What comes for an id. -/
inductive Outstanding where
  /-- a response or a timeout of the destination -/
  | sent
  /-- the `timeout_async_active` message of a request that could not be sent -/
  | timeout
  /-- the `return_async_active` message of a request that is too old, with an empty response -/
  | returned
  /-- the timer of `retry_delay` -/
  | delayed
deriving DecidableEq

/-- What happens outside of a handler: the age of a request in milliseconds, whether its source is alive on the node,
the next id of the dispatcher, and whether a request can be sent. -/
structure ServiceEnv (Id : Type) where
  age : Int
  alive : Bool
  newId : Id
  sends : Bool

/-- What a handler does for the request with an id. -/
inductive Effect (Id : Type) where
  /-- the request is sent to its destination -/
  | send (transId : Id)
  /-- its response is returned to its source, or acknowledged by it -/
  | respond (transId : Id)
  /-- it is no longer stored, due to its timeout -/
  | expire (transId : Id)
deriving DecidableEq

/-- Both functions `send_async_active`: the id that a request is sent with, or would have been. -/
def sendAsyncActive (env : ServiceEnv Id) (id : Id) : Id × Outstanding := (id, if env.sends then .sent else .timeout)

/-- A request of the other mode does not match: the log has only requests of one. -/
def retry (mode : Mode) (env : ServiceEnv Id) :
    ServiceRequest Id Pid Call Content → Bool → Except Exn (Option (Id × Outstanding × List (Effect Id)))
  | .destinationRequest _ _ timeout transId pid, true =>
    if mode = .destination then do
      let alive ← pid.isProcessAlive env.alive
      if alive = false then return none
      else if env.age ≥ timeout then return none
      else
        let (id, out) := sendAsyncActive env env.newId
        return some (id, out, [.send transId])
    else .ok none
  | .bothRequest _ _ timeout transId _ _, again =>
    if mode = .both then
      if env.age ≥ timeout then .ok (some (transId, .returned, []))
      else if again then
        let (id, out) := sendAsyncActive env env.newId
        .ok (some (id, out, [.send transId]))
      else .ok none
    else .ok none
  | .bothResponse _ _ _ transId, true =>
    if mode = .both then
      let (id, out) := sendAsyncActive env transId
      .ok (some (id, out, [.send transId]))
    else .ok none
  | _, false => .ok none

/-- The service with its log, and the message that comes for each id. -/
structure Service (Id Pid Call Content : Type) where
  log : State Id (ServiceRequest Id Pid Call Content)
  outstanding : Dict Id Outstanding

variable (encode : Encode (ServiceRequest Id Pid Call Content)) (cfg : ServiceConfig) [DecidableEq Id]

/-- What the service handles. -/
inductive ServiceEvent (Id Pid Call Content : Type) where
  | request (env : ServiceEnv Id) (r : ServiceRequest Id Pid Call Content)
  | returnAsyncActive (env : ServiceEnv Id) (queueTransId : Id) (response : Content)
  | timeoutAsyncActive (env : ServiceEnv Id) (queueTransId : Id)
  | retryDelay (env : ServiceEnv Id) (queueTransId : Id)

/-- The request that is stored for a request of another service, in the mode of the service. -/
def ServiceRequest.Accepts (mode : Mode) : ServiceRequest Id Pid Call Content → Prop
  | destinationRequest .. => mode = .destination
  | bothRequest .. => mode = .both
  | bothResponse .. => False

def serviceRequest (env : ServiceEnv Id) (r : ServiceRequest Id Pid Call Content) (s : Service Id Pid Call Content) :
    Service Id Pid Call Content × List (Effect Id) :=
  let (chunk, nextLogging) := storeStart encode r s.log
  let (queueTransId, out) := sendAsyncActive env env.newId
  (⟨storeEnd queueTransId chunk nextLogging, s.outstanding.store queueTransId out⟩, [.send r.transId])

/-- `UpdateF` of `return_async_active` -/
def responseUpdate (response : Content) : UpdateF Id (ServiceRequest Id Pid Call Content)
  | .bothRequest _ _ timeout _ nextName nextTransId =>
    some (nextTransId, .bothResponse nextName response timeout nextTransId)
  | _ => none

def serviceReturn (env : ServiceEnv Id) (queueTransId : Id) (response : Content) (s : Service Id Pid Call Content) :
    Except Exn (Service Id Pid Call Content × List (Effect Id)) :=
  match cfg.mode with
  | .destination => do
    let (r, newLogging) ← erase queueTransId s.log
    match r with
    | .destinationRequest _ _ _ transId _ =>
      return (⟨newLogging, s.outstanding.erase queueTransId⟩, [.respond transId])
    | _ => throw .badmatch
  | .both => do
    let (newChunkRequest, newLogging) ← update encode queueTransId (responseUpdate response) s.log
    match newChunkRequest with
    | none => return (⟨newLogging, s.outstanding.erase queueTransId⟩, [.respond queueTransId])
    | some r =>
      let (id, out) := sendAsyncActive env r.transId
      return (⟨newLogging, (s.outstanding.erase queueTransId).store id out⟩, [.send r.transId])

/-- `erase_retry` of the log with `retry`, and what it did. -/
def serviceRetry (env : ServiceEnv Id) (queueTransId : Id) (s : Service Id Pid Call Content) :
    Except Exn (Service Id Pid Call Content × List (Effect Id)) := do
  let chunk ← s.log.chunks.fetch queueTransId
  let retried ← retry cfg.mode env chunk.request (decide (chunk.retries < cfg.retry))
  let newLogging ← eraseRetry queueTransId cfg.retry (fun _ _ => retried.map Prod.fst) s.log
  match retried with
  | none => return (⟨newLogging, s.outstanding.erase queueTransId⟩, [.expire chunk.request.transId])
  | some (id, out, effects) => return (⟨newLogging, (s.outstanding.erase queueTransId).store id out⟩, effects)

def ServiceEvent.apply (s : Service Id Pid Call Content) :
    ServiceEvent Id Pid Call Content → Except Exn (Service Id Pid Call Content × List (Effect Id))
  | request env r => .ok (serviceRequest encode env r s)
  | returnAsyncActive env queueTransId response => serviceReturn encode cfg env queueTransId response s
  | timeoutAsyncActive env queueTransId =>
    if cfg.retryDelay = 0 then serviceRetry cfg env queueTransId s
    else .ok (⟨s.log, s.outstanding.store queueTransId .delayed⟩, [])
  | .retryDelay env queueTransId => serviceRetry cfg env queueTransId s

/-- The message of the event can come. -/
def ServiceEvent.Enabled (s : Service Id Pid Call Content) : ServiceEvent Id Pid Call Content → Prop
  | request _ r => r.Accepts cfg.mode
  | returnAsyncActive _ i _ => s.outstanding i = some .sent ∨ s.outstanding i = some .returned
  | timeoutAsyncActive _ i => s.outstanding i = some .sent ∨ s.outstanding i = some .timeout
  | .retryDelay _ i => s.outstanding i = some .delayed

/-- The request that the service accepts. -/
def ServiceEvent.accepts : ServiceEvent Id Pid Call Content → List (ServiceRequest Id Pid Call Content)
  | request _ r => [r]
  | _ => []

/-- The ids that are new in an event. -/
def ServiceEvent.newIds : ServiceEvent Id Pid Call Content → List Id
  | request env (.bothRequest _ _ _ transId _ nextTransId) => [transId, nextTransId, env.newId]
  | request env r => [r.transId, env.newId]
  | returnAsyncActive env _ _ => [env.newId]
  | timeoutAsyncActive env _ => [env.newId]
  | .retryDelay env _ => [env.newId]

/-- A run of the service from an absent file, in which each event meets the condition: the requests that were accepted,
the ids so far, and the effects. New ids are globally fresh. -/
inductive Served (ok : Service Id Pid Call Content → ServiceEvent Id Pid Call Content → Prop) :
    Service Id Pid Call Content →
    List (ServiceRequest Id Pid Call Content) → List Id → List (Effect Id) → Prop where
  | start : Served ok ⟨State.empty, Dict.new⟩ [] [] []
  | step {s s' : Service Id Pid Call Content} {accepted : List (ServiceRequest Id Pid Call Content)} {used : List Id}
      {effects effects' : List (Effect Id)} (e : ServiceEvent Id Pid Call Content) :
      Served ok s accepted used effects → e.Enabled cfg s → ok s e →
      e.newIds.Nodup → (∀ i, i ∈ e.newIds → i ∉ used) → e.apply encode cfg s = .ok (s', effects') →
      Served ok s' (accepted ++ e.accepts) (used ++ e.newIds) (effects ++ effects')

end CloudI.Queue
