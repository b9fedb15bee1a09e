import Mathlib.Logic.Relation
import CloudI.Framework.Dict
import CloudI.Framework.Lists
import CloudI.Framework.Timers

/-!
# The requests that a service sent

A dispatcher keeps a timer for each request it sent, and monitors the process
a request was sent to unless its timeout is below
`request_timeout_immediate_max`. `Event.apply` is what a dispatcher does when
a request is sent, a response or a timeout comes, or a destination dies; time
passes beside it. The two kinds of dispatcher differ in what they do with a
response.
-/

namespace CloudI.Services.SendTimeouts

variable {TransId Pid Client Term : Type}

/-- The first field of a request that was sent: how its response is received. -/
inductive Receiver (Client : Type) where
  | active
  | passive
  | client (c : Client)

/-- The messages of the timers. -/
inductive TimeoutMessage (TransId : Type) where
  | sendAsync (transId : TransId)
  | sendSync (transId : TransId)
  | recvAsync (transId : TransId)
deriving DecidableEq

/-- The request that was sent whose timeout the message is. -/
def TimeoutMessage.request : TimeoutMessage TransId → Option TransId
  | sendAsync i => some i
  | sendSync i => some i
  | recvAsync _ => none

/-- The message of the timer of a request. -/
def Receiver.message (r : Receiver Client) (i : TransId) : TimeoutMessage TransId :=
  match r with
  | active => .sendAsync i
  | passive => .sendAsync i
  | client _ => .sendSync i

@[simp] theorem request_message (r : Receiver Client) (i : TransId) : (r.message i).request = some i := by
  cases r <;> rfl

abbrev SendTimers (TransId : Type) := Timers (TimeoutMessage TransId)

/-- The fields of `state` about the requests that were sent. -/
structure State (TransId Pid Client Term : Type) where
  dispatcher : Pid
  sendTimeouts : Dict TransId (Receiver Client × Option Pid × Nat)
  sendTimeoutMonitors : Dict Pid (Nat × List TransId)
  asyncResponses : Dict TransId (Term × Term)
  requestTimeoutImmediateMax : Nat
  responseTimeoutAdjustment : Bool

/-- A response, as `return_async` and `return_sync` have it. -/
structure Response (TransId Pid Term : Type) where
  name : Term
  pattern : Term
  responseInfo : Term
  response : Term
  timeout : Nat
  transId : TransId
  source : Pid

/-- What the dispatcher sends to its receiver, to a caller that waits, or to the socket. -/
inductive Output (TransId Pid Client Term : Type) where
  | timeoutAsyncActive (transId : TransId)
  | returnAsyncActive (r : Response TransId Pid Term) (timeout : Nat)
  | reply (c : Client) (response : Option (Term × Term))
  | returnSyncOut (transId : TransId) (response : Option (Term × Term))

/-- A dispatcher with its timers, the references of its monitors so far, what
it sent, and the identifiers of the requests it sent. -/
structure System (TransId Pid Client Term : Type) where
  state : State TransId Pid Client Term
  timers : SendTimers TransId
  monitorRefs : Nat
  output : List (Output TransId Pid Client Term)
  sent : List TransId

def System.init (Dispatcher : Pid) (RequestTimeoutImmediateMax : Nat) (ResponseTimeoutAdjustment : Bool) :
    System TransId Pid Client Term where
  state := { dispatcher := Dispatcher, sendTimeouts := Dict.new, sendTimeoutMonitors := Dict.new,
             asyncResponses := Dict.new, requestTimeoutImmediateMax := RequestTimeoutImmediateMax,
             responseTimeoutAdjustment := ResponseTimeoutAdjustment }
  timers := Timers.new
  monitorRefs := 0
  output := []
  sent := []

variable [LinearOrder TransId] [DecidableEq Pid]

/-! ## The bookkeeping -/

/-- The request is added to those of its destination, which is monitored from the first one on. -/
def monitorRequest (i : TransId) (P : Pid) (σ : System TransId Pid Client Term) : System TransId Pid Client Term :=
  match σ.state.sendTimeoutMonitors P with
  | some (MonitorRef, TransIdList) => { σ with state := { σ.state with
      sendTimeoutMonitors := σ.state.sendTimeoutMonitors.store P (MonitorRef, umerge TransIdList [i]) } }
  | none => { σ with
      state := { σ.state with sendTimeoutMonitors := σ.state.sendTimeoutMonitors.store P (σ.monitorRefs, [i]) }
      monitorRefs := σ.monitorRefs + 1 }

/-- The timer of a request is started, and the request is kept with its destination. -/
def storeRequest (r : Receiver Client) (Destination : Option Pid) (Timeout : Nat) (i : TransId)
    (σ : System TransId Pid Client Term) : System TransId Pid Client Term :=
  let (Tref, timers) := σ.timers.sendAfter Timeout (r.message i)
  { σ with
    state := { σ.state with sendTimeouts := σ.state.sendTimeouts.store i (r, Destination, Tref) }
    timers := timers
    sent := i :: σ.sent }

/-- What the functions that start the timeout of a request do. -/
def timeoutStart (r : Receiver Client) (Timeout : Nat) (i : TransId) (P : Pid)
    (σ : System TransId Pid Client Term) : System TransId Pid Client Term :=
  if Timeout ≥ σ.state.requestTimeoutImmediateMax then storeRequest r (some P) Timeout i (monitorRequest i P σ)
  else storeRequest r none Timeout i σ

/-- `send_async_timeout_start/4` -/
def sendAsyncTimeoutStart (Timeout : Nat) (i : TransId) (P : Pid) (σ : System TransId Pid Client Term) :
    System TransId Pid Client Term := timeoutStart .passive Timeout i P σ

/-- `send_async_active_timeout_start/4` -/
def sendAsyncActiveTimeoutStart (Timeout : Nat) (i : TransId) (P : Pid) (σ : System TransId Pid Client Term) :
    System TransId Pid Client Term := timeoutStart .active Timeout i P σ

/-- `send_sync_timeout_start/5` -/
def sendSyncTimeoutStart (Timeout : Nat) (i : TransId) (P : Pid) (c : Client) (σ : System TransId Pid Client Term) :
    System TransId Pid Client Term := timeoutStart (.client c) Timeout i P σ

/-- The monitors after the end of a request of the process. -/
def demonitorRequest (i : TransId) (P : Pid) (SendTimeoutMonitors : Dict Pid (Nat × List TransId)) :
    Dict Pid (Nat × List TransId) :=
  match SendTimeoutMonitors P with
  | some (MonitorRef, TransIdList) =>
    if TransIdList = [i] then SendTimeoutMonitors.erase P
    else SendTimeoutMonitors.store P (MonitorRef, TransIdList.erase i)
  | none => SendTimeoutMonitors

/-- The monitors after the end of a request, which may have no destination. -/
def endMonitor (i : TransId) (Destination : Option Pid) (SendTimeoutMonitors : Dict Pid (Nat × List TransId)) :
    Dict Pid (Nat × List TransId) :=
  match Destination with
  | some P => demonitorRequest i P SendTimeoutMonitors
  | none => SendTimeoutMonitors

/-- `send_timeout_end/3` -/
def sendTimeoutEnd (i : TransId) (Destination : Option Pid) (σ : System TransId Pid Client Term) :
    System TransId Pid Client Term :=
  { σ with state := { σ.state with
    sendTimeouts := σ.state.sendTimeouts.erase i
    sendTimeoutMonitors := endMonitor i Destination σ.state.sendTimeoutMonitors } }

/-- A request to a process that died: its timeout comes at once, unless it came already. -/
def timeoutDead (σ : System TransId Pid Client Term) (i : TransId) : System TransId Pid Client Term :=
  match σ.state.sendTimeouts i with
  | some (r, _, Tref) =>
    let (left, timers) := σ.timers.cancelTimer Tref
    { σ with
      state := { σ.state with sendTimeouts := σ.state.sendTimeouts.store i (r, none, Tref) }
      timers := match left with
        | none => timers
        | some _ => { timers with mailbox := timers.mailbox ++ [r.message i] } }
  | none => σ

/-- `send_timeout_dead/2` -/
def sendTimeoutDead (P : Pid) (σ : System TransId Pid Client Term) : Bool × System TransId Pid Client Term :=
  match σ.state.sendTimeoutMonitors P with
  | some (_, TransIdList) =>
    let σ' := TransIdList.foldl timeoutDead σ
    (true, { σ' with state := { σ'.state with sendTimeoutMonitors := σ'.state.sendTimeoutMonitors.erase P } })
  | none => (false, σ)

/-! ## The messages -/

/-- What the dispatcher asks about terms. -/
structure Runtime (Term : Type) where
  empty : Term → Bool
  isBinary : Term → Bool

section

variable (rt : Runtime Term)

/-- The latency of `cancel_timer/1` is avoided for short timeouts. -/
def cancels (OldTimeout : Nat) (s : State TransId Pid Client Term) : Bool :=
  s.responseTimeoutAdjustment || decide (OldTimeout ≥ s.requestTimeoutImmediateMax)

/-- `cancel_timer_async/1`, for the timeouts that are cancelled. -/
def cancelTimerAsync (OldTimeout Tref : Nat) (σ : System TransId Pid Client Term) : System TransId Pid Client Term :=
  if cancels OldTimeout σ.state then { σ with timers := (σ.timers.cancelTimer Tref).2 } else σ

/-- The time left to receive a response. -/
def responseTimeout (OldTimeout Tref : Nat) (σ : System TransId Pid Client Term) :
    Nat × System TransId Pid Client Term :=
  if cancels OldTimeout σ.state then
    let (left, timers) := σ.timers.cancelTimer Tref
    (left.getD 0, { σ with timers := timers })
  else (OldTimeout, σ)

/-- `async_response_timeout_start/5` -/
def asyncResponseTimeoutStart (ResponseInfo Response : Term) (Timeout : Nat) (i : TransId)
    (σ : System TransId Pid Client Term) : System TransId Pid Client Term :=
  if Timeout = 0 then σ
  else { σ with
    timers := (σ.timers.sendAfter Timeout (.recvAsync i)).2
    state := { σ.state with asyncResponses := σ.state.asyncResponses.store i (ResponseInfo, Response) } }

def System.out (o : Output TransId Pid Client Term) (σ : System TransId Pid Client Term) :
    System TransId Pid Client Term := { σ with output := o :: σ.output }

/-- `return_async` of an internal service -/
def Internal.returnAsync (r : Response TransId Pid Term) (σ : System TransId Pid Client Term) :
    Except Exn (System TransId Pid Client Term) :=
  if r.source ≠ σ.state.dispatcher then .error .badmatch
  else
    match σ.state.sendTimeouts r.transId with
    | none => .ok σ
    | some (.active, Destination, Tref) =>
      if rt.empty r.responseInfo ∧ rt.empty r.response then
        let σ := cancelTimerAsync r.timeout Tref σ
        .ok (sendTimeoutEnd r.transId Destination (σ.out (.timeoutAsyncActive r.transId)))
      else
        let (Timeout, σ) := responseTimeout r.timeout Tref σ
        .ok (sendTimeoutEnd r.transId Destination (σ.out (.returnAsyncActive r Timeout)))
    | some (.passive, Destination, Tref) =>
      if rt.empty r.responseInfo ∧ rt.empty r.response then
        .ok (sendTimeoutEnd r.transId Destination (cancelTimerAsync r.timeout Tref σ))
      else
        let (Timeout, σ) := responseTimeout r.timeout Tref σ
        .ok (sendTimeoutEnd r.transId Destination
          (asyncResponseTimeoutStart r.responseInfo r.response Timeout r.transId σ))
    | some (.client _, _, _) => .error .caseClause

/-- `return_async` of an external service -/
def External.returnAsync (r : Response TransId Pid Term) (σ : System TransId Pid Client Term) :
    Except Exn (System TransId Pid Client Term) :=
  if r.source ≠ σ.state.dispatcher then .error .badmatch
  else
    match σ.state.sendTimeouts r.transId with
    | none => .ok σ
    | some (.passive, Destination, Tref) =>
      if rt.empty r.responseInfo ∧ rt.empty r.response then
        .ok (sendTimeoutEnd r.transId Destination (cancelTimerAsync r.timeout Tref σ))
      else
        let (Timeout, σ) := responseTimeout r.timeout Tref σ
        let σ := if rt.isBinary r.responseInfo ∧ rt.isBinary r.response then
          asyncResponseTimeoutStart r.responseInfo r.response Timeout r.transId σ else σ
        .ok (sendTimeoutEnd r.transId Destination σ)
    | some _ => .error .caseClause

/-- `return_sync` of an internal service; `gen_server:reply/2` takes only a client. -/
def Internal.returnSync (r : Response TransId Pid Term) (σ : System TransId Pid Client Term) :
    Except Exn (System TransId Pid Client Term) :=
  if r.source ≠ σ.state.dispatcher then .error .badmatch
  else
    match σ.state.sendTimeouts r.transId with
    | none => .ok σ
    | some (.client c, Destination, Tref) =>
      let σ := cancelTimerAsync r.timeout Tref σ
      .ok (sendTimeoutEnd r.transId Destination (σ.out (.reply c
        (if rt.empty r.responseInfo ∧ rt.empty r.response then none else some (r.responseInfo, r.response)))))
    | some _ => .error .functionClause

/-- `return_sync` of an external service -/
def External.returnSync (r : Response TransId Pid Term) (σ : System TransId Pid Client Term) :
    Except Exn (System TransId Pid Client Term) :=
  if r.source ≠ σ.state.dispatcher then .error .badmatch
  else
    match σ.state.sendTimeouts r.transId with
    | none => .ok σ
    | some (_, Destination, Tref) =>
      let σ := cancelTimerAsync r.timeout Tref σ
      .ok (sendTimeoutEnd r.transId Destination (σ.out (.returnSyncOut r.transId
        (if rt.isBinary r.responseInfo ∧ rt.isBinary r.response then some (r.responseInfo, r.response) else none))))

/-- `send_async_timeout` of an internal service -/
def Internal.sendAsyncTimeout (i : TransId) (σ : System TransId Pid Client Term) :
    Except Exn (System TransId Pid Client Term) :=
  match σ.state.sendTimeouts i with
  | none => .ok σ
  | some (.active, Destination, _) => .ok (sendTimeoutEnd i Destination (σ.out (.timeoutAsyncActive i)))
  | some (.passive, Destination, _) => .ok (sendTimeoutEnd i Destination σ)
  | some (.client _, _, _) => .error .caseClause

/-- `send_async_timeout` of an external service -/
def External.sendAsyncTimeout (i : TransId) (σ : System TransId Pid Client Term) :
    Except Exn (System TransId Pid Client Term) :=
  match σ.state.sendTimeouts i with
  | none => .ok σ
  | some (_, Destination, _) => .ok (sendTimeoutEnd i Destination σ)

/-- `send_sync_timeout` of an internal service -/
def Internal.sendSyncTimeout (i : TransId) (σ : System TransId Pid Client Term) :
    Except Exn (System TransId Pid Client Term) :=
  match σ.state.sendTimeouts i with
  | none => .ok σ
  | some (.client c, Destination, _) => .ok (sendTimeoutEnd i Destination (σ.out (.reply c none)))
  | some _ => .error .functionClause

/-- `send_sync_timeout` of an external service -/
def External.sendSyncTimeout (i : TransId) (σ : System TransId Pid Client Term) :
    Except Exn (System TransId Pid Client Term) :=
  match σ.state.sendTimeouts i with
  | none => .ok σ
  | some (_, Destination, _) => .ok (sendTimeoutEnd i Destination (σ.out (.returnSyncOut i none)))

/-- `recv_async_timeout` -/
def recvAsyncTimeout (i : TransId) (σ : System TransId Pid Client Term) : System TransId Pid Client Term :=
  { σ with state := { σ.state with asyncResponses := σ.state.asyncResponses.erase i } }

end

/-- The two kinds of dispatcher. -/
inductive Kind where
  | internal
  | external

/-- A message of a timer is handled. -/
def TimeoutMessage.apply (k : Kind) (m : TimeoutMessage TransId) (σ : System TransId Pid Client Term) :
    Except Exn (System TransId Pid Client Term) :=
  match m, k with
  | sendAsync i, .internal => Internal.sendAsyncTimeout i σ
  | sendAsync i, .external => External.sendAsyncTimeout i σ
  | sendSync i, .internal => Internal.sendSyncTimeout i σ
  | sendSync i, .external => External.sendSyncTimeout i σ
  | recvAsync i, _ => .ok (recvAsyncTimeout i σ)

/-- What happens to the requests that were sent, but for their timeouts. -/
inductive Event (TransId Pid Client Term : Type) where
  | sendAsync (Timeout : Nat) (i : TransId) (P : Pid)
  | sendAsyncActive (Timeout : Nat) (i : TransId) (P : Pid)
  | sendSync (Timeout : Nat) (i : TransId) (P : Pid) (c : Client)
  | returnAsync (r : Response TransId Pid Term)
  | returnSync (r : Response TransId Pid Term)
  | down (P : Pid)

def Event.apply (rt : Runtime Term) (k : Kind) (e : Event TransId Pid Client Term)
    (σ : System TransId Pid Client Term) : Except Exn (System TransId Pid Client Term) :=
  match e with
  | sendAsync Timeout i P => .ok (sendAsyncTimeoutStart Timeout i P σ)
  | sendAsyncActive Timeout i P => .ok (sendAsyncActiveTimeoutStart Timeout i P σ)
  | sendSync Timeout i P c => .ok (sendSyncTimeoutStart Timeout i P c σ)
  | returnAsync r =>
    match k with
    | .internal => Internal.returnAsync rt r σ
    | .external => External.returnAsync rt r σ
  | returnSync r =>
    match k with
    | .internal => Internal.returnSync rt r σ
    | .external => External.returnSync rt r σ
  | down P => .ok (sendTimeoutDead P σ).2

/-- The identifier of a request that is sent is a new one; only an internal service has `send_async_active`. -/
def Event.Enabled (k : Kind) (σ : System TransId Pid Client Term) : Event TransId Pid Client Term → Prop
  | sendAsync _ i _ => i ∉ σ.sent
  | sendAsyncActive _ i _ => i ∉ σ.sent ∧ k = .internal
  | sendSync _ i _ _ => i ∉ σ.sent
  | _ => True

/-- A message is handled, the message of a timer is received and handled, time
passes, or the options are updated. -/
inductive Step (rt : Runtime Term) (k : Kind) : System TransId Pid Client Term → System TransId Pid Client Term → Prop
  | event {σ σ' : System TransId Pid Client Term} (e : Event TransId Pid Client Term) :
      e.Enabled k σ → e.apply rt k σ = .ok σ' → Step rt k σ σ'
  | timeout {σ σ' : System TransId Pid Client Term} {t : SendTimers TransId} (m : TimeoutMessage TransId) :
      Timers.Receive m σ.timers t → m.apply k { σ with timers := t } = .ok σ' → Step rt k σ σ'
  | elapse {σ : System TransId Pid Client Term} {t : SendTimers TransId} :
      Timers.Elapse σ.timers t → Step rt k σ { σ with timers := t }
  | options {σ : System TransId Pid Client Term} (RequestTimeoutImmediateMax : Nat) (ResponseTimeoutAdjustment : Bool) :
      Step rt k σ { σ with state := { σ.state with
        requestTimeoutImmediateMax := RequestTimeoutImmediateMax
        responseTimeoutAdjustment := ResponseTimeoutAdjustment } }

/-- The states of a dispatcher that keeps running. -/
inductive Reachable (rt : Runtime Term) (k : Kind) : System TransId Pid Client Term → Prop
  | init (Dispatcher : Pid) (RequestTimeoutImmediateMax : Nat) (ResponseTimeoutAdjustment : Bool) :
      Reachable rt k (.init Dispatcher RequestTimeoutImmediateMax ResponseTimeoutAdjustment)
  | step {σ σ' : System TransId Pid Client Term} : Reachable rt k σ → Step rt k σ σ' → Reachable rt k σ'

end CloudI.Services.SendTimeouts
