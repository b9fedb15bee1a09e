import Mathlib.Data.Prod.Lex
import Mathlib.Order.WithBot
import CloudI.Framework.Dict
import CloudI.Framework.Orddict

/-!
# The quorum service

A service that sends each request to all the destinations of a name, and replies with the response that enough of
them agree on. `Event.apply` is what it does with a request, with the response or the timeout of a destination, and
when a process dies.
-/

namespace CloudI.Quorum

variable {T O Pid TransId Call : Type} [LinearOrder O]

/-- The terms of requests and responses. Terms of the same rank are equal for `==`. -/
structure Terms (T O : Type) where
  /-- `<<>>` -/
  null : T
  rank : T → O

/-- How many destinations have to agree, as the service requires it when it starts. -/
inductive QuorumArg where
  | byzantine
  | absolute (n : Nat) (pos : 0 < n)
  /-- `cloudi_math:ceil(Quorum * Count)` of each count -/
  | fraction (ceil : Nat → Nat) (pos : ∀ n, 0 < n → 0 < ceil n)

/-- The arguments of the service. A period that is `none` is infinite. -/
structure Config (T : Type) where
  quorum : QuorumArg
  useResponseInfo : Bool
  validateRequestInfo : Option (T → Bool)
  validateRequest : Option (T → T → Bool)
  validateResponseInfo : Option (T → Bool)
  validateResponse : Option (T → T → Bool)
  failuresSourceDie : Bool
  failuresSourceMaxCount : Nat
  failuresSourceMaxPeriod : Option Nat
  failuresDestDie : Bool
  failuresDestMaxCount : Nat
  failuresDestMaxPeriod : Option Nat

/-- A response, with its info when that has to agree. -/
abbrev Key (T : Type) := Option T × T

/-- `request`. The type, the name and the pattern are the `call`. -/
structure Request (T Pid Call : Type) where
  call : Call
  timeout : Nat
  source : Pid
  countRequired : Nat
  countTotal : Nat
  countResponses : Nat
  countCorrect : Nat
  responses : List (Key T × Nat)
  returned : Bool

structure Pending (TransId Pid : Type) where
  transId : TransId
  dest : Pid

structure State (T Pid TransId Call : Type) where
  failuresSource : Dict Pid (List Nat)
  failuresDest : Dict Pid (List Nat)
  requests : Dict TransId (Request T Pid Call)
  pending : Dict TransId (Pending TransId Pid)

/-- What the source of a request receives. -/
structure Reply (T Pid TransId Call : Type) where
  call : Call
  responseInfo : T
  response : T
  timeout : Nat
  transId : TransId
  source : Pid

/-- The time, which processes are of this node, and which of them are alive. -/
structure Env (Pid : Type) where
  now : Nat
  onNode : Pid → Bool
  alive : Pid → Bool

/-- `erlang:is_process_alive/1`, which raises for a process of another node. -/
def Env.isProcessAlive (env : Env Pid) (pid : Pid) : Except Exn Bool :=
  if env.onNode pid then .ok (env.alive pid) else .error .badarg

/-- What `send_async_active` returns. Its call of the dispatcher can time out although the dispatcher sends the request
then, `late`, with an id that it does not return. -/
inductive Sending (TransId : Type) where
  | ok (quorumTransId : TransId)
  | timeout (late : Option TransId)

/-- The id that is returned. -/
def Sending.known {TransId : Type} : Sending TransId → Option TransId
  | ok quorumTransId => some quorumTransId
  | timeout _ => none

/-- The id that the destination is sent. -/
def Sending.sent {TransId : Type} : Sending TransId → Option TransId
  | ok quorumTransId => some quorumTransId
  | timeout late => late

/-- How many of `Count` destinations have to agree. -/
def countRequired (quorum : QuorumArg) (count : Nat) : Option Nat :=
  match quorum with
  | .byzantine => if count < 4 then none else some (count - (count - 1) / 3)
  | .absolute n _ => if n > count then none else some n
  | .fraction ceil _ => some (min count (ceil count))

def validate (infoF : Option (T → Bool)) (f : Option (T → T → Bool)) (info r : T) : Bool :=
  match infoF, f with
  | none, none => true
  | none, some f => f info r
  | some infoF, none => infoF info
  | some infoF, some f => infoF info && f info r

/-! ## Failures of processes -/

section Failures

variable [DecidableEq Pid]

/-- `cloudi_timestamp:seconds_filter` -/
def secondsFilter (secondsNow maxPeriod : Nat) : List Nat → List Nat → Nat → Nat × List Nat
  | [], output, count => (count, output)
  | seconds :: l, output, count =>
    if secondsNow < seconds ∨ secondsNow - seconds > maxPeriod then secondsFilter secondsNow maxPeriod l output count
    else secondsFilter secondsNow maxPeriod l (seconds :: output) (count + 1)

/-- The process is killed at its last failure. -/
def failureStore (failureList : List Nat) (failureCount maxCount : Nat) (pid : Pid) (failures : Dict Pid (List Nat)) :
    Bool × Dict Pid (List Nat) :=
  (decide (failureCount = maxCount), failures.store pid failureList)

def failureCheck (secondsNow : Nat) (failureList : List Nat) (maxCount : Nat) (maxPeriod : Option Nat) (pid : Pid)
    (failures : Dict Pid (List Nat)) : Bool × Dict Pid (List Nat) :=
  match maxPeriod with
  | none => failureStore (secondsNow :: failureList) (failureList.length + 1) maxCount pid failures
  | some maxPeriod =>
    let (newFailureCount, newFailureList) := secondsFilter secondsNow maxPeriod failureList [] 0
    failureStore (secondsNow :: newFailureList) (newFailureCount + 1) maxCount pid failures

/-- Whether the process is dead after the failure, and the failures of processes. -/
def failure (die : Bool) (maxCount : Nat) (maxPeriod : Option Nat) (env : Env Pid) (pid : Pid)
    (failures : Dict Pid (List Nat)) : Except Exn (Bool × Dict Pid (List Nat)) :=
  if die then do
    if ← env.isProcessAlive pid then
      match failures pid with
      | some failureList => return failureCheck env.now failureList maxCount maxPeriod pid failures
      | none => return failureCheck env.now [] maxCount maxPeriod pid failures
    else return (true, failures)
  else .ok (false, failures)

/-- The process that a failure asks for is of this node, so that nothing raises. -/
def Env.Checks (env : Env Pid) (die : Bool) (pid : Pid) : Prop := die = true → env.onNode pid = true

theorem failure_ok_iff {die : Bool} {maxCount : Nat} {maxPeriod : Option Nat} {env : Env Pid} {pid : Pid}
    {failures : Dict Pid (List Nat)} : (∃ x, failure die maxCount maxPeriod env pid failures = .ok x) ↔
      env.Checks die pid := by
  rw [failure, Env.Checks]
  cases die with
  | false => exact ⟨fun _ h => absurd h Bool.false_ne_true, fun _ => ⟨_, rfl⟩⟩
  | true =>
    rw [Env.isProcessAlive]
    cases env.onNode pid with
    | false =>
      refine ⟨fun h => ?_, fun h => absurd (h rfl) Bool.false_ne_true⟩
      obtain ⟨x, hx⟩ := h
      cases hx
    | true =>
      refine ⟨fun _ _ => rfl, fun _ => ?_⟩
      cases env.alive pid with
      | false => exact ⟨_, rfl⟩
      | true => cases failures pid with
        | none => exact ⟨_, rfl⟩
        | some failureList => exact ⟨_, rfl⟩

/-- A failure of the source of a request. -/
def sourceFailure (cfg : Config T) (env : Env Pid) (pid : Pid) (s : State T Pid TransId Call) :
    Except Exn (Bool × Dict Pid (List Nat)) :=
  failure cfg.failuresSourceDie cfg.failuresSourceMaxCount cfg.failuresSourceMaxPeriod env pid s.failuresSource

/-- A failure of a destination. -/
def destFailure (cfg : Config T) (env : Env Pid) (pid : Pid) (s : State T Pid TransId Call) :
    Except Exn (Bool × Dict Pid (List Nat)) :=
  failure cfg.failuresDestDie cfg.failuresDestMaxCount cfg.failuresDestMaxPeriod env pid s.failuresDest

end Failures

/-! ## Requests -/

variable (terms : Terms T O) (cfg : Config T)

/-- A request of a service: what was sent with it, and who sent it. -/
structure Incoming (T Pid TransId Call : Type) where
  call : Call
  requestInfo : T
  request : T
  timeout : Nat
  transId : TransId
  source : Pid

def nullReply (call : Call) (timeout : Nat) (transId : TransId) (source : Pid) : Reply T Pid TransId Call :=
  ⟨call, terms.null, terms.null, timeout, transId, source⟩

variable [DecidableEq Pid]

def requestFailed (env : Env Pid) (r : Incoming T Pid TransId Call) (s : State T Pid TransId Call) :
    Except Exn (List (Reply T Pid TransId Call) × State T Pid TransId Call) := do
  let (deadSrc, newFailuresSrc) ← sourceFailure cfg env r.source s
  if deadSrc then return ([], { s with failuresSource := newFailuresSrc })
  else return ([nullReply terms r.call r.timeout r.transId r.source], { s with failuresSource := newFailuresSrc })

variable [DecidableEq TransId]

/-- Each destination comes with what sending to it returns. -/
def mcastSend (transId : TransId) : List (Pid × Sending TransId) → Nat → Dict TransId (Pending TransId Pid) →
    Nat × Dict TransId (Pending TransId Pid)
  | [], countSent, pending => (countSent, pending)
  | (dst, .ok quorumTransId) :: pids, countSent, pending =>
    mcastSend transId pids (countSent + 1) (pending.store quorumTransId ⟨transId, dst⟩)
  | (_, .timeout _) :: pids, countSent, pending => mcastSend transId pids countSent pending

def mcast (pids : List (Pid × Sending TransId)) (r : Incoming T Pid TransId Call) (countRequired : Nat)
    (s : State T Pid TransId Call) : List (Reply T Pid TransId Call) × State T Pid TransId Call :=
  let (countSent, newPending) := mcastSend r.transId pids 0 s.pending
  let request := ⟨r.call, r.timeout, r.source, countRequired, countSent, 0, 0, [], false⟩
  if countSent ≥ countRequired then
    ([], { s with requests := s.requests.store r.transId request, pending := newPending })
  else
    ([nullReply terms r.call r.timeout r.transId r.source],
      { s with
        requests := s.requests.store r.transId { request with returned := true }
        pending := newPending })

/-- `pids` are the destinations of the name, `none` when there is none in time. -/
def handleRequest (env : Env Pid) (pids : Option (List (Pid × Sending TransId))) (r : Incoming T Pid TransId Call)
    (s : State T Pid TransId Call) : Except Exn (List (Reply T Pid TransId Call) × State T Pid TransId Call) :=
  if validate cfg.validateRequestInfo cfg.validateRequest r.requestInfo r.request then
    match pids with
    | none => requestFailed terms cfg env r s
    | some pids =>
      match countRequired cfg.quorum pids.length with
      | none => requestFailed terms cfg env r s
      | some countRequired => .ok (mcast terms pids r countRequired s)
  else requestFailed terms cfg env r s

/-! ## Answers of the destinations -/

/-- The key of a response in the order of terms. -/
def keyRank (key : Key T) : WithBot O ×ₗ O := toLex (key.1.map terms.rank, terms.rank key.2)

def Config.key (responseInfo response : T) : Key T :=
  if cfg.useResponseInfo then (some responseInfo, response) else (none, response)

/-- The requests after one more response: the last one erases the request. -/
def nextRequests (transId : TransId) (request : Request T Pid Call) (requests : Dict TransId (Request T Pid Call)) :
    Except Exn (Dict TransId (Request T Pid Call)) :=
  if request.countResponses = request.countTotal then .ok (requests.erase transId)
  else if request.countResponses < request.countTotal then .ok (requests.store transId request)
  else .error .ifClause

/-- No response can have the count any more. -/
def Request.impossible (request : Request T Pid Call) (newCountResponses newCountCorrect : Nat) : Prop :=
  newCountResponses = request.countTotal ∨
    newCountCorrect + (request.countTotal - newCountResponses) < request.countRequired

instance (request : Request T Pid Call) (m n : Nat) : Decidable (request.impossible m n) :=
  inferInstanceAs (Decidable (_ ∨ _))

/-- How many responses have the key, with one more. -/
def nextCount (key : Key T) (responses : List (Key T × Nat)) : Nat :=
  match Orddict.find (keyRank terms) key responses with
  | some i => i + 1
  | none => 1

/-- A destination that failed, by an invalid response or a timeout. -/
def failed (env : Env Pid) (p : Pending TransId Pid) (request : Request T Pid Call) (timeout : Nat)
    (newPending : Dict TransId (Pending TransId Pid)) (s : State T Pid TransId Call) :
    Except Exn (List (Reply T Pid TransId Call) × State T Pid TransId Call) := do
  let newCountResponses := request.countResponses + 1
  let (deadSrc, newFailuresSrc) ← sourceFailure cfg env request.source s
  let (_, newFailuresDst) ← destFailure cfg env p.dest s
  let (replies, newReturned) :=
    if deadSrc then ([], true)
    else if request.returned = false ∧ request.impossible newCountResponses request.countCorrect then
      ([nullReply terms request.call timeout p.transId request.source], true)
    else ([], request.returned)
  let newRequests ← nextRequests p.transId
    { request with countResponses := newCountResponses, returned := newReturned } s.requests
  return (replies, ⟨newFailuresSrc, newFailuresDst, newRequests, newPending⟩)

def returnAsyncActive (env : Env Pid) (quorumTransId : TransId) (responseInfo response : T) (timeout : Nat)
    (s : State T Pid TransId Call) : Except Exn (List (Reply T Pid TransId Call) × State T Pid TransId Call) := do
  let p ← s.pending.fetch quorumTransId
  let newPending := s.pending.erase quorumTransId
  let request ← s.requests.fetch p.transId
  if validate cfg.validateResponseInfo cfg.validateResponse responseInfo response then
    let newCountResponses := request.countResponses + 1
    if request.returned = false then
      let key := cfg.key responseInfo response
      let count := nextCount terms key request.responses
      let newCountCorrect := max count request.countCorrect
      let (replies, newReturned) :=
        if count = request.countRequired then
          ([⟨request.call, responseInfo, response, timeout, p.transId, request.source⟩], true)
        else if request.impossible newCountResponses newCountCorrect then
          ([nullReply terms request.call timeout p.transId request.source], true)
        else ([], request.returned)
      let newRequests ← nextRequests p.transId
        { request with
          countResponses := newCountResponses
          countCorrect := newCountCorrect
          responses := Orddict.store (keyRank terms) key count request.responses
          returned := newReturned } s.requests
      return (replies, { s with requests := newRequests, pending := newPending })
    else
      let newRequests ← nextRequests p.transId { request with countResponses := newCountResponses } s.requests
      return ([], { s with requests := newRequests, pending := newPending })
  else failed terms cfg env p request timeout newPending s

/-- The request has the timeout of the reply. -/
def timeoutAsyncActive (env : Env Pid) (quorumTransId : TransId) (s : State T Pid TransId Call) :
    Except Exn (List (Reply T Pid TransId Call) × State T Pid TransId Call) := do
  let p ← s.pending.fetch quorumTransId
  let newPending := s.pending.erase quorumTransId
  let request ← s.requests.fetch p.transId
  failed terms cfg env p request request.timeout newPending s

def down (pid : Pid) (s : State T Pid TransId Call) : State T Pid TransId Call :=
  { s with
    failuresSource := if cfg.failuresSourceDie then s.failuresSource.erase pid else s.failuresSource
    failuresDest := if cfg.failuresDestDie then s.failuresDest.erase pid else s.failuresDest }

/-- What a service handles. -/
inductive Event (T Pid TransId Call : Type) where
  | request (env : Env Pid) (pids : Option (List (Pid × Sending TransId))) (r : Incoming T Pid TransId Call)
  | returnAsyncActive (env : Env Pid) (quorumTransId : TransId) (responseInfo response : T) (timeout : Nat)
  | timeoutAsyncActive (env : Env Pid) (quorumTransId : TransId)
  | down (pid : Pid)

def Event.apply (s : State T Pid TransId Call) :
    Event T Pid TransId Call → Except Exn (List (Reply T Pid TransId Call) × State T Pid TransId Call)
  | request env pids r => handleRequest terms cfg env pids r s
  | .returnAsyncActive env quorumTransId responseInfo response timeout =>
    CloudI.Quorum.returnAsyncActive terms cfg env quorumTransId responseInfo response timeout s
  | .timeoutAsyncActive env quorumTransId => CloudI.Quorum.timeoutAsyncActive terms cfg env quorumTransId s
  | .down pid => .ok ([], CloudI.Quorum.down cfg pid s)

end CloudI.Quorum
