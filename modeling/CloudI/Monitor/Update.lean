import Mathlib.Data.List.Nodup
import Mathlib.Logic.Function.Basic
import CloudI.Services.Dispatcher

/-!
# An update of the processes of a service

The call of the monitor that updates service processes, beside the processes
of the plan: it asks each process to stop handling requests, waits for the
answer or the death of each, then tells each that is left to update, or not
to, and waits again. Processes that opened a port for a new OS process wait
until the monitor says that it runs. What a process does is a parameter,
`Machine`, of which `Spec` says when it answers and when it applies the update.
-/

namespace CloudI.Monitor.Update

open CloudI.Services (UpdateError)

/-- The messages of the monitor to a process of the plan. -/
inductive Order where
  | update
  | updateNow (UpdateStart : Bool)
  | updateAfter (Result : Bool)

/-- The messages of a process of the plan to the monitor. -/
inductive Report where
  | down
  | update (error : Option UpdateError)
  | updateNow (error : Option UpdateError)
  | updateNowPort

/-- The process stopped handling requests. -/
def Report.acks : Report → Bool
  | .update none => true
  | _ => false

def Report.refuses : Report → Bool
  | .update (some _) => true
  | _ => false

/-- The reasons in the results of the update. -/
inductive Reason where
  | pidDied
  | loadModule
  | service (e : UpdateError)

/-- The results of the update: `ok`, `{ok, Port}` and `{error, Reason}`. -/
inductive Result where
  | ok
  | port
  | error (reason : Reason)

def Result.isError : Result → Bool
  | .error _ => true
  | _ => false

/-- What a process does with an order (`none`: with anything else), with what it
sends to the monitor, and whether it applied the update. -/
structure Machine (P : Type) where
  Step : P → Option Order → P → List Report → Bool → Prop

/-! ## The monitor -/

/-- Where the call is: `update_start_recv/3`, `update_now_recv/2`, of which the results are those from before
(`Results0`) and the processes' own, or it returned. -/
inductive Phase (Pid : Type) where
  | start (PidList : List Pid) (NewPidList : List (Option Pid)) (UpdateResults : List Reason)
  | now (PidList : List (Option Pid)) (Results0 UpdateResults : List Result)
  | done (Results : List Result)

/-- The monitor in the call, and the processes: `inbox` are the orders to a
process that it did not receive. `diedBefore` are the processes that died
before the second phase. `acked`, `refused`, `told` and `applied` list the
processes that answered, refused, received an `update_now` message and applied
the update, one time for each time. -/
structure Conf (Pid P : Type) where
  phase : Phase Pid
  mailbox : List (Pid × Report)
  process : Pid → P
  alive : Pid → Bool
  inbox : Pid → List Order
  diedBefore : List Pid
  acked : List Pid
  refused : List Pid
  told : List Pid
  applied : List Pid

/-- A selective `receive` of a message of one process: the first that matches. -/
inductive Receive {Pid : Type} (pid : Pid) (sel : Report → Bool) (r : Report) :
    List (Pid × Report) → List (Pid × Report) → Prop
  | intro {l₁ l₂ : List (Pid × Report)} : (∀ x ∈ l₁, x.1 = pid → sel x.2 = false) → sel r = true →
      Receive pid sel r (l₁ ++ (pid, r) :: l₂) (l₁ ++ l₂)

/-- The messages that `update_start_recv/3` receives. -/
def startMatches : Report → Bool
  | .down => true
  | .update _ => true
  | .updateNow _ => false
  | .updateNowPort => false

/-- The messages that `update_now_recv/2` receives. -/
def nowMatches : Report → Bool
  | .down => true
  | .update _ => false
  | .updateNow _ => true
  | .updateNowPort => true

/-- `self() ! DOWN`: the message is handled after the call. -/
def sendDown {Pid : Type} (pid : Pid) (r : Report) (mailbox : List (Pid × Report)) : List (Pid × Report) :=
  match r with
  | .down => mailbox ++ [(pid, .down)]
  | _ => mailbox

/-- What `update_start_recv/3` adds to its lists for the message `r`. -/
def startRecv {Pid : Type} (pid : Pid) (r : Report) (NewPidList : List (Option Pid)) (UpdateResults : List Reason) :
    List (Option Pid) × List Reason :=
  match r with
  | .down => (none :: NewPidList, .pidDied :: UpdateResults)
  | .update none => (some pid :: NewPidList, UpdateResults)
  | .update (some e) => (none :: NewPidList, .service e :: UpdateResults)
  | .updateNow _ | .updateNowPort => (NewPidList, UpdateResults)

/-- The result in `update_now_recv/2` for the message `r`. -/
def nowResult : Report → Result
  | .down => .error .pidDied
  | .updateNow none => .ok
  | .updateNow (some e) => .error (.service e)
  | .updateNowPort => .port
  | .update _ => .ok

variable {Pid P : Type} [DecidableEq Pid]

/-- When `update_start/2` has sent its messages. -/
def Conf.init (plan : List Pid) (process : Pid → P) (alive : Pid → Bool) : Conf Pid P where
  phase := .start plan [] []
  mailbox := (plan.filter fun pid => !alive pid).map fun pid => (pid, .down)
  process := process
  alive := alive
  inbox pid := if alive pid then [.update] else []
  diedBefore := plan.filter fun pid => !alive pid
  acked := []
  refused := []
  told := []
  applied := []

/-- A process did something. -/
def Conf.act (pid : Pid) (p : P) (reports : List Report) (applies : Bool) (c : Conf Pid P) : Conf Pid P :=
  { c with
    process := Function.update c.process pid p
    mailbox := c.mailbox ++ reports.map fun r => (pid, r)
    acked := if reports.any Report.acks then pid :: c.acked else c.acked
    refused := if reports.any Report.refuses then pid :: c.refused else c.refused
    applied := if applies then pid :: c.applied else c.applied }

/-- A process receives its first order. -/
def Conf.receive (pid : Pid) (order : Order) (rest : List Order) (c : Conf Pid P) : Conf Pid P :=
  { c with
    inbox := Function.update c.inbox pid rest
    told := match order with
      | .updateNow _ => pid :: c.told
      | _ => c.told }

/-- A process dies, and the monitor is told. -/
def Conf.die (pid : Pid) (c : Conf Pid P) : Conf Pid P :=
  { c with
    alive := Function.update c.alive pid false
    mailbox := c.mailbox ++ [(pid, .down)]
    diedBefore := match c.phase with
      | .start _ _ _ => pid :: c.diedBefore
      | _ => c.diedBefore }

/-- `update_now/3`: a message to each process that is left. -/
def Conf.sendNow (PidList : List (Option Pid)) (UpdateStart : Bool) (Results0 : List Result)
    (c : Conf Pid P) : Conf Pid P :=
  { c with
    phase := .now PidList Results0 []
    inbox := fun pid => if some pid ∈ PidList then c.inbox pid ++ [.updateNow UpdateStart] else c.inbox pid }

/-- `update_after/5` after an update without an error: if there are ports, the processes are told whether their OS
processes run. They are all of the plan, as a process that is left out of the second phase is an error. -/
def Conf.sendAfter (plan : List Pid) (Result : Bool) (c : Conf Pid P) : Conf Pid P :=
  { c with inbox := fun pid => if pid ∈ plan then c.inbox pid ++ [.updateAfter Result] else c.inbox pid }

/-- One step of the monitor or of a process of the plan; `updateBefore` is the result of loading the modules. When the
call returns there was an error (`failed`), there are no ports (`done`), or as many as processes (`after`). -/
inductive Step (M : Machine P) (plan : List Pid) : Conf Pid P → Conf Pid P → Prop
  | process {c : Conf Pid P} {pid : Pid} {p : P} {reports : List Report} {applies : Bool} :
      pid ∈ plan → c.alive pid = true → M.Step (c.process pid) none p reports applies →
      Step M plan c (c.act pid p reports applies)
  | order {c : Conf Pid P} {pid : Pid} {p : P} {reports : List Report} {applies : Bool} {order : Order}
      {rest : List Order} : pid ∈ plan → c.alive pid = true → c.inbox pid = order :: rest →
      M.Step (c.process pid) (some order) p reports applies →
      Step M plan c ((c.receive pid order rest).act pid p reports applies)
  | die {c : Conf Pid P} {pid : Pid} : pid ∈ plan → c.alive pid = true → Step M plan c (c.die pid)
  | startRecv {c : Conf Pid P} {pid : Pid} {PidList : List Pid} {NewPidList : List (Option Pid)}
      {UpdateResults : List Reason} {r : Report} {mailbox : List (Pid × Report)} :
      c.phase = .start (pid :: PidList) NewPidList UpdateResults → Receive pid startMatches r c.mailbox mailbox →
      Step M plan c { c with
        phase := .start PidList (startRecv pid r NewPidList UpdateResults).1
          (startRecv pid r NewPidList UpdateResults).2
        mailbox := sendDown pid r mailbox }
  | updateNow {c : Conf Pid P} {NewPidList : List (Option Pid)} (updateBefore : Option Reason) :
      c.phase = .start [] NewPidList [] →
      Step M plan c (c.sendNow NewPidList.reverse true [updateBefore.elim .ok .error])
  | updateNot {c : Conf Pid P} {NewPidList : List (Option Pid)} {UpdateResults : List Reason} :
      c.phase = .start [] NewPidList UpdateResults → UpdateResults ≠ [] →
      Step M plan c (c.sendNow NewPidList.reverse false (UpdateResults.map .error))
  | nowSkip {c : Conf Pid P} {PidList : List (Option Pid)} {Results0 UpdateResults : List Result} :
      c.phase = .now (none :: PidList) Results0 UpdateResults →
      Step M plan c { c with phase := .now PidList Results0 UpdateResults }
  | nowRecv {c : Conf Pid P} {pid : Pid} {PidList : List (Option Pid)} {Results0 UpdateResults : List Result}
      {r : Report} {mailbox : List (Pid × Report)} :
      c.phase = .now (some pid :: PidList) Results0 UpdateResults → Receive pid nowMatches r c.mailbox mailbox →
      Step M plan c { c with
        phase := .now PidList Results0 (nowResult r :: UpdateResults)
        mailbox := sendDown pid r mailbox }
  | failed {c : Conf Pid P} {Results0 UpdateResults : List Result} :
      c.phase = .now [] Results0 UpdateResults → (UpdateResults ++ Results0).any Result.isError = true →
      Step M plan c { c with phase := .done (UpdateResults ++ Results0).reverse }
  | done {c : Conf Pid P} {Results0 UpdateResults : List Result} :
      c.phase = .now [] Results0 UpdateResults → (UpdateResults ++ Results0).any Result.isError = false →
      .port ∉ UpdateResults → Step M plan c { c with phase := .done (UpdateResults ++ Results0).reverse }
  | after {c : Conf Pid P} {Results0 UpdateResults : List Result} (serviceUpdateExternal : Bool) :
      c.phase = .now [] Results0 UpdateResults → (UpdateResults ++ Results0).any Result.isError = false →
      UpdateResults ≠ [] → (∀ r ∈ UpdateResults, r = .port) →
      Step M plan c ({ c with phase := .done (UpdateResults ++ Results0).reverse }.sendAfter plan serviceUpdateExternal)

/-! ## The processes -/

/-- What the monitor has to know of a process: it has no plan, it did not answer
yet, it answered and waits, it has to update, or not to, when it can, or it
waits for its new OS process. -/
inductive Local where
  | idle
  | pending
  | ready
  | going (UpdateStart : Bool)
  | after

/-- What a process does, as far as the monitor can see; it applies the update only when told to. -/
inductive Local.Step : Local → Option Order → Local → List Report → Bool → Prop
  | stay (v : Local) : Step v none v [] false
  | answer : Step .pending none .ready [.update none] false
  | finish (b applies : Bool) (error : Option UpdateError) : (applies = true → b = true) →
      Step (.going b) none .idle [.updateNow error] applies
  | updateReady : Step .idle (some .update) .ready [.update none] false
  | updatePending : Step .idle (some .update) .pending [] false
  | updateRefuse (e : UpdateError) : Step .idle (some .update) .idle [.update (some e)] false
  | nowGoing (b : Bool) : Step .ready (some (.updateNow b)) (.going b) [] false
  | nowFinish (b applies : Bool) (error : Option UpdateError) : (applies = true → b = true) →
      Step .ready (some (.updateNow b)) .idle [.updateNow error] applies
  | finishPort : Step (.going true) none .after [.updateNowPort] true
  | nowPort : Step .ready (some (.updateNow true)) .after [.updateNowPort] true
  | goOn : Step .after (some (.updateAfter true)) .idle [] false

/-- The orders that a process can receive: it is asked once, told once after it answered, and goes on only when it
waits for that. -/
def Local.Takes : Local → Option Order → Prop
  | _, none => True
  | .idle, some .update => True
  | .ready, some (.updateNow _) => True
  | .after, some (.updateAfter _) => True
  | _, _ => False

/-- What a process that is `Ready` keeps (`Good`), and what the monitor can see of it. -/
structure Spec (M : Machine P) (Ready Good : P → Prop) (view : P → Local) : Prop where
  ready : ∀ {p}, Ready p → Good p ∧ view p = .idle
  step : ∀ {p order p' reports applies}, Good p → (view p).Takes order → M.Step p order p' reports applies →
    Good p' ∧ (view p).Step order (view p') reports applies

/-- The states of a call for the processes of `plan`, each of which is dead or
ready for it when it starts. -/
inductive Reachable (M : Machine P) (Ready : P → Prop) (plan : List Pid) : Conf Pid P → Prop
  | init (process : Pid → P) (alive : Pid → Bool) : plan.Nodup →
      (∀ pid ∈ plan, alive pid = true → Ready (process pid)) →
      Reachable M Ready plan (Conf.init plan process alive)
  | step {c c' : Conf Pid P} : Reachable M Ready plan c → Step M plan c c' → Reachable M Ready plan c'

end CloudI.Monitor.Update
