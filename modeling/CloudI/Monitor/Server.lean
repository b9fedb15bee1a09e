import Mathlib.Logic.Relation
import CloudI.Monitor.Key2Value
import CloudI.Monitor.Service

/-!
# The monitor of the service processes

`Event.apply` is what the monitor does with a call, a cast, a `'DOWN'`
message or a message to itself. The start function, the clock, and the
arithmetic on rates by which `count_process_dynamic` changes are outside of
the model: an event has the results of the calls of the start function.
The processes are known by the `'DOWN'` messages they send and by what the
monitor sends to them.
-/

namespace CloudI.Monitor

set_option linter.unusedSectionVars false

variable {ServiceId Pid Start Change : Type}

/-- What a call of the start function returns. -/
inductive StartResult (Pid : Type) where
  | ok (pid : Pid) (pids : List Pid)
  | error

/-- The processes started by a call. -/
def StartResult.pids : StartResult Pid → List Pid
  | .ok Pid Pids => Pid :: Pids
  | .error => []

/-- The exit reasons that the clauses for `'DOWN'` tell apart. -/
inductive ExitReason where
  | shutdown
  | shutdownCountProcessDynamicTerminate
  | shutdownReason
  | info
deriving DecidableEq

/-- A `restart_stage2` or `restart_stage3` message of the monitor to itself. -/
structure Restart (ServiceId Pid Start : Type) where
  stage3 : Bool
  service : Service Pid Start
  serviceId : ServiceId
  oldPid : Pid

/-- What the monitor calls outside of the model: the clock, and the change of
the count of processes that a list of changes amounts to. -/
structure Runtime (Change : Type) where
  seconds : Nat → Nat
  pidsChange : List Change → Nat → Int

/-- The monitor: its `state`, the messages to itself, the readings of the
clock so far, and what it did: the processes it monitors, the `'DOWN'`
messages consumed, the processes told to terminate because of
`count_process_dynamic`, the calls of the start function, and the
`service_dead` casts. -/
structure System (ServiceId Pid Start Change : Type) where
  services : Key2Value ServiceId Pid (Service Pid Start)
  changes : Dict ServiceId (List Change)
  restarts : List (Restart ServiceId Pid Start)
  reads : Nat
  monitored : List Pid
  down : List Pid
  told : List Pid
  starts : List ServiceId
  dead : List ServiceId

/-- Why a message is not handled to its end: the wait for a `'DOWN'` message
that was consumed already, or an exception. -/
inductive Halt where
  | wait
  | error (e : Exn)

variable [LinearOrder ServiceId] [LinearOrder Pid]

def System.init : System ServiceId Pid Start Change where
  services := .new
  changes := Dict.new
  restarts := []
  reads := 0
  monitored := []
  down := []
  told := []
  starts := []
  dead := []

abbrev Services (ServiceId Pid Start : Type) := Key2Value ServiceId Pid (Service Pid Start)

section

variable (rt : Runtime Change) (f : Nat → StartResult Pid) (sid : ServiceId)

/-- The processes that were started are stored, each with the same record. -/
def storePids (s : Service Pid Start) (Pids : List Pid) (D : Services ServiceId Pid Start) :
    Services ServiceId Pid Start :=
  Pids.foldl (fun D P => D.store sid P s) D

/-- `terminate_service_pids/7` -/
def terminateServicePids (Pids : List Pid) (D : Services ServiceId Pid Start) : Services ServiceId Pid Start :=
  Pids.foldl (fun D P => D.erase sid P) D

/-- `terminate_service_wait/2`: the `'DOWN'` messages after it, unless it waits for one of them. -/
def terminateServiceWait (OldPid : Option Pid) : List Pid → List Pid → Except Halt (List Pid)
  | [], Down => .ok Down
  | P :: Pids, Down =>
    if OldPid = some P then terminateServiceWait OldPid Pids Down
    else if P ∈ Down then .error .wait
    else terminateServiceWait OldPid Pids (P :: Down)

/-- `terminate_service/6` -/
def terminateService (Pids : List Pid) (OldPid : Option Pid) (σ : System ServiceId Pid Start Change) :
    Except Halt (System ServiceId Pid Start Change) := do
  let Down ← terminateServiceWait OldPid Pids σ.down
  return { σ with services := terminateServicePids sid Pids σ.services, down := Down }

/-- What a stage of a restart decided is done. -/
def restartDone (OldPid : Pid) (r : Nat × Outcome Pid Start) (σ : System ServiceId Pid Start Change) :
    System ServiceId Pid Start Change :=
  match r with
  | (j, .apply _ s) =>
    match f 0 with
    | .ok Pid Pids => { σ with
        services := storePids sid { s with pids := Pid :: Pids } (Pid :: Pids) σ.services
        reads := j
        monitored := Pid :: Pids ++ σ.monitored
        starts := sid :: σ.starts }
    | .error => { σ with
        restarts := ⟨false, s, sid, OldPid⟩ :: σ.restarts
        reads := j
        starts := sid :: σ.starts }
  | (j, .stage3Async _ s) => { σ with restarts := ⟨true, s, sid, OldPid⟩ :: σ.restarts, reads := j }
  | (j, .maxRestarts) => { σ with reads := j, dead := sid :: σ.dead }

def orHalt {α : Type} : Except Exn α → Except Halt α := Except.mapError .error

/-! ## The count of processes -/

/-- `lists:keymerge/3` by the process index, of a list and one more record. -/
def keymerge (s : Service Pid Start) : List (Service Pid Start) → List (Service Pid Start)
  | [] => [s]
  | r :: Results => if r.processIndex ≤ s.processIndex then r :: keymerge s Results else s :: r :: Results

/-- `service_instance/4`. In the first clause `Pids -- [Pid]` is not taken. -/
def serviceInstance (D : Services ServiceId Pid Start) (Pids : List Pid) (Results : List (Service Pid Start)) :
    Except Exn (List (Service Pid Start)) :=
  match Pids with
  | [] => .ok Results
  | P :: Pids =>
    match D.find2 P with
    | some ([k], s) =>
      if k ≠ sid then .error .caseClause
      else if s.pids = [P] then serviceInstance D Pids (keymerge s Results)
      else serviceInstance D (Pids.diff s.pids) (keymerge s Results)
    | _ => .error .caseClause
termination_by Pids.length
decreasing_by
  · simp
  · have := (List.diff_sublist Pids s.pids).length_le
    simp only [List.length_cons]
    omega

/-- `pids_update/5` -/
def pidsUpdate (CountProcess : Int) : List (Service Pid Start) → List (Service Pid Start) →
    Services ServiceId Pid Start → List (Service Pid Start) × Services ServiceId Pid Start
  | [], Output, D => (Output, D)
  | s :: ServiceL, Output, D =>
    let NewService := { s with countProcess := CountProcess }
    pidsUpdate CountProcess ServiceL (NewService :: Output) (storePids sid NewService s.pids D)

/-- `pids_increase_loop/5`, from the `j`-th call of the start function. -/
def pidsIncreaseLoop (s : Service Pid Start) : Nat → Nat → Nat → System ServiceId Pid Start Change →
    System ServiceId Pid Start Change
  | 0, _, _, σ => σ
  | Count + 1, j, ProcessIndex, σ =>
    let σ' := match f j with
      | .ok Pid Pids => { σ with
          services := storePids sid { s with processIndex := ProcessIndex, pids := Pid :: Pids,
                                             restartCount := 0, restartTimes := [] } (Pid :: Pids) σ.services
          monitored := Pid :: Pids ++ σ.monitored
          starts := sid :: σ.starts }
      | .error => { σ with starts := sid :: σ.starts }
    pidsIncreaseLoop s Count (j + 1) (ProcessIndex + 1) σ'

/-- `pids_increase/6` -/
def pidsIncrease (Count : Nat) (OldPids : List Pid) (CountProcessCurrent : Nat)
    (σ : System ServiceId Pid Start Change) : Except Exn (System ServiceId Pid Start Change) := do
  let ServiceL ← serviceInstance sid σ.services OldPids []
  let (NewServiceL, NewServices) := pidsUpdate sid ((CountProcessCurrent : Int) + Count) ServiceL [] σ.services
  match NewServiceL with
  | [] => .error .badmatch
  | s :: _ => return pidsIncreaseLoop f sid s Count 0 (s.processIndex + 1) { σ with services := NewServices }

/-- `pids_decrease_loop/2`, of the count without its sign: the records left, and the processes told to terminate. -/
def pidsDecreaseLoop : Nat → List (Service Pid Start) → List Pid → Except Exn (List (Service Pid Start) × List Pid)
  | 0, ServiceL, Told => .ok (ServiceL, Told)
  | _ + 1, [], _ => .error .functionClause
  | Count + 1, s :: ServiceL, Told => pidsDecreaseLoop Count ServiceL (s.pids ++ Told)

/-- `pids_decrease/6`, of the count without its sign. -/
def pidsDecrease (Count : Nat) (OldPids : List Pid) (CountProcessCurrent : Nat)
    (σ : System ServiceId Pid Start Change) : Except Exn (System ServiceId Pid Start Change) := do
  let ServiceL ← serviceInstance sid σ.services OldPids []
  let (NewServiceL, Told) ← pidsDecreaseLoop Count ServiceL.reverse σ.told
  let (_, NewServices) := pidsUpdate sid ((CountProcessCurrent : Int) - Count) NewServiceL [] σ.services
  return { σ with services := NewServices, told := Told }

/-- `erlang:round(erlang:length(Pids) / CountThread)` -/
def countProcessCurrent (Pids : List Pid) (CountThread : Nat) : Nat :=
    (2 * Pids.length + CountThread) / (2 * CountThread)

/-! ## The messages -/

/-- `handle_call` of `monitor`; `s` is the record of `new_service_process/13` but for the processes. -/
def monitor (s : Service Pid Start) (σ : System ServiceId Pid Start Change) : System ServiceId Pid Start Change :=
  match f 0 with
  | .ok Pid Pids => { σ with
      services := storePids sid { s with pids := Pid :: Pids, restartCount := 0, restartTimes := [] } (Pid :: Pids)
        σ.services
      monitored := Pid :: Pids ++ σ.monitored
      starts := sid :: σ.starts }
  | .error => { σ with starts := sid :: σ.starts }

/-- `handle_call` of `shutdown`; `none` is the reply `not_found`. -/
def shutdown (σ : System ServiceId Pid Start Change) :
    Except Halt (Option (List Pid) × System ServiceId Pid Start Change) :=
  match σ.services.find1 sid with
  | some (Pids, _) => do
    let σ' ← terminateService sid Pids none σ
    return (some Pids, σ')
  | none => .ok (none, σ)

/-- `handle_call` of `update`, when the update of the processes succeeded or
not; `F` is `update_internal_f/9` or `update_external_f/12`. -/
def update (ServiceIdList : List ServiceId) (F : Start → Start) (UpdateSuccess : Bool)
    (σ : System ServiceId Pid Start Change) : Except Exn (System ServiceId Pid Start Change) :=
  if UpdateSuccess ∧ ∀ k ∈ ServiceIdList, σ.services.find1 k ≠ none then do
    let NewServices ← ServiceIdList.foldlM (fun D k => D.update1 k fun s => { s with start := F s.start }) σ.services
    return { σ with services := NewServices }
  else .ok σ

/-- `handle_cast` of `increase` and `decrease` -/
def change (P : Pid) (Entry : Change) (σ : System ServiceId Pid Start Change) :
    Except Exn (System ServiceId Pid Start Change) :=
  match σ.services.find2 P with
  | some ([k], _) => .ok { σ with changes := σ.changes.store k (Entry :: (σ.changes k).getD []) }
  | some _ => .error .caseClause
  | none => .ok σ

/-- `handle_info` of `changes` -/
def changes (σ : System ServiceId Pid Start Change) : Except Exn (System ServiceId Pid Start Change) :=
  let NewChanges := σ.changes.erase sid
  match σ.services.find1 sid with
  | some (Pids, s) =>
    match σ.changes sid with
    | none => .error .badarg
    | some ChangeList =>
      let CountProcessCurrent := countProcessCurrent Pids s.countThread
      let I := rt.pidsChange ChangeList CountProcessCurrent
      let σ' := { σ with changes := NewChanges }
      if I = 0 then .ok σ'
      else if I > 0 then pidsIncrease f sid I.toNat Pids CountProcessCurrent σ'
      else pidsDecrease sid (-I).toNat Pids CountProcessCurrent σ'
  | none => .ok { σ with changes := NewChanges }

/-- `handle_info` of a `'DOWN'` message. -/
def downInfo (P : Pid) (Reason : ExitReason) (σ : System ServiceId Pid Start Change) :
    Except Halt (System ServiceId Pid Start Change) :=
  let σ := { σ with down := P :: σ.down }
  match σ.services.find2 P with
  | some ([k], s) =>
    match Reason with
    | .shutdown | .shutdownReason => do
      let σ' ← terminateService k s.pids (some P) σ
      return { σ' with dead := k :: σ'.dead }
    | .shutdownCountProcessDynamicTerminate => .ok { σ with services := σ.services.erase k P }
    | .info => do
      let σ' ← terminateService k s.pids (some P) σ
      let r ← orHalt (restartStage1 rt.seconds σ'.reads s)
      return restartDone f k P r σ'
  | some _ => .error (.error .caseClause)
  | none => .ok σ

/-- `handle_info` of a `restart_stage2` or `restart_stage3` message, which is the `i`-th of those on their way. -/
def restartInfo (i : Nat) (σ : System ServiceId Pid Start Change) : Except Halt (System ServiceId Pid Start Change) :=
  match σ.restarts[i]? with
  | none => .ok σ
  | some m => do
    let r ← orHalt (if m.stage3 then restartStage3 rt.seconds σ.reads m.service
      else restartStage2 rt.seconds σ.reads m.service)
    return restartDone f m.serviceId m.oldPid r { σ with restarts := σ.restarts.eraseIdx i }

end

/-- What the monitor handles. The call `restart`, the cast `terminate_kill`
and the message `kill` only send exit signals, and `search` and `pids` only
reply. -/
inductive Event (ServiceId Pid Start Change : Type) where
  | monitor (sid : ServiceId) (s : Service Pid Start)
  | shutdown (sid : ServiceId)
  | update (ServiceIdList : List ServiceId) (F : Start → Start) (UpdateSuccess : Bool)
  | change (P : Pid) (Entry : Change)
  | changes (sid : ServiceId)
  | down (P : Pid) (Reason : ExitReason)
  | restart (i : Nat)

def Event.apply (rt : Runtime Change) (f : Nat → StartResult Pid) (e : Event ServiceId Pid Start Change)
    (σ : System ServiceId Pid Start Change) : Except Halt (System ServiceId Pid Start Change) :=
  match e with
  | monitor sid s => .ok (Monitor.monitor f sid s σ)
  | shutdown sid => (Monitor.shutdown sid σ).map Prod.snd
  | update ServiceIdList F UpdateSuccess => orHalt (Monitor.update ServiceIdList F UpdateSuccess σ)
  | change P Entry => orHalt (Monitor.change P Entry σ)
  | changes sid => orHalt (Monitor.changes rt f sid σ)
  | down P Reason => downInfo rt f P Reason σ
  | restart i => restartInfo rt f i σ

/-- The processes that the start function returns are new ones. -/
structure Fresh (f : Nat → StartResult Pid) (σ : System ServiceId Pid Start Change) : Prop where
  nodup : ∀ j, (f j).pids.Nodup
  new : ∀ j, ∀ P ∈ (f j).pids, P ∉ σ.monitored
  apart : ∀ j k, j ≠ k → ∀ P ∈ (f j).pids, P ∉ (f k).pids

/-- The messages that can come: one `'DOWN'` message of each process that is monitored. -/
def Event.Enabled (σ : System ServiceId Pid Start Change) : Event ServiceId Pid Start Change → Prop
  | down P _ => P ∈ σ.monitored ∧ P ∉ σ.down
  | _ => True

/-- One message is handled. -/
inductive Step (rt : Runtime Change) : System ServiceId Pid Start Change → System ServiceId Pid Start Change → Prop
  | event {σ σ' : System ServiceId Pid Start Change} (e : Event ServiceId Pid Start Change)
      (f : Nat → StartResult Pid) :
      e.Enabled σ → Fresh f σ → e.apply rt f σ = .ok σ' → Step rt σ σ'

/-- The states of a monitor that keeps running. -/
inductive Reachable (rt : Runtime Change) : System ServiceId Pid Start Change → Prop
  | init : Reachable rt .init
  | step {σ σ' : System ServiceId Pid Start Change} : Reachable rt σ → Step rt σ σ' → Reachable rt σ'

end CloudI.Monitor
