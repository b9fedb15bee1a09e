import Mathlib.Logic.Function.Basic
import Mathlib.Data.List.Basic
import CloudI.Framework.Exn

/-!
# The services of the configurator

The configurator starts the services of a `services_add` one after another,
each process by process, and stops those of a `services_remove` one after
another. The configuration is stored when all of it succeeded. What the
monitor replies, what becomes of the processes, and whether a module is found
or removed comes from outside (`Outside`); the validation of the configuration
data, which only decides the services that are to be added, does so too.
-/

namespace CloudI.Configurator

variable {ServiceId Pid Module Application : Type}

/-- What `config_service_internal` has beyond `config_service_external`. -/
structure Internal (Module Application : Type) where
  module : Module
  applicationName : Option Application
  automaticLoading : Bool

/-- `config_service_internal` and `config_service_external`; `countProcess` is
`cloudi_concurrency:count/1` of its field. -/
structure Service (ServiceId Module Application : Type) where
  uuid : ServiceId
  countProcess : Nat
  internal : Option (Internal Module Application)
  countProcess_pos : 0 < countProcess

/-- The errors, without what they say of the reason. -/
inductive Error where
  | serviceInvalid
  | servicesValidate
  | aclExpand
  | serviceNotFound
  | serviceModuleNotFound
  | serviceStartFailed
  | serviceStopFailed
  | serviceModuleNotRemoved
deriving DecidableEq

/-- The reply of the monitor to the start of a process. After a timeout of the
call the process may be started all the same. -/
inductive MonitorReply (Pid : Type) where
  | ok (pids : List Pid)
  | error (started : Bool)

/-- The reply of the monitor to a shutdown. After a timeout of the call the
processes may be stopped all the same. -/
inductive ShutdownReply where
  | ok
  | error (stopped : Bool)
deriving DecidableEq

/-- What happens outside during a call. A process exits before it is
initialized (`down`), and then is restarted or not (`restarted`). -/
structure Outside (ServiceId Pid Module : Type) where
  find : ServiceId → Option Module
  monitor : ServiceId → Nat → MonitorReply Pid
  down : Pid → Bool
  restarted : ServiceId → Nat → Bool
  shutdown : ServiceId → ShutdownReply
  removed : ServiceId → Bool

/-- The configurator and the monitor: the services of the configuration, and
the indexes of the processes that each service has. -/
structure System (ServiceId Module Application : Type) where
  services : List (Service ServiceId Module Application)
  processes : ServiceId → List Nat

variable [DecidableEq ServiceId] [DecidableEq Module] [DecidableEq Application]

section

variable (out : Outside ServiceId Pid Module)

/-- `service_start_wait_pid/2` -/
def serviceStartWaitPid : List Pid → Option Error → Option Error
  | [], Error => Error
  | P :: M, Error =>
    if out.down P then serviceStartWaitPid M (Error.elim (some .serviceStartFailed) some)
    else serviceStartWaitPid M Error

/-- `service_start_wait_pids/3` -/
def serviceStartWaitPids : List (List Pid) → Option Error → Option Error
  | [], Error => Error
  | M :: MonitorPids, Error => serviceStartWaitPids MonitorPids (serviceStartWaitPid out M Error)

/-- The processes that are left of those that were started. -/
def initialized (k : ServiceId) (Pids : List (Nat × List Pid)) : List Nat :=
  (Pids.filter fun x => x.2.all (fun P => !out.down P) || out.restarted k x.1).map Prod.fst

/-- `service_start_wait/2`, of the processes with their indexes. -/
def serviceStartWait (s : Service ServiceId Module Application) (Pids : List (Nat × List Pid))
    (σ : System ServiceId Module Application) :
    Except Error (Service ServiceId Module Application) × System ServiceId Module Application :=
  let σ' := { σ with processes := Function.update σ.processes s.uuid (initialized out s.uuid Pids) }
  match serviceStartWaitPids out (Pids.map Prod.snd) none with
  | none => (.ok s, σ')
  | some Error => (.error Error, σ')

/-- The loop of `service_start_internal/6` and `service_start_external/6`, with
the number of processes that are still to be started. -/
def serviceStartLoop (s : Service ServiceId Module Application) : Nat → Nat → List (Nat × List Pid) →
    System ServiceId Module Application →
    Except Error (Service ServiceId Module Application) × System ServiceId Module Application
  | 0, _, Pids, σ => serviceStartWait out s Pids.reverse σ
  | n + 1, IndexProcess, Pids, σ =>
    match out.monitor s.uuid IndexProcess with
    | .ok P =>
      serviceStartLoop s n (IndexProcess + 1) ((IndexProcess, P) :: Pids)
        { σ with processes := Function.update σ.processes s.uuid (IndexProcess :: σ.processes s.uuid) }
    | .error started =>
      (.error .serviceStartFailed,
        if started then
          { σ with processes := Function.update σ.processes s.uuid (IndexProcess :: σ.processes s.uuid) }
        else σ)

/-- `service_start/2` -/
def serviceStart (s : Service ServiceId Module Application) (σ : System ServiceId Module Application) :
    Except Error (Service ServiceId Module Application) × System ServiceId Module Application :=
  match s.internal with
  | some i =>
    -- `service_start_find_internal/2`
    match out.find s.uuid with
    | some Module => serviceStartLoop out { s with internal := some { i with module := Module } } s.countProcess 0 [] σ
    | none => (.error .serviceModuleNotFound, σ)
  | none => serviceStartLoop out s s.countProcess 0 [] σ

/-- `services_add_service/3` -/
def servicesAddService : List (Service ServiceId Module Application) → List (Service ServiceId Module Application) →
    System ServiceId Module Application →
    Except Error (List (Service ServiceId Module Application)) × System ServiceId Module Application
  | [], Added, σ => (.ok Added.reverse, σ)
  | s :: Services, Added, σ =>
    match serviceStart out s σ with
    | (.ok NewService, σ') => servicesAddService Services (NewService :: Added) σ'
    | (.error Error, σ') => (.error Error, σ')

/-- What the validation of the services that are to be added comes to. -/
inductive Validation (ServiceId Module Application : Type) where
  | invalid
  | validate
  | acl
  | ok (services : List (Service ServiceId Module Application))

/-- `services_add/3` of the configuration, and the call `services_add` -/
def servicesAdd (v : Validation ServiceId Module Application) (σ : System ServiceId Module Application) :
    Except Error (List ServiceId) × System ServiceId Module Application :=
  match v with
  | .invalid => (.error .serviceInvalid, σ)
  | .validate => (.error .servicesValidate, σ)
  | .acl => (.error .aclExpand, σ)
  | .ok NextServices =>
    match servicesAddService out NextServices [] σ with
    | (.ok NewServices, σ') =>
      (.ok (NextServices.map Service.uuid), { σ' with services := σ.services ++ NewServices })
    | (.error Error, σ') => (.error Error, σ')

/-- `services_remove_all_internal/2` -/
def servicesRemoveAllInternal (Services : List (Service ServiceId Module Application))
    (s : Service ServiceId Module Application) : Bool :=
  match s.internal with
  | none => false
  | some i => Services.all fun t =>
    match t.internal with
    | none => true
    | some j =>
      decide (j.module ≠ i.module) &&
        !(i.applicationName.isSome && decide (j.applicationName = i.applicationName))

/-- `service_stop/3` -/
def serviceStop (s : Service ServiceId Module Application) (Remove : Bool) (σ : System ServiceId Module Application) :
    Except Error Unit × System ServiceId Module Application :=
  let σ' := { σ with processes := Function.update σ.processes s.uuid [] }
  match out.shutdown s.uuid with
  | .ok =>
    match s.internal with
    | some i =>
      -- `service_stop_remove_internal/2` ignores a service that was not loaded automatically
      if Remove ∧ i.automaticLoading ∧ ¬out.removed s.uuid then (.error .serviceModuleNotRemoved, σ')
      else (.ok (), σ')
    | none => (.ok (), σ')
  | .error stopped => (.error .serviceStopFailed, if stopped then σ' else σ)

/-- `services_remove_all/3` -/
def servicesRemoveAll : List (Service ServiceId Module Application) → List (Service ServiceId Module Application) →
    System ServiceId Module Application →
    Except Error (List (Service ServiceId Module Application)) × System ServiceId Module Application
  | [], Services, σ => (.ok Services, σ)
  | s :: RemoveServices, Services, σ =>
    match serviceStop out s (servicesRemoveAllInternal (RemoveServices ++ Services) s) σ with
    | (.ok _, σ') => servicesRemoveAll RemoveServices Services σ'
    | (.error Error, σ') => (.error Error, σ')

/-- `services_remove_uuid/4`; an identifier that is not a binary of 16 bytes is `none`. -/
def servicesRemoveUuid : List (Option ServiceId) → List (Service ServiceId Module Application) →
    List (Service ServiceId Module Application) → System ServiceId Module Application →
    Except Exn (Except Error (List (Service ServiceId Module Application)) × System ServiceId Module Application)
  | [], RemoveServices, Services, σ => .ok (servicesRemoveAll out RemoveServices.reverse Services σ)
  | some k :: IDs, RemoveServices, Services, σ =>
    match Services.partition fun s => s.uuid = k with
    | ([], _) => .ok (.error .serviceNotFound, σ)
    | ([s], NextServices) => servicesRemoveUuid IDs (s :: RemoveServices) NextServices σ
    | _ => .error .caseClause
  | none :: _, _, _, σ => .ok (.error .serviceInvalid, σ)

/-- `services_remove/3` of the configuration, and the call `services_remove` -/
def servicesRemove (Value : List (Option ServiceId)) (σ : System ServiceId Module Application) :
    Except Exn (Except Error Unit × System ServiceId Module Application) :=
  match Value with
  | some k :: IDs => do
    let r ← servicesRemoveUuid out (some k :: IDs) [] σ.services σ
    match r with
    | (.ok NewServices, σ') => return (.ok (), { σ' with services := NewServices })
    | (.error Error, σ') => return (.error Error, σ')
  | _ => .ok (.error .serviceInvalid, σ)

end

/-- The calls of the configurator. -/
inductive Call (ServiceId Module Application : Type) where
  | servicesAdd (v : Validation ServiceId Module Application)
  | servicesRemove (Value : List (Option ServiceId))

/-- The state after a call, whatever its reply is. -/
def Call.apply (out : Outside ServiceId Pid Module) (c : Call ServiceId Module Application)
    (σ : System ServiceId Module Application) : Except Exn (System ServiceId Module Application) :=
  match c with
  | servicesAdd v => .ok (Configurator.servicesAdd out v σ).2
  | servicesRemove Value => (Configurator.servicesRemove out Value σ).map Prod.snd

/-- The identifiers of the services that are to be added are new ones. -/
def Call.Fresh (σ : System ServiceId Module Application) : Call ServiceId Module Application → Prop
  | servicesAdd (.ok L) => (L.map Service.uuid).Nodup ∧
      ∀ s ∈ L, σ.processes s.uuid = [] ∧ ∀ t ∈ σ.services, t.uuid ≠ s.uuid
  | _ => True

end CloudI.Configurator
