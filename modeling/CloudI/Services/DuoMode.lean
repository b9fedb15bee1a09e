import CloudI.Framework.Exn

/-!
# The info messages of `duo_mode`

In `duo_mode` a process calls the service module for info messages, those that
arrive while a service request is processed from a queue. A callback that fails
stops the process with the state that the callback left, so that the service is
told to terminate. `duo_process_queue_info/1` returns the same tuple for a
message of the queue, which `duo_process_queues/1` does not expect:
`duo_info_failures` says for which runs each failure terminates the service.
-/

namespace CloudI.Services.DuoMode

variable {Term Request S : Type}

inductive ErrorType where
  | error
  | exit
  | throw

/-- What an aspect or a callback does. -/
inductive Outcome (Term S : Type) where
  | ok (s : S)
  | stop (Reason : Term) (s : S)
  | raises (Class : ErrorType) (Error Stack : Term)

/-- A service module with its aspects. What a call does may depend on how many
messages were handled before. -/
structure ServiceModule (Term S : Type) where
  aspectsInfoBefore : List (Nat → Term → S → Outcome Term S)
  cloudiServiceHandleInfo : Nat → Term → S → Outcome Term S
  aspectsInfoAfter : List (Nat → Term → S → Outcome Term S)

/-- The reason of a termination: what was returned, or `{Type, {Error, Stack}}`. -/
inductive Reason (Term : Type) where
  | stop (Reason : Term)
  | exception (Class : ErrorType) (Error Stack : Term)

/-- `cloudi_service_info_success` and `cloudi_service_info_failure` -/
inductive InfoResult (Term S : Type) where
  | success (s : S)
  | failure (r : Reason Term) (s : S)

/-- `aspects_info/4` -/
def aspectsInfo (n : Nat) : List (Nat → Term → S → Outcome Term S) → Term → S → Outcome Term S
  | [], _, ServiceState => .ok ServiceState
  | F :: L, Request, ServiceState =>
    match F n Request ServiceState with
    | .ok NewServiceState => aspectsInfo n L Request NewServiceState
    | .stop Reason s => .stop Reason s
    | .raises Class Error Stack => .raises Class Error Stack

/-- `handle_module_info/5` -/
def handleModuleInfo (M : ServiceModule Term S) (n : Nat) (Request : Term) (ServiceState : S) : InfoResult Term S :=
  match aspectsInfo n M.aspectsInfoBefore Request ServiceState with
  | .ok NextServiceState =>
    match M.cloudiServiceHandleInfo n Request NextServiceState with
    | .ok NewServiceState =>
      match aspectsInfo n M.aspectsInfoAfter Request NewServiceState with
      | .ok FinalServiceState => .success FinalServiceState
      | .stop Reason FinalServiceState => .failure (.stop Reason) FinalServiceState
      | .raises Class Error Stack => .failure (.exception Class Error Stack) NewServiceState
    | .stop Reason NewServiceState => .failure (.stop Reason) NewServiceState
    | .raises Class Error Stack => .failure (.exception Class Error Stack) ServiceState
  | .stop Reason NextServiceState => .failure (.stop Reason) NextServiceState
  | .raises Class Error Stack => .failure (.exception Class Error Stack) ServiceState

/-- The fields of a `config_service_update` that `duo_mode` uses; `update` is
what `update/3` returns for the service state, with `none` for an error. -/
structure Plan (S : Type) where
  sync : Bool
  updatePending : Bool
  updateNow : Bool
  queueRequests : Bool
  update : S → Option S

/-- The record `state_duo`, with the request that is processed and the number
of info messages that were handled. -/
structure StateDuo (Term Request S : Type) where
  queueRequests : Bool
  updatePlan : Option (Plan S)
  queued : List Request
  queuedInfo : List Term
  serviceState : S
  processing : Option Request
  handled : Nat

/-- The messages; the message of an update is an info message when there is a plan. -/
inductive Message (Term Request S : Type) where
  | info (Request : Term)
  | send (R : Request)
  | requestSuccess (NewServiceState : S)
  | requestFailure (r : Reason Term) (NewServiceState : S)
  | exit (r : Reason Term)
  | update (Info : Term) (p : Plan S)
  | updateNow

/-- What `duo_process_queue_info/1` returns. -/
inductive QueueInfo (Term Request S : Type) where
  | state (σ : StateDuo Term Request S)
  | stop (r : Reason Term) (σ : StateDuo Term Request S)

/-- What `duo_handle_info/2` returns. -/
inductive Reply (Term Request S : Type) where
  | stop (r : Reason Term) (σ : StateDuo Term Request S)
  | noreply (σ : StateDuo Term Request S)

variable (M : ServiceModule Term S)

/-- `duo_process_queue_info/1` of the queue -/
def duoProcessQueueInfo : List Term → StateDuo Term Request S → QueueInfo Term Request S
  | [], σ => .state { σ with queueRequests := false, queuedInfo := [] }
  | Info :: NewQueueInfo, σ =>
    match handleModuleInfo M σ.handled Info σ.serviceState with
    | .success NewServiceState =>
      duoProcessQueueInfo NewQueueInfo
        { σ with queuedInfo := NewQueueInfo, serviceState := NewServiceState, handled := σ.handled + 1 }
    | .failure r NewServiceState =>
      .stop r { σ with queuedInfo := NewQueueInfo, serviceState := NewServiceState, handled := σ.handled + 1 }

/-- `duo_process_queue/1` -/
def duoProcessQueue (σ : StateDuo Term Request S) : StateDuo Term Request S :=
  match σ.queued with
  | [] => { σ with queueRequests := false }
  | R :: NewQueue => { σ with queued := NewQueue, processing := some R }

/-- `duo_process_queues/1` with no plan: a `stop` tuple is not a `state_duo`. -/
def duoProcessQueuesUndefined (σ : StateDuo Term Request S) : Except Exn (StateDuo Term Request S) :=
  if σ.queueRequests then
    match duoProcessQueueInfo M σ.queuedInfo σ with
    | .state NewState =>
      if NewState.queueRequests then .ok NewState else .ok (duoProcessQueue { NewState with queueRequests := true })
    | .stop _ _ => .error .badmatch
  else .error .functionClause

/-- What `duo_process_update/1` leaves for the queues. -/
def updated (p : Plan S) (σ : StateDuo Term Request S) : StateDuo Term Request S :=
  { σ with serviceState := (p.update σ.serviceState).getD σ.serviceState, updatePlan := none }

/-- `duo_process_update/1` -/
def duoProcessUpdate (p : Plan S) (σ : StateDuo Term Request S) : Except Exn (StateDuo Term Request S) :=
  if p.queueRequests then .error .badmatch else duoProcessQueuesUndefined M (updated p σ)

/-- `duo_process_queues/1` -/
def duoProcessQueues (σ : StateDuo Term Request S) : Except Exn (StateDuo Term Request S) :=
  match σ.updatePlan with
  | none => duoProcessQueuesUndefined M σ
  | some p =>
    let NewUpdatePlan := { p with updatePending := false, queueRequests := false }
    if p.updateNow then duoProcessUpdate M NewUpdatePlan { σ with updatePlan := some NewUpdatePlan }
    else .ok { σ with updatePlan := some NewUpdatePlan }

/-- The last two clauses of `duo_handle_info/2` -/
def duoHandleInfoMessage (Info : Term) (σ : StateDuo Term Request S) : Reply Term Request S :=
  if σ.queueRequests then .noreply { σ with queuedInfo := σ.queuedInfo ++ [Info] }
  else
    match handleModuleInfo M σ.handled Info σ.serviceState with
    | .success NewServiceState => .noreply { σ with serviceState := NewServiceState, handled := σ.handled + 1 }
    | .failure r NewServiceState => .stop r { σ with serviceState := NewServiceState, handled := σ.handled + 1 }

/-- `duo_handle_info/2` -/
def duoHandleInfo (m : Message Term Request S) (σ : StateDuo Term Request S) :
    Except Exn (Reply Term Request S) :=
  match m with
  | .info Info => .ok (duoHandleInfoMessage M Info σ)
  | .send R =>
    if σ.queueRequests then .ok (.noreply { σ with queued := σ.queued ++ [R] })
    else .ok (.noreply { σ with queueRequests := true, processing := some R })
  | .requestSuccess NewServiceState =>
    (duoProcessQueues M { σ with serviceState := NewServiceState, processing := none }).map .noreply
  | .requestFailure r NewServiceState => .ok (.stop r { σ with serviceState := NewServiceState, processing := none })
  | .exit r => .ok (.stop r σ)
  | .update Info p =>
    match σ.updatePlan with
    | some _ => .ok (duoHandleInfoMessage M Info σ)
    | none =>
      .ok (.noreply { σ with updatePlan := some { p with updatePending := p.sync && σ.queueRequests
                                                         queueRequests := σ.queueRequests }
                             queueRequests := true })
  | .updateNow =>
    match σ.updatePlan with
    | none => .error .badmatch
    | some p =>
      let NewState := { σ with updatePlan := some { p with updateNow := true } }
      if p.queueRequests then .ok (.noreply NewState)
      else (duoProcessUpdate M { p with updateNow := true } NewState).map .noreply

/-- What becomes of the process; `terminated` is `duo_mode_loop_terminate/2`. -/
inductive Status (Term Request S : Type) where
  | running (σ : StateDuo Term Request S)
  | terminated (r : Reason Term) (ServiceState : S)
  | crashed (e : Exn)

/-- `duo_mode_loop/1`, for one message -/
def duoModeLoop (m : Message Term Request S) (σ : StateDuo Term Request S) : Status Term Request S :=
  match duoHandleInfo M m σ with
  | .ok (.stop r NewState) => .terminated r NewState.serviceState
  | .ok (.noreply NewState) => .running NewState
  | .error e => .crashed e

/-- The state after `cloudi_service_init`, with what was queued until then. -/
def initState (Queued : List Request) (QueuedInfo : List Term) (ServiceState : S) : StateDuo Term Request S :=
  ⟨true, none, Queued, QueuedInfo, ServiceState, none, 0⟩

/-- The end of `duo_mode_loop_init/1` -/
def duoModeLoopInit (Queued : List Request) (QueuedInfo : List Term) (ServiceState : S) : Status Term Request S :=
  match duoProcessQueues M (initState Queued QueuedInfo ServiceState) with
  | .ok FinalState => .running FinalState
  | .error e => .crashed e

/-- The process receives a message, as long as it runs. -/
def Status.receive (m : Message Term Request S) : Status Term Request S → Status Term Request S
  | .running σ => duoModeLoop M m σ
  | s => s

/-! ## The failures -/

/-- Info messages that are handled one after the other: the state they leave,
or the first failure. -/
def handleAll : Nat → List Term → S → S ⊕ Reason Term × S
  | _, [], s => .inl s
  | n, Info :: rest, s =>
    match handleModuleInfo M n Info s with
    | .success s' => handleAll (n + 1) rest s'
    | .failure r s' => .inr (r, s')

/-- The state that a message leaves for the info messages of the queue, when
they are handled with it. -/
def drained (m : Message Term Request S) (σ : StateDuo Term Request S) : Option (StateDuo Term Request S) :=
  match m with
  | .requestSuccess NewServiceState =>
    let σ' := { σ with serviceState := NewServiceState, processing := none }
    match σ.updatePlan with
    | none => some σ'
    | some p => if p.updateNow then some (updated p σ') else none
  | .updateNow =>
    match σ.updatePlan with
    | none => none
    | some p => if p.queueRequests then none else some (updated p σ)
  | _ => none

/-- An info message of the queue fails. -/
def QueueFails (σ : StateDuo Term Request S) (r : Reason Term) (s : S) : Prop :=
  σ.queueRequests ∧ handleAll M σ.handled σ.queuedInfo σ.serviceState = .inr (r, s)

/-- A message makes an info message of the queue fail. -/
def DrainFails (m : Message Term Request S) (σ : StateDuo Term Request S) (r : Reason Term) (s : S) : Prop :=
  ∃ τ, drained m σ = some τ ∧ QueueFails M τ r s

/-- The info message that a message is. -/
def asInfo (m : Message Term Request S) (σ : StateDuo Term Request S) : Option Term :=
  match m with
  | .info Info => some Info
  | .update Info _ => σ.updatePlan.map fun _ => Info
  | _ => none

/-- A message makes an info message fail: itself, or one of the queue. -/
def Fails (m : Message Term Request S) (σ : StateDuo Term Request S) (r : Reason Term) (s : S) : Prop :=
  (∃ Info, asInfo m σ = some Info ∧ σ.queueRequests = false ∧
    handleModuleInfo M σ.handled Info σ.serviceState = .failure r s) ∨ DrainFails M m σ r s

/-- Each failure terminates the service with its reason and the state it left. -/
def Terminates : Status Term Request S → List (Message Term Request S) → Prop
  | .running σ, m :: ms =>
    (∀ r s, Fails M m σ r s → duoModeLoop M m σ = .terminated r s) ∧ Terminates (duoModeLoop M m σ) ms
  | _, _ => True

/-- No info message of the queue fails. -/
def Clean : Status Term Request S → List (Message Term Request S) → Prop
  | .running σ, m :: ms => (∀ r s, ¬ DrainFails M m σ r s) ∧ Clean (duoModeLoop M m σ) ms
  | _, _ => True

variable {M} {σ : StateDuo Term Request S}

/-- The queue is handled as its messages are, and a failure is returned with its state. -/
theorem duoProcessQueueInfo_spec (l : List Term) (σ : StateDuo Term Request S) :
    match handleAll M σ.handled l σ.serviceState with
    | .inl s => ∃ n, duoProcessQueueInfo M l σ =
        .state { σ with queueRequests := false, queuedInfo := [], serviceState := s, handled := n }
    | .inr (r, s) => ∃ τ, duoProcessQueueInfo M l σ = .stop r τ ∧ τ.serviceState = s := by
  induction l generalizing σ with
  | nil => exact ⟨σ.handled, rfl⟩
  | cons Info l ih =>
    rw [handleAll, duoProcessQueueInfo]
    cases handleModuleInfo M σ.handled Info σ.serviceState with
    | success s => exact ih { σ with queuedInfo := l, serviceState := s, handled := σ.handled + 1 }
    | failure r s => exact ⟨_, rfl, rfl⟩

theorem duoProcessQueuesUndefined_crash {r : Reason Term} {s : S} (h : QueueFails M σ r s) :
    duoProcessQueuesUndefined M σ = .error .badmatch := by
  obtain ⟨hq, hall⟩ := h
  have hspec := duoProcessQueueInfo_spec (M := M) σ.queuedInfo σ
  rw [hall] at hspec
  obtain ⟨τ, hτ, -⟩ := hspec
  rw [duoProcessQueuesUndefined, if_pos hq, hτ]

/-- The queue is handled from the state that the message leaves. -/
theorem duoModeLoop_drained {m : Message Term Request S} {τ : StateDuo Term Request S} (h : drained m σ = some τ) :
    duoModeLoop M m σ = match duoProcessQueuesUndefined M τ with
      | .ok NewState => .running NewState
      | .error e => .crashed e := by
  have hmap : ∀ x : Except Exn (StateDuo Term Request S), (match x.map Reply.noreply with
      | .ok (.stop r NewState) => Status.terminated r NewState.serviceState
      | .ok (.noreply NewState) => .running NewState
      | .error e => .crashed e) = match x with
      | .ok NewState => .running NewState
      | .error e => .crashed e := by
    intro x
    cases x <;> rfl
  cases m with
  | requestSuccess s =>
    rw [duoModeLoop, duoHandleInfo, hmap, duoProcessQueues]
    rw [drained] at h
    cases hp : σ.updatePlan with
    | none =>
      rw [hp] at h
      cases h
      rfl
    | some p =>
      rw [hp] at h
      simp only at h ⊢
      split at h
      · rename_i hnow
        cases h
        rw [if_pos hnow]
        rfl
      · cases h
  | updateNow =>
    rw [duoModeLoop, duoHandleInfo]
    rw [drained] at h
    cases hp : σ.updatePlan with
    | none =>
      rw [hp] at h
      cases h
    | some p =>
      rw [hp] at h
      simp only at h ⊢
      split at h
      · cases h
      · rename_i hq
        cases h
        rw [if_neg hq, hmap, duoProcessUpdate, if_neg hq]
        rfl
  | info _ => cases h
  | send _ => cases h
  | requestFailure _ _ => cases h
  | exit _ => cases h
  | update _ _ => cases h

theorem duoHandleInfo_asInfo {m : Message Term Request S} {Info : Term} (h : asInfo m σ = some Info) :
    duoHandleInfo M m σ = .ok (duoHandleInfoMessage M Info σ) := by
  cases m with
  | info T =>
    cases h
    rfl
  | update T p =>
    obtain ⟨q, hq, rfl⟩ := Option.map_eq_some_iff.mp h
    rw [duoHandleInfo, hq]
  | send _ => cases h
  | requestSuccess _ => cases h
  | requestFailure _ _ => cases h
  | exit _ => cases h
  | updateNow => cases h

theorem duoModeLoop_terminates_iff (m : Message Term Request S) (σ : StateDuo Term Request S) :
    (∀ r s, Fails M m σ r s → duoModeLoop M m σ = .terminated r s) ↔ ∀ r s, ¬ DrainFails M m σ r s := by
  refine ⟨fun h r s hd => ?_, fun h r s hf => ?_⟩
  · obtain ⟨τ, hτ, hq⟩ := hd
    have hterm := h r s (.inr ⟨τ, hτ, hq⟩)
    rw [duoModeLoop_drained hτ, duoProcessQueuesUndefined_crash hq] at hterm
    cases hterm
  · obtain ⟨Info, hm, hq, hr⟩ := hf.resolve_right (h r s)
    rw [duoModeLoop, duoHandleInfo_asInfo hm, duoHandleInfoMessage, if_neg (by rw [hq]; decide), hr]

theorem terminates_iff_clean (st : Status Term Request S) (ms : List (Message Term Request S)) :
    Terminates M st ms ↔ Clean M st ms := by
  induction ms generalizing st with
  | nil => cases st <;> exact Iff.rfl
  | cons m ms ih =>
    cases st with
    | running σ => exact and_congr (duoModeLoop_terminates_iff m σ) (ih _)
    | terminated r s => exact Iff.rfl
    | crashed e => exact Iff.rfl

theorem duoModeLoopInit_crash {Queued : List Request} {QueuedInfo : List Term} {ServiceState : S} {r : Reason Term}
    {s : S} (h : QueueFails M (initState Queued QueuedInfo ServiceState) r s) :
    duoModeLoopInit M Queued QueuedInfo ServiceState = .crashed .badmatch := by
  have hcrash : duoProcessQueues M (initState Queued QueuedInfo ServiceState) = .error .badmatch :=
    duoProcessQueuesUndefined_crash h
  rw [duoModeLoopInit, hcrash]

/-- In a run from the initialization each info message that fails terminates
the service, with its reason and the state that it left, exactly when no info
message of the queue fails. -/
theorem duo_info_failures (M : ServiceModule Term S) (Queued : List Request) (QueuedInfo : List Term) (ServiceState : S)
    (ms : List (Message Term Request S)) :
    ((∀ r s, QueueFails M (initState Queued QueuedInfo ServiceState) r s →
        duoModeLoopInit M Queued QueuedInfo ServiceState = .terminated r s) ∧
      Terminates M (duoModeLoopInit M Queued QueuedInfo ServiceState) ms) ↔
    ((∀ r s, ¬ QueueFails M (initState Queued QueuedInfo ServiceState) r s) ∧
      Clean M (duoModeLoopInit M Queued QueuedInfo ServiceState) ms) := by
  refine and_congr ⟨fun h r s hq => ?_, fun h r s hq => absurd hq (h r s)⟩ (terminates_iff_clean _ ms)
  have hterm := h r s hq
  rw [duoModeLoopInit_crash hq] at hterm
  cases hterm

/-- A service that stops on every info message. -/
def stopModule : ServiceModule Nat Nat := ⟨[], fun _ Info s => .stop Info s, []⟩

/-- The info message 7 arrives while a request is processed. -/
theorem not_duo_info_failures : ¬ ∀ (M : ServiceModule Nat Nat) (ms : List (Message Nat Nat Nat)),
    Terminates M (duoModeLoopInit M [] [] 0) ms := by
  intro h
  have hrun := (h stopModule [.send 1, .info 7, .requestSuccess 5]).2.2.1 (.stop 7) 5 (.inr ⟨_, rfl, rfl, rfl⟩)
  cases hrun

end CloudI.Services.DuoMode
