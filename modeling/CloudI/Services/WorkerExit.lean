import Mathlib.Logic.Relation
import CloudI.Services.SerialState

/-!
# Workers replaced by an update

An update of the options of the request process or the info process tells the
worker to exit, and the state forgets it. The worker was spawned with `link`,
so the process, which traps exits, receives an `'EXIT'`: with the reason
`normal`, or with the result of the callback that was out, when the uses of the
worker are exhausted by it. Every clause of `handle_info` for such a message of
a worker that is not known any more stops the process (`handleExit_forgotten`):
`survives_update_iff` says that an update leaves the process running exactly
when it replaces no worker that lives.
-/

namespace CloudI.Services.Internal

variable {TransId Pid Term Rate S : Type} [DecidableEq TransId]

/-- The reason of an `'EXIT'` of a worker. -/
inductive ExitReason (TransId Pid Term S : Type) where
  | normal
  | shutdown
  | shutdownReason (t : Term)
  | restart
  /-- the result of a callback, when the uses of the worker are exhausted -/
  | result (r : Result TransId Pid Term S)
  | other (t : Term)

/-- The process after an update: the workers that it told to exit, which no
longer belong to `sys`, with the uses they have left; the messages `'EXIT'` of
these workers that were not received; and whether the process is running. -/
structure Updated (TransId Pid Term Rate S : Type) where
  sys : System TransId Pid Term Rate S
  loopExits : List (Nat × Option Nat)
  exits : List (Nat × ExitReason TransId Pid Term S)
  running : Bool

/-- A worker that was told to exit returns first from the callback that is out;
`l₁` and `l₂` are the other messages to workers. -/
def Updated.finish (w : Work TransId Pid Term S) (l₁ l₂ : List (Work TransId Pid Term S)) (Uses : Option Nat)
    (success : Bool) (s : S) (u : Updated TransId Pid Term Rate S) : Updated TransId Pid Term Rate S :=
  let r : Result TransId Pid Term S := ⟨w.pid, w.callback, success, s, Uses = some 1⟩
  { u with
    sys := { u.sys with
      workers := { u.sys.workers with
        running := l₁ ++ l₂
        results := if Uses = some 1 then u.sys.workers.results else u.sys.workers.results ++ [r]
        trace := u.sys.workers.trace ++ [.finished w.callback s] } }
    loopExits := if Uses = some 1 then u.loopExits.erase (w.pid, Uses)
      else u.loopExits.erase (w.pid, Uses) ++ [(w.pid, Uses.map fun n => n - 1)]
    exits := if Uses = some 1 then u.exits ++ [(w.pid, .result r)] else u.exits }

section

variable (rt : Runtime TransId Pid Term Rate) (mode : Mode) (out : Outside Term S)

/-- `handle_info` and `duo_handle_info` of `{'EXIT', Pid, Reason}` from a worker. -/
def handleExit (From : Nat) (Reason : ExitReason TransId Pid Term S) (σ : System TransId Pid Term Rate S) :
    Except Halt (System TransId Pid Term Rate S) :=
  match Reason with
  | .result r => result rt mode out { r with pid := From, exits := true } σ
  | .shutdown => .error .stop
  | .shutdownReason _ => .error .stop
  | .restart => .error .stop
  -- the clauses for the request process, the info process and any other process all stop
  | .normal => .error .stop
  | .other _ => .error .stop

/-- The workers that `update_state/2` tells to exit; a message to a process that exited is lost. -/
def replaced (p : Plan Pid Rate S) (σ : System TransId Pid Term Rate S) : List (Nat × Option Nat) :=
  ((if .requestPidUses ∈ p.pidKeys ∨ .requestPidOptions ∈ p.pidKeys then σ.state.requestPid.toList else []) ++
    if mode = .normal ∧ (.infoPidUses ∈ p.pidKeys ∨ .infoPidOptions ∈ p.pidKeys) then σ.state.infoPid.toList
    else []).filterMap fun pid => (σ.workers.uses pid).map fun Uses => (pid, Uses)

/-- The process right after `update_state/2`. -/
def afterUpdate (p : Plan Pid Rate S) (σ : System TransId Pid Term Rate S) : Updated TransId Pid Term Rate S where
  sys := updateState rt mode p σ
  loopExits := replaced mode p σ
  exits := []
  running := true

/-- The process goes on as before; or a worker that was told to exit finishes
what came before, or exits; or its `'EXIT'` is received. In any order. -/
inductive Delivers : Updated TransId Pid Term Rate S → Updated TransId Pid Term Rate S → Prop
  | step {u : Updated TransId Pid Term Rate S} {σ' : System TransId Pid Term Rate S} : u.running = true →
      Step rt mode u.sys σ' → Delivers u { u with sys := σ' }
  | finish {u : Updated TransId Pid Term Rate S} {w : Work TransId Pid Term S}
      {l₁ l₂ : List (Work TransId Pid Term S)} {Uses : Option Nat} (success : Bool) (s : S) :
      (w.pid, Uses) ∈ u.loopExits → u.sys.workers.running = l₁ ++ w :: l₂ →
      Delivers u (u.finish w l₁ l₂ Uses success s)
  | exit {u : Updated TransId Pid Term Rate S} {pid : Nat} {Uses : Option Nat} : (pid, Uses) ∈ u.loopExits →
      (∀ w ∈ u.sys.workers.running, w.pid ≠ pid) →
      Delivers u { u with loopExits := u.loopExits.erase (pid, Uses), exits := u.exits ++ [(pid, .normal)] }
  | receive {u : Updated TransId Pid Term Rate S} {σ' : System TransId Pid Term Rate S} {pid : Nat}
      {reason : ExitReason TransId Pid Term S} {l₁ l₂ : List (Nat × ExitReason TransId Pid Term S)}
      (out : Outside Term S) : u.running = true → u.exits = l₁ ++ (pid, reason) :: l₂ →
      handleExit rt mode out pid reason u.sys = .ok σ' → Delivers u { u with sys := σ', exits := l₁ ++ l₂ }
  | stop {u : Updated TransId Pid Term Rate S} {pid : Nat} {reason : ExitReason TransId Pid Term S} {h : Halt}
      {l₁ l₂ : List (Nat × ExitReason TransId Pid Term S)} (out : Outside Term S) : u.running = true →
      u.exits = l₁ ++ (pid, reason) :: l₂ → handleExit rt mode out pid reason u.sys = .error h →
      Delivers u { u with exits := l₁ ++ l₂, running := false }

/-- No message that the update causes stops the process. -/
def SurvivesUpdate (p : Plan Pid Rate S) (σ : System TransId Pid Term Rate S) : Prop :=
  ∀ u, Relation.ReflTransGen (Delivers rt mode) (afterUpdate rt mode p σ) u → u.running = true

/-- The plan changes no option of a worker that lives. -/
def KeepsWorkers (p : Plan Pid Rate S) (σ : System TransId Pid Term Rate S) : Prop :=
  (.requestPidUses ∈ p.pidKeys ∨ .requestPidOptions ∈ p.pidKeys →
    ∀ pid, σ.state.requestPid = some pid → σ.workers.uses pid = none) ∧
  (mode = .normal → .infoPidUses ∈ p.pidKeys ∨ .infoPidOptions ∈ p.pidKeys →
    ∀ pid, σ.state.infoPid = some pid → σ.workers.uses pid = none)

end

variable {rt : Runtime TransId Pid Term Rate} {mode : Mode} {p : Plan Pid Rate S}
  {σ : System TransId Pid Term Rate S} {s₀ : S} {u u' : Updated TransId Pid Term Rate S}

omit [DecidableEq TransId] in
theorem mem_replaced {pid : Nat} {Uses : Option Nat} :
    (pid, Uses) ∈ replaced mode p σ ↔ σ.workers.uses pid = some Uses ∧
      ((.requestPidUses ∈ p.pidKeys ∨ .requestPidOptions ∈ p.pidKeys) ∧ σ.state.requestPid = some pid ∨
        (mode = .normal ∧ (.infoPidUses ∈ p.pidKeys ∨ .infoPidOptions ∈ p.pidKeys)) ∧
          σ.state.infoPid = some pid) := by
  have hif : ∀ (c : Prop) [Decidable c] (o : Option Nat), pid ∈ (if c then o.toList else []) ↔ c ∧ o = some pid := by
    intro c _ o
    split <;> simp [*]
  have hmem : ∀ l : List Nat, (pid, Uses) ∈ l.filterMap (fun q => (σ.workers.uses q).map fun Uses => (q, Uses)) ↔
      σ.workers.uses pid = some Uses ∧ pid ∈ l := by
    intro l
    simp only [List.mem_filterMap, Option.map_eq_some_iff, Prod.mk.injEq]
    constructor
    · rintro ⟨q, hq, _, hu, rfl, rfl⟩
      exact ⟨hu, hq⟩
    · rintro ⟨hu, hq⟩
      exact ⟨pid, hq, Uses, hu, rfl, rfl⟩
  rw [replaced, hmem, List.mem_append, hif, hif]

omit [DecidableEq TransId] in
theorem replaced_eq_nil : replaced mode p σ = [] ↔ KeepsWorkers mode p σ := by
  rw [List.eq_nil_iff_forall_not_mem]
  simp only [Prod.forall, mem_replaced, KeepsWorkers]
  constructor
  · intro h
    refine ⟨fun hkey pid hpid => ?_, fun hmode hkey pid hpid => ?_⟩
    · cases hu : σ.workers.uses pid with
      | none => rfl
      | some Uses => exact absurd ⟨hu, .inl ⟨hkey, hpid⟩⟩ (h pid Uses)
    · cases hu : σ.workers.uses pid with
      | none => rfl
      | some Uses => exact absurd ⟨hu, .inr ⟨⟨hmode, hkey⟩, hpid⟩⟩ (h pid Uses)
  · rintro ⟨hr, hi⟩ pid Uses ⟨hu, ⟨hkey, hpid⟩ | ⟨⟨hmode, hkey⟩, hpid⟩⟩
    · cases hu.symm.trans (hr hkey pid hpid)
    · cases hu.symm.trans (hi hmode hkey pid hpid)

/-! ## A worker that lives is replaced -/

/-- The process does not know the worker. -/
def Forgotten (pid : Nat) (σ : System TransId Pid Term Rate S) : Prop :=
  σ.state.requestPid ≠ some pid ∧ σ.state.infoPid ≠ some pid

/-- An `'EXIT'` of a worker that is not known stops the process, whatever the reason. -/
theorem handleExit_forgotten {pid : Nat} (h : Forgotten pid σ) (out : Outside Term S)
    (reason : ExitReason TransId Pid Term S) : handleExit rt mode out pid reason σ = .error .stop := by
  cases reason with
  | result r =>
    have hno : resultExit mode { r with pid := pid, exits := true } σ.state = none := by
      cases hc : r.callback with
      | request T => simp only [resultExit, if_neg h.1]
      | info Request => simp only [resultExit, if_neg h.1, h.2, false_and, if_false]
    simp only [handleExit, result, if_true, hno]
  | _ => rfl

/-- The two workers that the process knows are different ones in every state reached. -/
theorem Reachable.ne (h : Reachable rt mode s₀ σ) {pid : Nat} (hr : σ.state.requestPid = some pid) :
    σ.state.infoPid ≠ some pid := by
  by_cases hc : σ.IsCalm s₀
  · exact hc.pids.ne pid hr
  · rcases (h.inv.calling hc).2.2 with ⟨w, hw, -⟩ | ⟨r, hret, -⟩
    · exact hw.pids.ne pid hr
    · exact hret.pids.ne pid hr

theorem afterUpdate_forgotten (h : Reachable rt mode s₀ σ) {pid : Nat} {Uses : Option Nat}
    (hm : (pid, Uses) ∈ replaced mode p σ) : Forgotten pid (updateState rt mode p σ) := by
  obtain ⟨-, ⟨hkey, hpid⟩ | ⟨hkey, hpid⟩⟩ := mem_replaced.mp hm
  · refine ⟨?_, ?_⟩
    · simp only [updateState, if_pos hkey]
      exact (Option.some_ne_none pid).symm
    · simp only [updateState]
      split
      · exact (Option.some_ne_none pid).symm
      · exact h.ne hpid
  · refine ⟨?_, ?_⟩
    · simp only [updateState]
      split
      · exact (Option.some_ne_none pid).symm
      · exact fun hr => h.ne hr hpid
    · simp only [updateState, if_pos hkey]
      exact (Option.some_ne_none pid).symm

/-- The process receives an `'EXIT'` of a worker that is not known. -/
theorem Delivers.stopped {pid : Nat} {reason : ExitReason TransId Pid Term S} (hf : Forgotten pid u.sys)
    (hr : u.running = true) (hm : (pid, reason) ∈ u.exits) (out : Outside Term S) :
    ∃ u', Delivers rt mode u u' ∧ u'.running = false := by
  obtain ⟨l₁, l₂, hsplit⟩ := List.append_of_mem hm
  exact ⟨_, .stop out hr hsplit (handleExit_forgotten hf out reason), rfl⟩

theorem stopped_idle (out : Outside Term S) {pid : Nat} {Uses : Option Nat} (hr : u.running = true)
    (hm : (pid, Uses) ∈ u.loopExits) (hidle : ∀ w ∈ u.sys.workers.running, w.pid ≠ pid) (hf : Forgotten pid u.sys) :
    ∃ u', Relation.ReflTransGen (Delivers rt mode) u u' ∧ u'.running = false := by
  let v : Updated TransId Pid Term Rate S :=
    { u with loopExits := u.loopExits.erase (pid, Uses), exits := u.exits ++ [(pid, .normal)] }
  have hexit : Delivers rt mode u v := .exit hm hidle
  have hlast : (pid, .normal) ∈ v.exits := List.mem_append_right _ (List.mem_singleton_self _)
  obtain ⟨u', hd, hstop⟩ : ∃ u', Delivers rt mode v u' ∧ u'.running = false := Delivers.stopped hf hr hlast out
  exact ⟨u', (Relation.ReflTransGen.single hexit).tail hd, hstop⟩

/-- A worker that was told to exit exits at last, and its `'EXIT'` is received;
the induction is on how many messages the workers did not finish. -/
theorem exists_stopped (out : Outside Term S) (s : S) (n : Nat) : ∀ (u : Updated TransId Pid Term Rate S) {pid : Nat}
    {Uses : Option Nat}, u.sys.workers.running.length = n → u.running = true → (pid, Uses) ∈ u.loopExits →
    Forgotten pid u.sys → ∃ u', Relation.ReflTransGen (Delivers rt mode) u u' ∧ u'.running = false := by
  induction n with
  | zero =>
    intro u pid Uses hn hr hm hf
    have hidle : ∀ w ∈ u.sys.workers.running, w.pid ≠ pid := by
      rw [List.length_eq_zero_iff.mp hn]
      exact fun w hw => absurd hw List.not_mem_nil
    exact stopped_idle out hr hm hidle hf
  | succ n ih =>
    intro u pid Uses hn hr hm hf
    by_cases hidle : ∀ w ∈ u.sys.workers.running, w.pid ≠ pid
    · exact stopped_idle out hr hm hidle hf
    · simp only [not_forall, not_not] at hidle
      obtain ⟨w, hw, rfl⟩ := hidle
      obtain ⟨l₁, l₂, hsplit⟩ := List.append_of_mem hw
      let v := u.finish w l₁ l₂ Uses true s
      have hfinish : Delivers rt mode u v := .finish true s hm hsplit
      by_cases huses : Uses = some 1
      · have hlast : (w.pid, .result ⟨w.pid, w.callback, true, s, Uses = some 1⟩) ∈ v.exits := by
          simp [v, Updated.finish, huses]
        obtain ⟨u', hd, hstop⟩ : ∃ u', Delivers rt mode v u' ∧ u'.running = false := Delivers.stopped hf hr hlast out
        exact ⟨u', (Relation.ReflTransGen.single hfinish).tail hd, hstop⟩
      · have hlen : v.sys.workers.running.length = n := by
          have := congrArg List.length hsplit
          simp only [v, Updated.finish, List.length_append, List.length_cons] at this ⊢
          omega
        have hlast : (w.pid, Uses.map fun n => n - 1) ∈ v.loopExits := by simp [v, Updated.finish, huses]
        obtain ⟨u', hd, hstop⟩ := ih v hlen hr hlast hf
        exact ⟨u', (Relation.ReflTransGen.single hfinish).trans hd, hstop⟩

theorem stops_of_mem (h : Reachable rt mode s₀ σ) {pid : Nat} {Uses : Option Nat}
    (hm : (pid, Uses) ∈ replaced mode p σ) : ¬ SurvivesUpdate rt mode p σ := by
  intro hs
  obtain ⟨u, hu, hstop⟩ := exists_stopped ⟨fun _ _ _ => none⟩ s₀ _ (afterUpdate rt mode p σ) rfl rfl hm
    (afterUpdate_forgotten h hm)
  exact absurd (hs u hu) (by rw [hstop]; exact Bool.false_ne_true)

/-! ## No worker that lives is replaced -/

/-- Without a worker that was told to exit no `'EXIT'` comes. -/
theorem Delivers.quiet (hd : Delivers rt mode u u') (hl : u.loopExits = []) (he : u.exits = [])
    (hr : u.running = true) : u'.loopExits = [] ∧ u'.exits = [] ∧ u'.running = true := by
  cases hd with
  | step _ _ => exact ⟨hl, he, hr⟩
  | finish _ _ hm _ =>
    rw [hl] at hm
    cases hm
  | exit hm _ =>
    rw [hl] at hm
    cases hm
  | receive _ _ hsplit _ =>
    rw [he] at hsplit
    cases List.append_eq_nil_iff.mp hsplit.symm |>.2
  | stop _ _ hsplit _ =>
    rw [he] at hsplit
    cases List.append_eq_nil_iff.mp hsplit.symm |>.2

theorem survives_of_keeps (h : KeepsWorkers mode p σ) : SurvivesUpdate rt mode p σ := by
  intro u hu
  have hquiet : u.loopExits = [] ∧ u.exits = [] ∧ u.running = true := by
    induction hu with
    | refl => exact ⟨replaced_eq_nil.mpr h, rfl, rfl⟩
    | tail _ hd ih => exact hd.quiet ih.1 ih.2.1 ih.2.2
  exact hquiet.2.2

/-- In every state reached, an update leaves the process running through all
that it causes if and only if it changes no option of a worker that lives. -/
theorem survives_update_iff (h : Reachable rt mode s₀ σ) (p : Plan Pid Rate S) :
    SurvivesUpdate rt mode p σ ↔ KeepsWorkers mode p σ := by
  constructor
  · intro hs
    by_contra hkeep
    have hne : replaced mode p σ ≠ [] := fun hnil => hkeep (replaced_eq_nil.mp hnil)
    obtain ⟨⟨pid, Uses⟩, hm⟩ := List.exists_mem_of_ne_nil _ hne
    exact stops_of_mem h hm hs
  · exact survives_of_keeps

/-! ## A service that served one request -/

def servedRuntime : Runtime Nat Nat Nat Nat := ⟨fun _ => true, fun _ => 0, fun r => (true, r), id⟩

/-- A plan of an update that only changes the options `pidKeys` of the workers. -/
def keysPlan (pidKeys : List PidKey) : Plan Nat Nat Nat where
  type := .internal
  moduleState := none
  sync := false
  optionsKeys := []
  options := ⟨none, none, none, 0⟩
  spawnOsProcess := false
  updatePending := none
  updateNow := none
  updateStart := true
  queueRequests := false
  pidKeys := pidKeys
  pidUses := ⟨none, none⟩

/-- The service received one request, and its request process, which has no limit to its uses, served it. -/
theorem exists_served : ∃ σ : System Nat Nat Nat Nat Nat, Reachable servedRuntime .normal 3 σ ∧
    σ.state.requestPid = some 0 ∧ σ.state.infoPid = none ∧ σ.workers.uses 0 = some none := by
  have hinit : Reachable servedRuntime .normal 3 _ :=
    .step (.init ⟨none, none, none, 0⟩ ⟨none, none⟩) (.event .initExecute ⟨fun _ _ _ => none⟩ rfl rfl)
  have hrequest := hinit.step (.event (.request
    (⟨.sendAsync, [], [], 0, 0, 10, ⟨0, by decide, by decide⟩, 7, 0⟩ : Request Nat Nat Nat)) ⟨fun _ _ _ => none⟩
    ⟨rfl, List.not_mem_nil⟩ rfl)
  have hwork := hrequest.step (.background (.work true 4 (show _ = [] ++ _ :: [] from rfl) rfl))
  have hresult := hwork.step (.background (.result ⟨fun _ _ _ => none⟩ (show _ = [] ++ _ :: [] from rfl) rfl))
  exact ⟨_, hresult, rfl, rfl, rfl⟩

theorem survives_update_served : ∃ σ : System Nat Nat Nat Nat Nat, σ.state.requestPid = some 0 ∧
    SurvivesUpdate servedRuntime .normal (keysPlan [.infoPidUses]) σ := by
  obtain ⟨σ, hreach, hpid, hinfo, -⟩ := exists_served
  refine ⟨σ, hpid, (survives_update_iff hreach (keysPlan [.infoPidUses])).mpr ⟨fun hkey => ?_, fun _ _ pid hi => ?_⟩⟩
  · exact absurd hkey (by decide)
  · cases hinfo.symm.trans hi

/-- The update of `request_pid_options` stops a service whose request process waits for the next request. -/
theorem served_update_stops : ¬ ∀ (p : Plan Nat Nat Nat) (σ : System Nat Nat Nat Nat Nat),
    Reachable servedRuntime .normal 3 σ → SurvivesUpdate servedRuntime .normal p σ := by
  intro hall
  obtain ⟨σ, hreach, hpid, -, huses⟩ := exists_served
  have hm : (0, none) ∈ replaced .normal (keysPlan [.requestPidOptions]) σ :=
    mem_replaced.mpr ⟨huses, .inl ⟨by decide, hpid⟩⟩
  exact stops_of_mem hreach hm (hall _ σ hreach)

end CloudI.Services.Internal
