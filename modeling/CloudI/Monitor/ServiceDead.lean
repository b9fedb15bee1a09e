import CloudI.Monitor.Stopped

/-!
# The death of a service

The monitor casts `service_dead` when a process of the service exits for good.
`service_dead_last` says when nothing of the service is left as it does so:
when the process that exits is the last one.
-/

namespace CloudI.Monitor

set_option linter.unusedSectionVars false

open Registry

variable {ServiceId Pid Start Change : Type} [LinearOrder ServiceId] [LinearOrder Pid] {rt : Runtime Change}
  {f : Nat → StartResult Pid} {k : ServiceId} {σ σ' : System ServiceId Pid Start Change}

/-- The message is about the only process of the service: the processes that
exit with it are all that is stored, and no other restart is on its way. -/
def Event.Last (k : ServiceId) (σ : System ServiceId Pid Start Change) : Event ServiceId Pid Start Change → Prop
  | down P _ => (∀ m ∈ σ.restarts, m.serviceId ≠ k) ∧
      ∀ s, registry σ.services P = some (k, s) → ∀ Q t, registry σ.services Q = some (k, t) → Q ∈ s.pids
  | restart i => (∀ m ∈ σ.restarts.eraseIdx i, m.serviceId ≠ k) ∧ ∀ Q t, registry σ.services Q ≠ some (k, t)
  | _ => True

/-! ## The messages without a cast -/

theorem pidsIncreaseLoop_dead (s : Service Pid Start) (Count j ProcessIndex : Nat) :
    (pidsIncreaseLoop f k s Count j ProcessIndex σ).dead = σ.dead := by
  induction Count generalizing j ProcessIndex σ with
  | zero => rfl
  | succ Count ih =>
    rw [pidsIncreaseLoop, ih]
    split <;> rfl

theorem changes_dead (hr : changes rt f k σ = .ok σ') : σ'.dead = σ.dead := by
  unfold changes at hr
  simp only at hr
  split at hr
  · split at hr
    · cases hr
    · split at hr
      · cases hr
        rfl
      · split at hr
        · obtain ⟨ServiceL, -, hr⟩ := bind_eq_ok hr
          simp only at hr
          split at hr
          · cases hr
          · cases hr
            exact pidsIncreaseLoop_dead _ _ _ _
        · obtain ⟨ServiceL, -, hr⟩ := bind_eq_ok hr
          obtain ⟨p, -, hr⟩ := bind_eq_ok hr
          cases hr
          rfl
  · cases hr
    rfl

theorem shutdown_dead {r : Option (List Pid) × System ServiceId Pid Start Change} (hr : shutdown k σ = .ok r) :
    r.2.dead = σ.dead := by
  unfold shutdown at hr
  split at hr
  · obtain ⟨σ₁, ht, hr⟩ := bind_eq_ok hr
    obtain ⟨Down, -, rfl⟩ := terminateService_ok ht
    cases hr
    rfl
  · cases hr
    rfl

/-! ## The cast -/

/-- What is left after `terminate_service/6`. -/
theorem stopped_terminate {D : Services ServiceId Pid Start} {M Pids : List Pid} (hb : Base D M)
    (ho : OfService k Pids (registry D)) (hserv : σ'.services = terminateServicePids k Pids D)
    (hrest : σ'.restarts = σ.restarts) :
    Stopped k σ' ↔ (∀ m ∈ σ.restarts, m.serviceId ≠ k) ∧ ∀ Q t, registry D Q = some (k, t) → Q ∈ Pids := by
  have hreg := (hb.erase ho).2
  rw [← hserv] at hreg
  constructor
  · intro h
    refine ⟨fun m hm => h.restarts m (hrest ▸ hm), fun Q t hQ => ?_⟩
    by_contra hnot
    exact h.stored Q t (by rw [hreg]; exact erase_some.mpr ⟨hnot, hQ⟩)
  · intro h
    refine ⟨fun Q t hQ => ?_, fun m hm => h.1 m (hrest ▸ hm)⟩
    rw [hreg] at hQ
    obtain ⟨hnot, hQ⟩ := erase_some.mp hQ
    exact hnot (h.2 Q t hQ)

/-- When a stage of a restart casts, it gave the process up. -/
theorem restartDone_dead {j : ServiceId} {P : Pid} {r : Nat × Outcome Pid Start}
    (hd : (restartDone f j P r σ).dead = k :: σ.dead) : j = k ∧ restartDone f j P r σ =
      { σ with reads := r.1, dead := j :: σ.dead } := by
  have hne : σ.dead ≠ k :: σ.dead := fun he => by
    have := congrArg List.length he
    simp at this
  obtain ⟨i, o⟩ := r
  cases o with
  | apply t s =>
    exfalso
    unfold restartDone at hd
    simp only at hd
    split at hd
    · exact hne hd
    · exact hne hd
  | stage3Async d s => exact absurd hd hne
  | maxRestarts =>
    refine ⟨?_, rfl⟩
    exact (List.cons.inj hd).1

/-- When the monitor casts `service_dead` for a service, no process of it is
stored and none waits for a restart if and only if the message was about its
last process. -/
theorem service_dead_last (h : Reachable rt σ) {e : Event ServiceId Pid Start Change}
    (hr : e.apply rt f σ = .ok σ') (hd : σ'.dead = k :: σ.dead) : Stopped k σ' ↔ e.Last k σ := by
  have hb := h.base
  have hne : σ.dead ≠ k :: σ.dead := fun he => by
    have := congrArg List.length he
    simp at this
  cases e with
  | monitor sid s =>
    cases hr
    unfold Monitor.monitor at hd
    split at hd
    · exact absurd hd hne
    · exact absurd hd hne
  | shutdown sid =>
    cases hs : Monitor.shutdown sid σ with
    | error e =>
      rw [Event.apply, hs] at hr
      cases hr
    | ok r =>
      rw [Event.apply, hs] at hr
      cases hr
      exact absurd ((shutdown_dead hs).symm.trans hd) hne
  | update L F ok =>
    obtain ⟨-, -, -, D, rfl⟩ := update_spec hb (mapError_eq_ok hr)
    exact absurd hd hne
  | change P Entry =>
    obtain ⟨Changes, rfl⟩ := change_spec (mapError_eq_ok hr)
    exact absurd hd hne
  | changes sid => exact absurd ((changes_dead (mapError_eq_ok hr)).symm.trans hd) hne
  | down P Reason =>
    have hr : downInfo rt f P Reason σ = .ok σ' := hr
    unfold downInfo at hr
    simp only at hr
    split at hr
    · rename_i j s hfind
      obtain ⟨j', hj, hreg⟩ := hb.find2 hfind
      cases hj
      have ho := hb.consistent.ofService hreg
      have hlast : ∀ {σ₂ : System ServiceId Pid Start Change}, j = k →
          σ₂.services = terminateServicePids j s.pids σ.services → σ₂.restarts = σ.restarts →
          (Stopped k σ₂ ↔ (Event.down P Reason : Event ServiceId Pid Start Change).Last k σ) := by
        intro σ₂ hjk hserv hrest
        subst hjk
        refine (stopped_terminate hb ho hserv hrest).trans (and_congr_right fun _ => ⟨fun hQ t ht => ?_, fun hQ => ?_⟩)
        · cases hreg.symm.trans ht
          exact hQ
        · exact hQ s hreg
      split at hr
      · obtain ⟨σ₁, ht, hr⟩ := bind_eq_ok hr
        obtain ⟨Down, -, rfl⟩ := terminateService_ok ht
        cases hr
        exact hlast (List.cons.inj hd).1 rfl rfl
      · obtain ⟨σ₁, ht, hr⟩ := bind_eq_ok hr
        obtain ⟨Down, -, rfl⟩ := terminateService_ok ht
        cases hr
        exact hlast (List.cons.inj hd).1 rfl rfl
      · cases hr
        exact absurd hd hne
      · obtain ⟨σ₁, ht, hr⟩ := bind_eq_ok hr
        obtain ⟨Down, -, rfl⟩ := terminateService_ok ht
        obtain ⟨r, -, hr⟩ := bind_eq_ok hr
        cases hr
        obtain ⟨hjk, he⟩ := restartDone_dead hd
        rw [he]
        exact hlast hjk rfl rfl
    · cases hr
    · cases hr
      exact absurd hd hne
  | restart i =>
    have hr : restartInfo rt f i σ = .ok σ' := hr
    unfold restartInfo at hr
    split at hr
    · cases hr
      exact absurd hd hne
    · obtain ⟨r, -, hr⟩ := bind_eq_ok hr
      cases hr
      obtain ⟨hjk, he⟩ := restartDone_dead hd
      rw [he]
      exact ⟨fun h => ⟨h.restarts, h.stored⟩, fun h => ⟨h.2, h.1⟩⟩

/-! ## Another process of the service -/

/-- Of the two processes of a service one is shut down: the service is dead, with the other process in the store. -/
theorem service_dead_other :
    ∃ (rt : Runtime Nat) (σ σ' : System Nat Nat Nat Nat) (e : Event Nat Nat Nat Nat), Reachable rt σ ∧ e.Enabled σ ∧
      Fresh (startOne 3) σ ∧ e.apply rt (startOne 3) σ = .ok σ' ∧ σ'.dead = 7 :: σ.dead ∧ ¬Stopped 7 σ' := by
  let rt : Runtime Nat := ⟨fun i => i, fun _ _ => 0⟩
  let s : Nat → Service Nat Nat := fun i => {
    start := 0, processIndex := i, countProcess := 2, countThread := 1, pids := [], restartDelay := none,
    maxR := 1, maxT := 5 }
  have h₁ : Reachable rt _ := .step .init (.event (.monitor 7 (s 0)) (startOne 1) trivial
    (fresh_startOne List.not_mem_nil) rfl)
  have h₂ : Reachable rt _ := .step h₁ (.event (.monitor 7 (s 1)) (startOne 2) trivial
    (fresh_startOne (by decide)) rfl)
  refine ⟨rt, _, _, .down 1 .shutdown, h₂, ⟨by decide, List.not_mem_nil⟩, fresh_startOne (by decide), rfl, rfl, ?_⟩
  exact fun h => h.stored 2 { s 1 with pids := [2] } rfl

theorem service_dead_last_alone :
    ∃ (rt : Runtime Nat) (σ σ' : System Nat Nat Nat Nat), Reachable rt σ ∧
      (Event.down 1 .shutdown).apply rt (startOne 3) σ = .ok σ' ∧ σ'.dead = 7 :: σ.dead ∧ Stopped 7 σ' := by
  let rt : Runtime Nat := ⟨fun i => i, fun _ _ => 0⟩
  let s : Service Nat Nat := {
    start := 0, processIndex := 0, countProcess := 1, countThread := 1, pids := [], restartDelay := none,
    maxR := 1, maxT := 5 }
  obtain ⟨σ, σ', h, hr, hd, hl⟩ : ∃ σ σ' : System Nat Nat Nat Nat, Reachable rt σ ∧
      (Event.down 1 .shutdown).apply rt (startOne 3) σ = .ok σ' ∧ σ'.dead = 7 :: σ.dead ∧
      (Event.down 1 .shutdown).Last 7 σ := by
    refine ⟨_, _, .step .init (.event (.monitor 7 s) (startOne 1) trivial (fresh_startOne List.not_mem_nil) rfl),
      rfl, rfl, fun m hm => absurd hm List.not_mem_nil, fun t ht Q u hQ => ?_⟩
    have hreg := (Base.start (s := { s with pids := [1] }) 7 (@base_new Nat Nat Nat _ _).1
      (fun P _ => List.not_mem_nil)).2
    rw [base_new.2] at hreg
    rcases store_some ((congrFun hreg Q).symm.trans hQ) with ⟨hQ, -, -⟩ | ⟨-, hQ⟩
    · rcases store_some ((congrFun hreg 1).symm.trans ht) with ⟨-, -, rfl⟩ | ⟨h1, -⟩
      · exact hQ
      · exact absurd List.mem_cons_self h1
    · cases hQ
  exact ⟨rt, σ, σ', h, hr, hd, (service_dead_last h hr hd).mpr hl⟩

end CloudI.Monitor
