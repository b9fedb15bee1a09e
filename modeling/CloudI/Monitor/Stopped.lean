import CloudI.Monitor.Registry

/-!
# A service that was shut down

`Stopped` says that the monitor has no process of a service, and no message to
restart one. Every later message keeps it, and starts none (`stopped_step`). A
`shutdown` makes it so when no restart of the service is on its way
(`shutdown_stopped`); one that is on its way is not found, and starts a
process later (`shutdown_restart_pending`).
-/

namespace CloudI.Monitor

set_option linter.unusedSectionVars false

variable {ServiceId Pid Start Change : Type} [LinearOrder ServiceId] [LinearOrder Pid] {rt : Runtime Change}
  {sid : ServiceId} {σ σ' : System ServiceId Pid Start Change}

/-- No process of the service is stored, and no restart of it is on its way. -/
structure Stopped (sid : ServiceId) (σ : System ServiceId Pid Start Change) : Prop where
  stored : ∀ P s, registry σ.services P ≠ some (sid, s)
  restarts : ∀ m ∈ σ.restarts, m.serviceId ≠ sid

theorem find1_none (h : Base σ.services σ.monitored) :
    σ.services.find1 sid = none ↔ ∀ P s, registry σ.services P ≠ some (sid, s) := h.holds.find1_none

theorem Stopped.only (h : Stopped sid σ) {k : Option ServiceId} (ho : Only k σ σ') (hk : k ≠ some sid) :
    Stopped sid σ' ∧ σ'.starts.count sid = σ.starts.count sid := by
  refine ⟨⟨fun P s' hP => ?_, fun m hm he => ?_⟩, ho.starts sid hk⟩
  · have hv := view_eq_some.mpr ⟨s', hP, rfl⟩
    rw [ho.view sid hk] at hv
    obtain ⟨s, hs, -⟩ := view_eq_some.mp hv
    exact h.stored P s hs
  · have hm' := mem_pending.mpr ⟨hm, he⟩
    rw [ho.pending sid hk] at hm'
    exact h.restarts m (mem_pending.mp hm').1 he

/-- The service is added. -/
def Event.Adds (sid : ServiceId) : Event ServiceId Pid Start Change → Prop
  | monitor k _ => k = sid
  | _ => False

/-- A message other than `monitor` for the service leaves it stopped, and starts no process of it. -/
theorem stopped_step (hb : Base σ.services σ.monitored) (h : Stopped sid σ) {f : Nat → StartResult Pid}
    (hf : Fresh f σ) {e : Event ServiceId Pid Start Change} (hr : e.apply rt f σ = .ok σ')
    (hm : ¬e.Adds sid) : Stopped sid σ' ∧ σ'.starts.count sid = σ.starts.count sid := by
  by_cases hk : e.about σ = some sid
  · have hnone := (find1_none hb).mpr h.stored
    cases e with
    | monitor k s =>
      cases hk
      exact absurd rfl hm
    | shutdown k =>
      cases hk
      rw [Event.apply, Monitor.shutdown, hnone] at hr
      cases hr
      exact ⟨h, rfl⟩
    | changes k =>
      cases hk
      have hr := mapError_eq_ok hr
      unfold Monitor.changes at hr
      rw [hnone] at hr
      cases hr
      exact ⟨⟨h.stored, h.restarts⟩, rfl⟩
    | down P Reason =>
      obtain ⟨⟨k, s⟩, hP, hk⟩ := Option.map_eq_some_iff.mp hk
      cases hk
      exact absurd hP (h.stored P s)
    | restart i =>
      obtain ⟨m, hi, he⟩ := Option.map_eq_some_iff.mp hk
      exact absurd he (h.restarts m (List.mem_of_getElem? hi))
    | update | change => cases hk
  · exact h.only (Event.only hb hf hr) hk

/-- The states after `σ`, when the service is not added again. -/
inductive Later (rt : Runtime Change) (sid : ServiceId) (σ : System ServiceId Pid Start Change) :
    System ServiceId Pid Start Change → Prop
  | refl : Later rt sid σ σ
  | step {σ' σ'' : System ServiceId Pid Start Change} (e : Event ServiceId Pid Start Change)
      (f : Nat → StartResult Pid) : Later rt sid σ σ' → e.Enabled σ' → Fresh f σ' → ¬e.Adds sid →
      e.apply rt f σ' = .ok σ'' → Later rt sid σ σ''

theorem stopped_later (hb : Base σ.services σ.monitored) (h : Stopped sid σ) (hl : Later rt sid σ σ') :
    Base σ'.services σ'.monitored ∧ Stopped sid σ' ∧ σ'.starts.count sid = σ.starts.count sid := by
  induction hl with
  | refl => exact ⟨hb, h, rfl⟩
  | step e f _ _ hf hm hr ih =>
    obtain ⟨hb₁, h₁, hc₁⟩ := ih
    obtain ⟨h₂, hc₂⟩ := stopped_step hb₁ h₁ hf hr hm
    exact ⟨(Event.only hb₁ hf hr).base, h₂, hc₂.trans hc₁⟩

/-- What a `shutdown` leaves. -/
theorem shutdown_spec (hb : Base σ.services σ.monitored) {r : Option (List Pid) × System ServiceId Pid Start Change}
    (hr : shutdown sid σ = .ok r) :
    (r.1 = none ↔ ∀ P s, registry σ.services P ≠ some (sid, s)) ∧
    (∀ P s, registry r.2.services P ≠ some (sid, s)) ∧ r.2.restarts = σ.restarts ∧ r.2.starts = σ.starts := by
  unfold shutdown at hr
  split at hr
  · rename_i Pids s hf
    obtain ⟨σ₁, ht, hr⟩ := bind_eq_ok hr
    cases hr
    have ho := hb.ofService_find1 hf
    obtain ⟨Down, -, rfl⟩ := terminateService_ok ht
    refine ⟨⟨fun h => ?_, fun h => ?_⟩, fun P s' hP => ?_, rfl, rfl⟩
    · cases h
    · exact absurd ((find1_none hb).mpr h) (by rw [hf]; exact Option.some_ne_none _)
    · rw [(hb.erase ho).2] at hP
      obtain ⟨hnot, hP⟩ := Registry.erase_some.mp hP
      exact hnot ((hb.holds.mem_find1 hf P).mpr ⟨s', hP⟩)
  · rename_i hf
    cases hr
    have hnone := (find1_none hb).mp hf
    exact ⟨⟨fun _ => hnone, fun _ => rfl⟩, hnone, rfl, rfl⟩

/-- When no restart of the service is on its way as its `shutdown` is handled,
it is stopped, and no later message starts a process of it. A restart that is
on its way stays so, and `not_found` is the reply when nothing else is stored. -/
theorem shutdown_stopped (h : Reachable rt σ) {r : Option (List Pid) × System ServiceId Pid Start Change}
    (hr : shutdown sid σ = .ok r) :
    (Stopped sid r.2 ↔ ∀ m ∈ σ.restarts, m.serviceId ≠ sid) ∧
    ((∀ m ∈ σ.restarts, m.serviceId ≠ sid) → ∀ σ', Later rt sid r.2 σ' →
      Stopped sid σ' ∧ σ'.starts.count sid = σ.starts.count sid) ∧
    (r.1 = none ↔ ∀ P s, registry σ.services P ≠ some (sid, s)) := by
  have hb := h.base
  obtain ⟨hreply, hstored, hrest, hst⟩ := shutdown_spec hb hr
  have hiff : Stopped sid r.2 ↔ ∀ m ∈ σ.restarts, m.serviceId ≠ sid := by
    constructor
    · intro hs
      rw [← hrest]
      exact hs.restarts
    · intro hm
      exact ⟨hstored, by rwa [hrest]⟩
  refine ⟨hiff, fun hm σ' hl => ?_, hreply⟩
  obtain ⟨-, h₁, hc⟩ := stopped_later (shutdown_only hb hr).base (hiff.mpr hm) hl
  exact ⟨h₁, hc.trans (congrArg _ hst)⟩

/-! ## A restart that is on its way -/

/-- The start function returns one process. -/
def startOne (P : Pid) : Nat → StartResult Pid
  | 0 => .ok P []
  | _ + 1 => .error

theorem fresh_startOne {P : Pid} (h : P ∉ σ.monitored) : Fresh (startOne P) σ where
  nodup j := by
    cases j with
    | zero => exact List.nodup_singleton P
    | succ j => exact List.nodup_nil
  new j Q hQ := by
    cases j with
    | zero =>
      rw [List.mem_singleton.mp hQ]
      exact h
    | succ j => cases hQ
  apart j k hjk Q hQ hQ' := by
    cases j with
    | zero =>
      cases k with
      | zero => exact hjk rfl
      | succ k => cases hQ'
    | succ j => cases hQ

/-- The first restart of a process after a delay. -/
theorem restartInfo_first {i : Nat} {m : Restart ServiceId Pid Start} (f : Nat → StartResult Pid)
    (hi : σ.restarts[i]? = some m) (h3 : m.stage3 = true) (h0 : m.service.restartCount = 0)
    (ht : m.service.restartTimes = []) :
    restartInfo rt f i σ = .ok (restartDone f m.serviceId m.oldPid (σ.reads + 1, .apply (rt.seconds σ.reads)
      { m.service with restartCount := 1, restartTimes := [rt.seconds σ.reads] })
      { σ with restarts := σ.restarts.eraseIdx i }) := by
  rw [restartInfo, hi]
  simp only [h3, if_true]
  rw [restartStage3, if_pos ⟨h0, ht⟩]
  rfl

/-- A service with a restart delay whose process crashed: the `shutdown` does
not find it, and the delayed message starts a process. -/
theorem shutdown_restart_pending :
    ∃ (rt : Runtime Nat) (σ σ₁ σ₂ : System Nat Nat Nat Nat), Reachable rt σ ∧ (∃ m ∈ σ.restarts, m.serviceId = 7) ∧
      shutdown 7 σ = .ok (none, σ₁) ∧ Later rt 7 σ₁ σ₂ ∧ σ₁.starts.count 7 = 1 ∧ σ₂.starts.count 7 = 2 := by
  let rt : Runtime Nat := ⟨fun i => i, fun _ _ => 0⟩
  let s : Service Nat Nat := {
    start := 0, processIndex := 0, countProcess := 1, countThread := 1, pids := [],
    restartDelay := some ⟨.exponential, 1, 500, 0, by decide, by decide⟩, maxR := 1, maxT := 5 }
  obtain ⟨σ, h, hm, hp, hst, hs⟩ : ∃ σ : System Nat Nat Nat Nat, Reachable rt σ ∧ σ.restarts = [⟨true, s, 7, 1⟩] ∧
      σ.monitored = [1] ∧ σ.starts = [7] ∧ shutdown 7 σ = .ok (none, σ) := by
    have h₁ : Reachable rt _ := .step .init (.event (.monitor 7 s) (startOne 1) trivial
      (fresh_startOne List.not_mem_nil) rfl)
    have h₂ : Reachable rt _ := .step h₁ (.event (.down 1 .info) (startOne 2)
      ⟨List.mem_cons_self, List.not_mem_nil⟩ (fresh_startOne (by decide)) rfl)
    exact ⟨_, h₂, rfl, rfl, rfl, rfl⟩
  have hi : σ.restarts[0]? = some ⟨true, s, 7, 1⟩ := by rw [hm]; rfl
  have hl : Later rt 7 σ _ := .step (.restart 0) (startOne 2) .refl trivial
    (fresh_startOne (by rw [hp]; decide)) id (restartInfo_first (startOne 2) hi rfl rfl rfl)
  refine ⟨rt, σ, σ, _, h, ⟨_, List.mem_of_getElem? hi, rfl⟩, hs, hl, ?_, ?_⟩
  · rw [hst]
    rfl
  · show (7 :: σ.starts).count 7 = 2
    rw [hst]
    rfl

theorem shutdown_stopped_running :
    ∃ (rt : Runtime Nat) (σ σ₁ : System Nat Nat Nat Nat), Reachable rt σ ∧ shutdown 7 σ = .ok (some [1], σ₁) ∧
      Stopped 7 σ₁ := by
  let rt : Runtime Nat := ⟨fun i => i, fun _ _ => 0⟩
  let s : Service Nat Nat := {
    start := 0, processIndex := 0, countProcess := 1, countThread := 1, pids := [], restartDelay := none,
    maxR := 1, maxT := 5 }
  obtain ⟨σ, σ₁, h, hm, hs⟩ : ∃ σ σ₁ : System Nat Nat Nat Nat, Reachable rt σ ∧ σ.restarts = [] ∧
      shutdown 7 σ = .ok (some [1], σ₁) :=
    ⟨_, _, .step .init (.event (.monitor 7 s) (startOne 1) trivial (fresh_startOne List.not_mem_nil) rfl), rfl, rfl⟩
  refine ⟨rt, σ, σ₁, h, hs, (shutdown_stopped h hs).1.mpr fun m hm' => ?_⟩
  rw [hm] at hm'
  cases hm'

end CloudI.Monitor
