import Mathlib.Data.List.Nodup
import Mathlib.Data.Nat.Find
import CloudI.Configurator.Services

/-!
# The configuration and the services that run

The services of the configuration are those that have a process (`Agree`). A
call keeps this if and only if it meets `Call.Whole`: all of its services are
started or stopped, or the first one is not and nothing was done
(`configuration_agrees`).
-/

namespace CloudI.Configurator

set_option linter.unusedSectionVars false

variable {ServiceId Pid Module Application : Type} [DecidableEq ServiceId] [DecidableEq Module]
  [DecidableEq Application] {out : Outside ServiceId Pid Module} {s : Service ServiceId Module Application}
  {L R S Added : List (Service ServiceId Module Application)} {σ σ' : System ServiceId Module Application}

/-- The services of the configuration are those that were started and not stopped. -/
def Agree (σ : System ServiceId Module Application) : Prop :=
  ∀ k, (∃ s ∈ σ.services, s.uuid = k) ↔ σ.processes k ≠ []

/-! ## A service is started -/

/-- The processes that the monitor replies with. -/
def Outside.pids (out : Outside ServiceId Pid Module) (k : ServiceId) (i : Nat) : List Pid :=
  match out.monitor k i with
  | .ok P => P
  | .error _ => []

/-- The monitor starts the process. -/
def Outside.Monitors (out : Outside ServiceId Pid Module) (k : ServiceId) (i : Nat) : Prop :=
  out.monitor k i = .ok (out.pids k i)

theorem Outside.monitors_of_ok {k : ServiceId} {i : Nat} {P : List Pid} (h : out.monitor k i = .ok P) :
    out.Monitors k i ∧ out.pids k i = P := by
  have hp : out.pids k i = P := by rw [Outside.pids, h]
  refine ⟨?_, hp⟩
  rw [Outside.Monitors, hp]
  exact h

/-- The module of an internal service is found. -/
def Found (out : Outside ServiceId Pid Module) (s : Service ServiceId Module Application) : Prop :=
  s.internal ≠ none → out.find s.uuid ≠ none

/-- Every process of the service is started and initialized. -/
def Starts (out : Outside ServiceId Pid Module) (s : Service ServiceId Module Application) : Prop :=
  Found out s ∧ ∀ i < s.countProcess, out.Monitors s.uuid i ∧ ∀ P ∈ out.pids s.uuid i, out.down P = false

/-- A process of a service that is not started is left: the start of a later
one failed, or one was initialized or restarted while another exited. -/
def Leaves (out : Outside ServiceId Pid Module) (s : Service ServiceId Module Application) : Prop :=
  Found out s ∧
    ((∃ i < s.countProcess, (∀ j < i, out.Monitors s.uuid j) ∧ ¬out.Monitors s.uuid i ∧
        (0 < i ∨ out.monitor s.uuid i = .error true)) ∨
      (∀ i < s.countProcess, out.Monitors s.uuid i) ∧ ∃ i < s.countProcess,
        (∀ P ∈ out.pids s.uuid i, out.down P = false) ∨ out.restarted s.uuid i = true)

theorem serviceStartWaitPid_none {M : List Pid} {e : Option Error} :
    serviceStartWaitPid out M e = none ↔ e = none ∧ ∀ P ∈ M, out.down P = false := by
  induction M generalizing e with
  | nil => simp [serviceStartWaitPid]
  | cons P M ih =>
    rw [serviceStartWaitPid, List.forall_mem_cons]
    split
    · rename_i hd
      rw [ih]
      have he : e.elim (some Error.serviceStartFailed) some ≠ none := by cases e <;> exact Option.some_ne_none _
      exact ⟨fun h => absurd h.1 he, fun h => absurd (h.2.1.symm.trans hd) (by decide)⟩
    · rename_i hd
      rw [ih]
      have hd : out.down P = false := by simpa using hd
      exact ⟨fun h => ⟨h.1, hd, h.2⟩, fun h => ⟨h.1, h.2.2⟩⟩

theorem serviceStartWaitPids_none {MonitorPids : List (List Pid)} {e : Option Error} :
    serviceStartWaitPids out MonitorPids e = none ↔ e = none ∧ ∀ M ∈ MonitorPids, ∀ P ∈ M, out.down P = false := by
  induction MonitorPids generalizing e with
  | nil => simp [serviceStartWaitPids]
  | cons M MonitorPids ih =>
    rw [serviceStartWaitPids, ih, serviceStartWaitPid_none, List.forall_mem_cons, and_assoc]

/-- The processes before an index. -/
def Outside.started (out : Outside ServiceId Pid Module) (k : ServiceId) (n : Nat) : List (Nat × List Pid) :=
  (List.range n).map fun i => (i, out.pids k i)

theorem serviceStartWait_update (Pids : List (Nat × List Pid)) (X : List Nat) :
    serviceStartWait out s Pids { σ with processes := Function.update σ.processes s.uuid X } =
      serviceStartWait out s Pids σ := by
  simp only [serviceStartWait, Function.update_idem]

/-- When the monitor starts all processes, they are waited for. -/
theorem serviceStartLoop_all (out : Outside ServiceId Pid Module) {n : Nat} (IndexProcess : Nat)
    (h : ∀ i, IndexProcess ≤ i → i < IndexProcess + n → out.Monitors s.uuid i) :
    serviceStartLoop out s n IndexProcess (out.started s.uuid IndexProcess).reverse σ =
      serviceStartWait out s (out.started s.uuid (IndexProcess + n)) σ := by
  induction n generalizing IndexProcess σ with
  | zero => rw [serviceStartLoop, List.reverse_reverse, Nat.add_zero]
  | succ n ih =>
    have hm := h IndexProcess le_rfl (by omega)
    have hcons : (IndexProcess, out.pids s.uuid IndexProcess) :: (out.started s.uuid IndexProcess).reverse =
        (out.started s.uuid (IndexProcess + 1)).reverse := by
      rw [Outside.started, Outside.started, List.range_succ, List.map_append, List.reverse_append]
      rfl
    rw [serviceStartLoop, hm]
    simp only
    rw [hcons, ih (IndexProcess + 1) fun i hi hlt => h i (by omega) (by omega), serviceStartWait_update,
      Nat.add_assoc, Nat.add_comm 1 n]

/-- The first process that the monitor does not start ends the start. -/
theorem serviceStartLoop_error (out : Outside ServiceId Pid Module) {n IndexProcess i : Nat}
    (Pids : List (Nat × List Pid)) (hle : IndexProcess ≤ i)
    (hlt : i < IndexProcess + n) (h : ∀ j, IndexProcess ≤ j → j < i → out.Monitors s.uuid j)
    (hi : ¬out.Monitors s.uuid i) :
    ∃ X, serviceStartLoop out s n IndexProcess Pids σ =
      (.error .serviceStartFailed, { σ with processes := Function.update σ.processes s.uuid X }) ∧
      (X ≠ [] ↔ σ.processes s.uuid ≠ [] ∨ IndexProcess < i ∨ out.monitor s.uuid i = .error true) := by
  induction n generalizing IndexProcess Pids σ with
  | zero => omega
  | succ n ih =>
    rw [serviceStartLoop]
    by_cases he : IndexProcess = i
    · subst he
      cases hm : out.monitor s.uuid IndexProcess with
      | ok P => exact absurd (Outside.monitors_of_ok hm).1 hi
      | error started =>
        cases started with
        | false =>
          refine ⟨σ.processes s.uuid, ?_, ?_⟩
          · rw [Function.update_eq_self]
            rfl
          · refine ⟨Or.inl, fun ho => ho.elim id fun ho => ?_⟩
            rcases ho with ho | ho
            · omega
            · cases ho
        | true => exact ⟨_, rfl, fun _ => Or.inr (Or.inr rfl), fun _ => List.cons_ne_nil _ _⟩
    · rw [h IndexProcess le_rfl (by omega)]
      obtain ⟨X, hX, hne⟩ := @ih
        { σ with processes := Function.update σ.processes s.uuid (IndexProcess :: σ.processes s.uuid) }
        (IndexProcess + 1) ((IndexProcess, out.pids s.uuid IndexProcess) :: Pids) (by omega) (by omega)
        fun j hj hji => h j (by omega) hji
      refine ⟨X, ?_, hne.trans ?_⟩
      · simp only
        rw [hX]
        simp only [Function.update_idem]
      · have hupd : Function.update σ.processes s.uuid (IndexProcess :: σ.processes s.uuid) s.uuid ≠ [] := by
          rw [Function.update_self]
          exact List.cons_ne_nil _ _
        exact ⟨fun _ => Or.inr (Or.inl (by omega)), fun _ => Or.inl hupd⟩

theorem mem_started {k : ServiceId} {n : Nat} {x : Nat × List Pid} :
    x ∈ out.started k n ↔ x.1 < n ∧ x.2 = out.pids k x.1 := by
  rw [Outside.started, List.mem_map]
  constructor
  · rintro ⟨i, hi, rfl⟩
    exact ⟨List.mem_range.mp hi, rfl⟩
  · rintro ⟨h1, h2⟩
    exact ⟨x.1, List.mem_range.mpr h1, by rw [← h2]⟩

/-- The processes of a service that is started are waited for. -/
theorem serviceStartWait_spec (out : Outside ServiceId Pid Module) {n : Nat} (hn : 0 < n) :
    ((∀ i < n, ∀ P ∈ out.pids s.uuid i, out.down P = false) →
      ∃ X, serviceStartWait out s (out.started s.uuid n) σ =
        (.ok s, { σ with processes := Function.update σ.processes s.uuid X }) ∧ X ≠ []) ∧
    (¬(∀ i < n, ∀ P ∈ out.pids s.uuid i, out.down P = false) →
      ∃ e X, serviceStartWait out s (out.started s.uuid n) σ =
        (.error e, { σ with processes := Function.update σ.processes s.uuid X }) ∧
        (X ≠ [] ↔ ∃ i < n, (∀ P ∈ out.pids s.uuid i, out.down P = false) ∨ out.restarted s.uuid i = true)) := by
  have hwait : serviceStartWaitPids out ((out.started s.uuid n).map Prod.snd) none = none ↔
      ∀ i < n, ∀ P ∈ out.pids s.uuid i, out.down P = false := by
    rw [serviceStartWaitPids_none]
    constructor
    · intro h i hi
      exact h.2 _ (List.mem_map.mpr ⟨(i, out.pids s.uuid i), mem_started.mpr ⟨hi, rfl⟩, rfl⟩)
    · refine fun h => ⟨rfl, fun M hM => ?_⟩
      obtain ⟨x, hx, rfl⟩ := List.mem_map.mp hM
      obtain ⟨h1, h2⟩ := mem_started.mp hx
      rw [h2]
      exact h x.1 h1
  have hleft : initialized out s.uuid (out.started s.uuid n) ≠ [] ↔
      ∃ i < n, (∀ P ∈ out.pids s.uuid i, out.down P = false) ∨ out.restarted s.uuid i = true := by
    rw [initialized, ne_eq, List.map_eq_nil_iff, List.filter_eq_nil_iff]
    constructor
    · intro h
      by_contra hno
      refine h fun x hx hb => hno ?_
      obtain ⟨h1, h2⟩ := mem_started.mp hx
      refine ⟨x.1, h1, ?_⟩
      rw [← h2]
      simpa using hb
    · rintro ⟨i, hi, ho⟩ h
      refine h (i, out.pids s.uuid i) (mem_started.mpr ⟨hi, rfl⟩) ?_
      simpa using ho
  unfold serviceStartWait
  constructor
  · intro h
    rw [hwait.mpr h]
    exact ⟨_, rfl, hleft.mpr ⟨0, hn, Or.inl (h 0 hn)⟩⟩
  · intro h
    cases he : serviceStartWaitPids out ((out.started s.uuid n).map Prod.snd) none with
    | none => exact absurd (hwait.mp he) h
    | some e => exact ⟨e, _, rfl, hleft⟩

/-- What the start of a service leaves. -/
theorem serviceStart_spec (out : Outside ServiceId Pid Module) (hs : σ.processes s.uuid = []) :
    (Starts out s → ∃ s' X, serviceStart out s σ =
      (.ok s', { σ with processes := Function.update σ.processes s.uuid X }) ∧ s'.uuid = s.uuid ∧ X ≠ []) ∧
    (¬Starts out s → ∃ e X, serviceStart out s σ =
      (.error e, { σ with processes := Function.update σ.processes s.uuid X }) ∧ (X ≠ [] ↔ Leaves out s)) := by
  have hloop : ∀ t : Service ServiceId Module Application, t.uuid = s.uuid → t.countProcess = s.countProcess →
      Found out s →
      (Starts out s → ∃ X, serviceStartLoop out t t.countProcess 0 [] σ =
        (.ok t, { σ with processes := Function.update σ.processes s.uuid X }) ∧ X ≠ []) ∧
      (¬Starts out s → ∃ e X, serviceStartLoop out t t.countProcess 0 [] σ =
        (.error e, { σ with processes := Function.update σ.processes s.uuid X }) ∧ (X ≠ [] ↔ Leaves out s)) := by
    intro t hu hc hfound
    have hall : (∀ i < s.countProcess, out.Monitors s.uuid i) →
        serviceStartLoop out t t.countProcess 0 [] σ = serviceStartWait out t (out.started s.uuid s.countProcess)
            σ := by
      intro hm
      have h0 := serviceStartLoop_all out (s := t) (σ := σ) (n := t.countProcess) 0
        fun i _ hi => by
          rw [hu]
          exact hm i (by omega)
      rw [Nat.zero_add, hu, hc] at h0
      rw [hc]
      exact h0
    have hwait := serviceStartWait_spec out (s := t) (σ := σ) s.countProcess_pos
    rw [hu] at hwait
    constructor
    · intro h
      rw [hall fun i hi => (h.2 i hi).1]
      exact hwait.1 fun i hi => (h.2 i hi).2
    · intro h
      by_cases hm : ∀ i < s.countProcess, out.Monitors s.uuid i
      · rw [hall hm]
        obtain ⟨e, X, hX, hne⟩ := hwait.2 fun hd => h ⟨hfound, fun i hi => ⟨hm i hi, hd i hi⟩⟩
        refine ⟨e, X, hX, hne.trans ⟨fun hl => ⟨hfound, Or.inr ⟨hm, hl⟩⟩, fun hl => ?_⟩⟩
        rcases hl.2 with ⟨i, hi, -, hno, -⟩ | ⟨-, hl⟩
        · exact absurd (hm i hi) hno
        · exact hl
      · obtain ⟨i, hi, hbefore⟩ : ∃ i, (i < s.countProcess ∧ ¬out.Monitors s.uuid i) ∧
            ∀ j < i, out.Monitors s.uuid j := by
          classical
          have hex : ∃ i, i < s.countProcess ∧ ¬out.Monitors s.uuid i := by
            by_contra hno
            exact hm fun i hi => by_contra fun hn => hno ⟨i, hi, hn⟩
          refine ⟨Nat.find hex, Nat.find_spec hex, fun j hj => ?_⟩
          by_contra hn
          exact Nat.find_min hex hj ⟨Nat.lt_trans hj (Nat.find_spec hex).1, hn⟩
        obtain ⟨X, hX, hne⟩ := serviceStartLoop_error out (s := t) (σ := σ) (n := t.countProcess) []
          (Nat.zero_le i) (by omega) (fun j _ hj => by rw [hu]; exact hbefore j hj)
          (by rw [hu]; exact hi.2)
        rw [hu, hs] at hne
        rw [hu] at hX
        refine ⟨_, X, hX, hne.trans ⟨fun ho => ?_, fun hl => ?_⟩⟩
        · exact ⟨hfound, Or.inl ⟨i, hi.1, hbefore, hi.2, ho.resolve_left fun hn => hn rfl⟩⟩
        · rcases hl.2 with ⟨j, hj, hjbefore, hjno, ho⟩ | ⟨hall', -⟩
          · obtain rfl : j = i := by
              rcases Nat.lt_trichotomy j i with hlt | he | hlt
              · exact absurd (hbefore j hlt) hjno
              · exact he
              · exact absurd (hjbefore i hlt) hi.2
            exact Or.inr ho
          · exact absurd (hall' i hi.1) hi.2
  unfold serviceStart
  cases hi : s.internal with
  | none =>
    have hfound : Found out s := fun h => absurd hi h
    obtain ⟨h1, h2⟩ := hloop s rfl rfl hfound
    refine ⟨fun h => ?_, h2⟩
    obtain ⟨X, hX, hne⟩ := h1 h
    exact ⟨s, X, hX, rfl, hne⟩
  | some x =>
    cases hf : out.find s.uuid with
    | none =>
      have hfound : ¬Found out s := fun h => h (by rw [hi]; exact Option.some_ne_none _) hf
      refine ⟨fun h => absurd h.1 hfound, fun _ => ⟨.serviceModuleNotFound, [], ?_, ?_⟩⟩
      · rw [← hs, Function.update_eq_self]
      · exact ⟨fun h => absurd rfl h, fun h => absurd h.1 hfound⟩
    | some Module =>
      have hfound : Found out s := fun _ => by rw [hf]; exact Option.some_ne_none _
      obtain ⟨h1, h2⟩ := hloop { s with internal := some { x with module := Module } } rfl rfl hfound
      refine ⟨fun h => ?_, h2⟩
      obtain ⟨X, hX, hne⟩ := h1 h
      exact ⟨_, X, hX, rfl, hne⟩

/-! ## The services of a call are started -/

theorem processes_update {X : List Nat} {k : ServiceId} (hk : k ≠ s.uuid) :
    (Function.update σ.processes s.uuid X) k = σ.processes k := Function.update_of_ne hk _ _

/-- What the start of the services of a list leaves. -/
theorem servicesAddService_spec (out : Outside ServiceId Pid Module)
    (Added : List (Service ServiceId Module Application)) (hn : (L.map Service.uuid).Nodup)
    (hs : ∀ s ∈ L, σ.processes s.uuid = []) :
    ((∀ s ∈ L, Starts out s) → ∃ L' σ', servicesAddService out L Added σ = (.ok (Added.reverse ++ L'), σ') ∧
      L'.map Service.uuid = L.map Service.uuid ∧ σ'.services = σ.services ∧
      ∀ k, σ'.processes k ≠ [] ↔ σ.processes k ≠ [] ∨ k ∈ L.map Service.uuid) ∧
    (¬(∀ s ∈ L, Starts out s) → ∃ e σ', servicesAddService out L Added σ = (.error e, σ') ∧
      σ'.services = σ.services ∧ (∀ k, k ∉ L.map Service.uuid → σ'.processes k = σ.processes k) ∧
      ((∀ k, σ'.processes k ≠ [] ↔ σ.processes k ≠ []) ↔ ∃ s R, L = s :: R ∧ ¬Starts out s ∧ ¬Leaves out s)) := by
  induction L generalizing Added σ with
  | nil =>
    refine ⟨fun _ => ⟨[], σ, ?_, rfl, rfl, fun k => ?_⟩, fun h => ?_⟩
    · rw [servicesAddService, List.append_nil]
    · exact ⟨Or.inl, fun ho => ho.resolve_right List.not_mem_nil⟩
    · exact absurd (fun s hs => absurd hs List.not_mem_nil) h
  | cons s L ih =>
    obtain ⟨hnot, hn⟩ := List.nodup_cons.mp hn
    obtain ⟨hstart, hfail⟩ := serviceStart_spec out (hs s List.mem_cons_self)
    by_cases hst : Starts out s
    · obtain ⟨s', X, hX, hu, hne⟩ := hstart hst
      have hs' : ∀ t ∈ L, Function.update σ.processes s.uuid X t.uuid = [] := by
        intro t ht
        rw [processes_update fun he => hnot (he ▸ List.mem_map_of_mem ht)]
        exact hs t (List.mem_cons_of_mem s ht)
      obtain ⟨h1, h2⟩ := ih (s' :: Added) (σ := { σ with processes := Function.update σ.processes s.uuid X })
        hn hs'
      constructor
      · intro hall
        obtain ⟨L', σ', hr, hmap, hserv, hproc⟩ := h1 fun t ht => hall t (List.mem_cons_of_mem s ht)
        refine ⟨s' :: L', σ', ?_, ?_, hserv, fun k => (hproc k).trans ?_⟩
        · rw [servicesAddService, hX]
          simp only
          rw [hr, List.reverse_cons, List.append_assoc, List.singleton_append]
        · rw [List.map_cons, List.map_cons, hmap, hu]
        · show Function.update σ.processes s.uuid X k ≠ [] ∨ k ∈ L.map Service.uuid ↔ _
          rw [List.map_cons, List.mem_cons]
          by_cases hk : k = s.uuid
          · subst hk
            exact ⟨fun _ => Or.inr (Or.inl rfl), fun _ => Or.inl (by rw [Function.update_self]; exact hne)⟩
          · rw [processes_update hk]
            exact or_congr_right ⟨Or.inr, fun ho => ho.resolve_left hk⟩
      · intro hno
        obtain ⟨e, σ', hr, hserv, hframe, -⟩ := h2 fun hall => hno fun t ht => by
          rcases List.mem_cons.mp ht with rfl | ht
          · exact hst
          · exact hall t ht
        refine ⟨e, σ', ?_, hserv, fun k hk => ?_, fun hsame => ?_, fun hr' => ?_⟩
        · rw [servicesAddService, hX]
          exact hr
        · rw [List.map_cons, List.mem_cons, not_or] at hk
          exact (hframe k hk.2).trans (processes_update hk.1)
        · have hself : σ'.processes s.uuid = X := (hframe s.uuid hnot).trans (Function.update_self _ _ _)
          rw [← hself] at hne
          exact absurd (hs s List.mem_cons_self) ((hsame s.uuid).mp hne)
        · obtain ⟨t, R, he, hnt, -⟩ := hr'
          cases he
          exact absurd hst hnt
    · obtain ⟨e, X, hX, hne⟩ := hfail hst
      refine ⟨fun hall => absurd (hall s List.mem_cons_self) hst, fun _ =>
        ⟨e, { σ with processes := Function.update σ.processes s.uuid X }, ?_, rfl, fun k hk => ?_, ?_⟩⟩
      · rw [servicesAddService, hX]
      · rw [List.map_cons, List.mem_cons, not_or] at hk
        exact processes_update hk.1
      · constructor
        · intro hsame
          refine ⟨s, L, rfl, hst, fun hl => ?_⟩
          have hself : Function.update σ.processes s.uuid X s.uuid ≠ [] := by
            rw [Function.update_self]
            exact hne.mpr hl
          exact (hsame s.uuid).mp hself (hs s List.mem_cons_self)
        · rintro ⟨t, R, he, -, hl⟩ k
          cases he
          show Function.update σ.processes s.uuid X k ≠ [] ↔ _
          by_cases hk : k = s.uuid
          · subst hk
            rw [Function.update_self, hs s List.mem_cons_self]
            exact ⟨fun h => absurd (hne.mp h) hl, fun h => absurd rfl h⟩
          · rw [processes_update hk]

/-! ## The services of a call are stopped -/

/-- The service is stopped, and its module removed when it is to be. -/
def Stops (out : Outside ServiceId Pid Module) (Remove : Bool) (s : Service ServiceId Module Application) : Prop :=
  out.shutdown s.uuid = .ok ∧
    ∀ i, s.internal = some i → Remove = true → i.automaticLoading = true → out.removed s.uuid = true

def StopsAll (out : Outside ServiceId Pid Module) : List (Service ServiceId Module Application) →
    List (Service ServiceId Module Application) → Prop
  | [], _ => True
  | s :: R, S => Stops out (servicesRemoveAllInternal (R ++ S) s) s ∧ StopsAll out R S

theorem serviceStop_spec (out : Outside ServiceId Pid Module) (Remove : Bool) :
    (Stops out Remove s → serviceStop out s Remove σ =
      (.ok (), { σ with processes := Function.update σ.processes s.uuid [] })) ∧
    (¬Stops out Remove s → ∃ e, serviceStop out s Remove σ = (.error e,
      if out.shutdown s.uuid = .error false then σ
      else { σ with processes := Function.update σ.processes s.uuid [] })) := by
  unfold serviceStop
  cases hd : out.shutdown s.uuid with
  | error stopped =>
    refine ⟨fun h => ?_, fun _ => ⟨.serviceStopFailed, ?_⟩⟩
    · cases hd.symm.trans h.1
    · cases stopped <;> rfl
  | ok =>
    cases hi : s.internal with
    | none =>
      refine ⟨fun _ => rfl, fun h => absurd ⟨hd, fun i he => ?_⟩ h⟩
      cases hi.symm.trans he
    | some i =>
      by_cases hr : Remove = true ∧ i.automaticLoading = true ∧ ¬out.removed s.uuid = true
      · refine ⟨fun h => absurd (h.2 i hi hr.1 hr.2.1) hr.2.2, fun _ => ⟨.serviceModuleNotRemoved, ?_⟩⟩
        simp only
        rw [if_pos hr]
        rfl
      · refine ⟨fun _ => ?_, fun h => absurd ⟨hd, fun j hj h1 h2 => ?_⟩ h⟩
        · simp only
          rw [if_neg hr]
        · cases hi.symm.trans hj
          by_contra h3
          exact hr ⟨h1, h2, h3⟩

/-- What the stop of the services of a list leaves. -/
theorem servicesRemoveAll_spec (out : Outside ServiceId Pid Module) (hn : (R.map Service.uuid).Nodup)
    (hs : ∀ s ∈ R, σ.processes s.uuid ≠ []) :
    (StopsAll out R S → ∃ σ', servicesRemoveAll out R S σ = (.ok S, σ') ∧ σ'.services = σ.services ∧
      ∀ k, σ'.processes k = if k ∈ R.map Service.uuid then [] else σ.processes k) ∧
    (¬StopsAll out R S → ∃ e σ', servicesRemoveAll out R S σ = (.error e, σ') ∧ σ'.services = σ.services ∧
      (∀ k, k ∉ R.map Service.uuid → σ'.processes k = σ.processes k) ∧
      ((∀ k, σ'.processes k ≠ [] ↔ σ.processes k ≠ []) ↔
        ∃ s R', R = s :: R' ∧ out.shutdown s.uuid = .error false)) := by
  induction R generalizing σ with
  | nil => exact ⟨fun _ => ⟨σ, rfl, rfl, fun k => (if_neg List.not_mem_nil).symm⟩, fun h => absurd trivial h⟩
  | cons s R ih =>
    obtain ⟨hnot, hn⟩ := List.nodup_cons.mp hn
    obtain ⟨hstop, hfail⟩ := serviceStop_spec out (s := s) (σ := σ) (servicesRemoveAllInternal (R ++ S) s)
    by_cases hst : Stops out (servicesRemoveAllInternal (R ++ S) s) s
    · have hr := hstop hst
      have hs' : ∀ t ∈ R, Function.update σ.processes s.uuid [] t.uuid ≠ [] := by
        intro t ht
        rw [processes_update fun he => hnot (he ▸ List.mem_map_of_mem ht)]
        exact hs t (List.mem_cons_of_mem s ht)
      obtain ⟨h1, h2⟩ := ih (σ := { σ with processes := Function.update σ.processes s.uuid [] }) hn hs'
      constructor
      · intro hall
        obtain ⟨σ', hr', hserv, hproc⟩ := h1 hall.2
        refine ⟨σ', ?_, hserv, fun k => (hproc k).trans ?_⟩
        · rw [servicesRemoveAll, hr]
          exact hr'
        · show (if k ∈ R.map Service.uuid then [] else Function.update σ.processes s.uuid [] k) = _
          simp only [List.map_cons, List.mem_cons]
          by_cases hk : k = s.uuid
          · subst hk
            rw [if_neg hnot, Function.update_self, if_pos (Or.inl rfl)]
          · rw [processes_update hk]
            exact if_congr ⟨Or.inr, fun ho => ho.resolve_left hk⟩ rfl rfl
      · intro hno
        obtain ⟨e, σ', hr', hserv, hframe, -⟩ := h2 fun hall => hno ⟨hst, hall⟩
        refine ⟨e, σ', ?_, hserv, fun k hk => ?_, fun hsame => ?_, fun hd => ?_⟩
        · rw [servicesRemoveAll, hr]
          exact hr'
        · rw [List.map_cons, List.mem_cons, not_or] at hk
          exact (hframe k hk.2).trans (processes_update hk.1)
        · have hself : σ'.processes s.uuid = [] := (hframe s.uuid hnot).trans (Function.update_self _ _ _)
          exact absurd hself ((hsame s.uuid).mpr (hs s List.mem_cons_self))
        · obtain ⟨t, R', he, hd⟩ := hd
          cases he
          cases hst.1.symm.trans hd
    · obtain ⟨e, hr⟩ := hfail hst
      refine ⟨fun hall => absurd hall.1 hst, fun _ => ⟨e, if out.shutdown s.uuid = .error false then σ
        else { σ with processes := Function.update σ.processes s.uuid [] }, ?_, ?_, fun k hk => ?_, ?_⟩⟩
      · rw [servicesRemoveAll, hr]
      · split <;> rfl
      · rw [List.map_cons, List.mem_cons, not_or] at hk
        split
        · rfl
        · exact processes_update hk.1
      · split
        · rename_i hd
          exact ⟨fun _ => ⟨s, R, rfl, hd⟩, fun _ k => Iff.rfl⟩
        · rename_i hd
          constructor
          · intro hsame
            have hself : Function.update σ.processes s.uuid [] s.uuid = [] := Function.update_self _ _ _
            exact absurd hself ((hsame s.uuid).mpr (hs s List.mem_cons_self))
          · rintro ⟨t, R', he, hd'⟩
            cases he
            exact absurd hd' hd

/-! ## The services of the identifiers -/

/-- The identifiers are those of the services of the configuration. -/
def Selects (Services : List (Service ServiceId Module Application)) (Value : List (Option ServiceId))
    (R : List (Service ServiceId Module Application)) : Prop :=
  R.map (fun s => some s.uuid) = Value ∧ (R.map Service.uuid).Nodup ∧ ∀ s ∈ R, s ∈ Services

/-- The services of the configuration that are kept. -/
def kept (Services R : List (Service ServiceId Module Application)) : List (Service ServiceId Module Application) :=
  Services.filter fun s => s.uuid ∉ R.map Service.uuid

theorem filter_uuid {Services : List (Service ServiceId Module Application)} (hn : (Services.map Service.uuid).Nodup)
    {k : ServiceId} : (Services.filter fun s => s.uuid = k) = [] ∨
      ∃ s ∈ Services, s.uuid = k ∧ (Services.filter fun s => s.uuid = k) = [s] := by
  induction Services with
  | nil => exact Or.inl rfl
  | cons t Services ih =>
    obtain ⟨hnot, hn⟩ := List.nodup_cons.mp hn
    by_cases ht : t.uuid = k
    · refine Or.inr ⟨t, List.mem_cons_self, ht, ?_⟩
      have hnone : (Services.filter fun s => s.uuid = k) = [] := by
        refine List.filter_eq_nil_iff.mpr fun s hs he => hnot ?_
        rw [ht, ← of_decide_eq_true he]
        exact List.mem_map_of_mem hs
      rw [List.filter_cons, if_pos (decide_eq_true ht), hnone]
    · rw [List.filter_cons, if_neg (by simpa using ht)]
      refine (ih hn).imp id fun hx => ?_
      obtain ⟨s, hs, he, hf⟩ := hx
      exact ⟨s, List.mem_cons_of_mem t hs, he, hf⟩

/-- The services of the identifiers are stopped when there is one for each. -/
theorem servicesRemoveUuid_spec (out : Outside ServiceId Pid Module) {C : List (Service ServiceId Module Application)}
    (hC : (C.map Service.uuid).Nodup) (IDs : List (Option ServiceId))
    (hn : (R.map Service.uuid).Nodup) (hR : ∀ s ∈ R, s ∈ C) :
    (∃ R', Selects C (R.reverse.map (fun s => some s.uuid) ++ IDs) R' ∧
      servicesRemoveUuid out IDs R (kept C R) σ = .ok (servicesRemoveAll out R' (kept C R') σ)) ∨
    ((∀ R', ¬Selects C (R.reverse.map (fun s => some s.uuid) ++ IDs) R') ∧
      ∃ e, servicesRemoveUuid out IDs R (kept C R) σ = .ok (.error e, σ)) := by
  induction IDs generalizing R with
  | nil =>
    refine Or.inl ⟨R.reverse, ⟨(List.append_nil _).symm, ?_, fun s hs => hR s (List.mem_reverse.mp hs)⟩, ?_⟩
    · rw [List.map_reverse]
      exact List.nodup_reverse.mpr hn
    · have hkept : kept C R.reverse = kept C R := by
        refine List.filter_congr fun s _ => ?_
        rw [List.map_reverse]
        simp only [List.mem_reverse]
      rw [servicesRemoveUuid, hkept]
  | cons ID IDs ih =>
    cases ID with
    | none =>
      refine Or.inr ⟨fun R' h => ?_, _, rfl⟩
      have hm : (none : Option ServiceId) ∈ R'.map fun s => some s.uuid := by
        rw [h.1]
        exact List.mem_append_right _ List.mem_cons_self
      obtain ⟨s, -, hs⟩ := List.mem_map.mp hm
      cases hs
    | some k =>
      have hpart : (kept C R).partition (fun s => s.uuid = k) =
          ((kept C R).filter (fun s => s.uuid = k), (kept C R).filter fun s => ¬s.uuid = k) := by
        rw [List.partition_eq_filter_filter]
        refine Prod.ext rfl (List.filter_congr fun s _ => ?_)
        simp only [Function.comp_apply, decide_not]
      rw [servicesRemoveUuid, hpart]
      have hnk : ((kept C R).map Service.uuid).Nodup := hC.sublist (List.filter_sublist.map _)
      rcases filter_uuid hnk (k := k) with hf | ⟨s, hs, hsk, hf⟩
      · rw [hf]
        refine Or.inr ⟨fun R' h => ?_, _, rfl⟩
        have hm : some k ∈ R'.map fun s => some s.uuid := by
          rw [h.1]
          exact List.mem_append_right _ List.mem_cons_self
        obtain ⟨s, hs, he⟩ := List.mem_map.mp hm
        obtain rfl : s.uuid = k := Option.some.inj he
        have hnot : s.uuid ∉ R.map Service.uuid := by
          intro hmem
          have hnd : (R'.map fun s => some s.uuid).Nodup := by
            have := h.2.1.map (f := Option.some) fun _ _ he => Option.some.inj he
            rwa [List.map_map] at this
          rw [h.1, List.map_reverse] at hnd
          have hd := (List.nodup_append.mp hnd).2.2
          obtain ⟨t, ht, he'⟩ := List.mem_map.mp hmem
          refine hd (some s.uuid) ?_ (some s.uuid) List.mem_cons_self rfl
          rw [List.mem_reverse, ← he']
          exact List.mem_map.mpr ⟨t, ht, rfl⟩
        have hin : s ∈ (kept C R).filter fun t => t.uuid = s.uuid :=
          List.mem_filter.mpr ⟨List.mem_filter.mpr ⟨h.2.2 s hs, decide_eq_true hnot⟩, decide_eq_true rfl⟩
        rw [hf] at hin
        cases hin
      · rw [hf]
        subst hsk
        obtain ⟨hsC, hsR⟩ := List.mem_filter.mp hs
        have hsR := of_decide_eq_true hsR
        have hrest : ((kept C R).filter fun t => ¬t.uuid = s.uuid) = kept C (s :: R) := by
          rw [kept, kept, List.filter_filter]
          refine List.filter_congr fun t _ => ?_
          rw [List.map_cons]
          simp only [List.mem_cons, not_or, Bool.decide_and]
        have hfront : (s :: R).reverse.map (fun s => some s.uuid) ++ IDs =
            R.reverse.map (fun s => some s.uuid) ++ some s.uuid :: IDs := by
          rw [List.reverse_cons, List.map_append, List.append_assoc]
          rfl
        have h := ih (R := s :: R) (List.nodup_cons.mpr ⟨hsR, hn⟩) fun t ht => by
          rcases List.mem_cons.mp ht with rfl | ht
          · exact hsC
          · exact hR t ht
        rw [hfront] at h
        simp only
        rw [hrest]
        exact h

/-! ## Every call -/

/-- All services of the call are started or stopped, or the first one is not,
which leaves no process, or no process less. -/
def Call.Whole (out : Outside ServiceId Pid Module) (σ : System ServiceId Module Application) :
    Call ServiceId Module Application → Prop
  | servicesAdd (.ok L) => (∀ s ∈ L, Starts out s) ∨ ∃ s R, L = s :: R ∧ ¬Starts out s ∧ ¬Leaves out s
  | servicesAdd _ => True
  | servicesRemove Value => ∀ R, Selects σ.services Value R →
      StopsAll out R (kept σ.services R) ∨ ∃ s R', R = s :: R' ∧ out.shutdown s.uuid = .error false

/-- The services of the configuration are different ones. -/
def Distinct (σ : System ServiceId Module Application) : Prop := (σ.services.map Service.uuid).Nodup

theorem agree_congr (h : Agree σ) (hs : σ'.services = σ.services) :
    Agree σ' ↔ ∀ k, σ'.processes k ≠ [] ↔ σ.processes k ≠ [] := by
  rw [Agree, hs]
  refine forall_congr' fun k => ?_
  rw [h k]
  exact iff_comm

theorem selects_unique {C R' : List (Service ServiceId Module Application)} (hC : (C.map Service.uuid).Nodup)
    {Value : List (Option ServiceId)} (hR : Selects C Value R) (hR' : Selects C Value R') : R = R' := by
  obtain ⟨h1, -, h2⟩ := hR
  obtain ⟨h1', -, h2'⟩ := hR'
  induction R generalizing R' Value with
  | nil =>
    rw [← h1] at h1'
    exact (List.map_eq_nil_iff.mp h1').symm
  | cons s R ih =>
    cases R' with
    | nil =>
      rw [← h1'] at h1
      cases h1
    | cons s' R' =>
      rw [← h1'] at h1
      obtain ⟨hs, htail⟩ := List.cons.inj h1
      have he : s = s' := List.inj_on_of_nodup_map hC (h2 s List.mem_cons_self) (h2' s' List.mem_cons_self)
        (Option.some.inj hs)
      rw [he, ih htail (fun t ht => h2 t (List.mem_cons_of_mem s ht)) rfl
        fun t ht => h2' t (List.mem_cons_of_mem s' ht)]

theorem servicesAdd_agree (h : Agree σ) (hd : Distinct σ) (hf : (Call.servicesAdd (.ok L)).Fresh σ) :
    Distinct (servicesAdd out (.ok L) σ).2 ∧
      (Agree (servicesAdd out (.ok L) σ).2 ↔ (Call.servicesAdd (.ok L)).Whole out σ) := by
  obtain ⟨hn, hnew⟩ := hf
  obtain ⟨h1, h2⟩ := servicesAddService_spec out [] hn fun s hs => (hnew s hs).1
  unfold servicesAdd
  by_cases hall : ∀ s ∈ L, Starts out s
  · obtain ⟨L', σ', hr, hmap, hserv, hproc⟩ := h1 hall
    have hr : servicesAddService out L [] σ = (.ok L', σ') := hr
    simp only [hr]
    refine ⟨?_, fun _ => Or.inl hall, fun _ k => ?_⟩
    · show ((σ.services ++ L').map Service.uuid).Nodup
      rw [List.map_append, hmap]
      refine List.nodup_append.mpr ⟨hd, hn, fun a ha b hb he => ?_⟩
      obtain ⟨t, ht, rfl⟩ := List.mem_map.mp ha
      obtain ⟨s, hs, rfl⟩ := List.mem_map.mp hb
      exact (hnew s hs).2 t ht he
    · show (∃ s ∈ σ.services ++ L', s.uuid = k) ↔ σ'.processes k ≠ []
      rw [hproc, ← h k, ← hmap, List.mem_map]
      constructor
      · rintro ⟨s, hs, hk⟩
        exact (List.mem_append.mp hs).imp (fun hs => ⟨s, hs, hk⟩) fun hs => ⟨s, hs, hk⟩
      · rintro (⟨s, hs, hk⟩ | ⟨s, hs, hk⟩)
        · exact ⟨s, List.mem_append_left _ hs, hk⟩
        · exact ⟨s, List.mem_append_right _ hs, hk⟩
  · obtain ⟨e, σ', hr, hserv, -, hiff⟩ := h2 hall
    simp only [hr]
    refine ⟨?_, ?_⟩
    · rw [Distinct, hserv]
      exact hd
    · rw [agree_congr h hserv, hiff]
      exact ⟨Or.inr, fun ho => ho.resolve_left hall⟩

theorem servicesRemove_agree (out : Outside ServiceId Pid Module) (h : Agree σ) (hd : Distinct σ)
    (Value : List (Option ServiceId)) :
    ∃ r, servicesRemove out Value σ = .ok r ∧ Distinct r.2 ∧
      (Agree r.2 ↔ (Call.servicesRemove Value).Whole out σ) := by
  cases Value with
  | nil =>
    refine ⟨_, rfl, hd, ⟨fun _ R hR => Or.inl ?_, fun _ => h⟩⟩
    rw [List.map_eq_nil_iff.mp hR.1]
    trivial
  | cons ID IDs =>
    cases ID with
    | none =>
      refine ⟨_, rfl, hd, ⟨fun _ R hR => ?_, fun _ => h⟩⟩
      have hm : (none : Option ServiceId) ∈ R.map fun s => some s.uuid := by
        rw [hR.1]
        exact List.mem_cons_self
      obtain ⟨s, -, hs⟩ := List.mem_map.mp hm
      cases hs
    | some k =>
      have hall : kept σ.services [] = σ.services := List.filter_eq_self.mpr fun s _ => rfl
      have hspec := servicesRemoveUuid_spec out (σ := σ) (R := []) hd (some k :: IDs) List.nodup_nil
        fun s hs => absurd hs List.not_mem_nil
      rw [hall, List.reverse_nil, List.map_nil, List.nil_append] at hspec
      rcases hspec with ⟨R, hR, hr⟩ | ⟨hno, e, hr⟩
      · have hwhole : (Call.servicesRemove (some k :: IDs)).Whole out σ ↔
            StopsAll out R (kept σ.services R) ∨ ∃ s R', R = s :: R' ∧ out.shutdown s.uuid = .error false := by
          refine ⟨fun hw => hw R hR, fun ho R' hR' => ?_⟩
          rw [selects_unique hd hR' hR]
          exact ho
        have hs : ∀ s ∈ R, σ.processes s.uuid ≠ [] := fun s hs => (h s.uuid).mp ⟨s, hR.2.2 s hs, rfl⟩
        obtain ⟨h1, h2⟩ := servicesRemoveAll_spec out (S := kept σ.services R) hR.2.1 hs
        rw [hwhole]
        by_cases hst : StopsAll out R (kept σ.services R)
        · obtain ⟨σ', hr', hserv, hproc⟩ := h1 hst
          rw [hr'] at hr
          refine ⟨(.ok (), { σ' with services := kept σ.services R }), ?_, ?_, fun _ => Or.inl hst, fun _ j => ?_⟩
          · rw [servicesRemove, hr]
            rfl
          · exact hd.sublist (List.filter_sublist.map _)
          · show (∃ s ∈ kept σ.services R, s.uuid = j) ↔ σ'.processes j ≠ []
            rw [hproc]
            split
            · rename_i hj
              refine ⟨fun hx => ?_, fun hx => absurd rfl hx⟩
              obtain ⟨s, hs, rfl⟩ := hx
              exact absurd hj (of_decide_eq_true (List.mem_filter.mp hs).2)
            · rename_i hj
              rw [← h j]
              constructor
              · rintro ⟨s, hs, hk⟩
                exact ⟨s, (List.mem_filter.mp hs).1, hk⟩
              · rintro ⟨s, hs, rfl⟩
                exact ⟨s, List.mem_filter.mpr ⟨hs, decide_eq_true hj⟩, rfl⟩
        · obtain ⟨e, σ', hr', hserv, -, hiff⟩ := h2 hst
          rw [hr'] at hr
          refine ⟨(.error e, σ'), ?_, ?_, ?_⟩
          · rw [servicesRemove, hr]
            rfl
          · show (σ'.services.map Service.uuid).Nodup
            rw [hserv]
            exact hd
          · rw [agree_congr h hserv, hiff]
            exact ⟨Or.inr, fun ho => ho.resolve_left hst⟩
      · refine ⟨(.error e, σ), ?_, hd, ⟨fun _ R hR => absurd hR (hno R), fun _ => h⟩⟩
        rw [servicesRemove, hr]
        rfl

/-- A call of the configurator is answered, and keeps the agreement if and only if it is whole. -/
theorem call_agree (out : Outside ServiceId Pid Module) (h : Agree σ) (hd : Distinct σ)
    {c : Call ServiceId Module Application} (hf : c.Fresh σ) :
    ∃ σ', c.apply out σ = .ok σ' ∧ Distinct σ' ∧ (Agree σ' ↔ c.Whole out σ) := by
  cases c with
  | servicesAdd v =>
    refine ⟨_, rfl, ?_⟩
    cases v with
    | invalid | validate | acl => exact ⟨hd, fun _ => trivial, fun _ => h⟩
    | ok L => exact servicesAdd_agree h hd hf
  | servicesRemove Value =>
    obtain ⟨r, hr, hd', hiff⟩ := servicesRemove_agree out h hd Value
    refine ⟨r.2, ?_, hd', hiff⟩
    rw [Call.apply, hr]
    rfl

/-- The states of the runs of calls that are whole, from a configuration that
agrees with the services that run. -/
inductive Wholly (Pid : Type) : System ServiceId Module Application → Prop
  | init {σ : System ServiceId Module Application} : Agree σ → Distinct σ → Wholly Pid σ
  | step {σ σ' : System ServiceId Module Application} (out : Outside ServiceId Pid Module)
      (c : Call ServiceId Module Application) :
      Wholly Pid σ → c.Fresh σ → c.Whole out σ → c.apply out σ = .ok σ' → Wholly Pid σ'

theorem Wholly.inv (h : Wholly Pid σ) : Agree σ ∧ Distinct σ := by
  induction h with
  | init ha hd => exact ⟨ha, hd⟩
  | step out c _ hf hw hr ih =>
    obtain ⟨σ₁, hr', hd, hiff⟩ := call_agree out ih.1 ih.2 hf
    cases hr.symm.trans hr'
    exact ⟨hiff.mpr hw, hd⟩

/-- After calls that are whole, the services of the configuration are those
that run. The next call is answered, and keeps it so if and only if it is
whole too. -/
theorem configuration_agrees (h : Wholly Pid σ) : Agree σ ∧
    ∀ (out : Outside ServiceId Pid Module) (c : Call ServiceId Module Application), c.Fresh σ →
      ∃ σ', c.apply out σ = .ok σ' ∧ (Agree σ' ↔ c.Whole out σ) := by
  obtain ⟨ha, hd⟩ := h.inv
  refine ⟨ha, fun out c hf => ?_⟩
  obtain ⟨σ', hr, -, hiff⟩ := call_agree out ha hd hf
  exact ⟨σ', hr, hiff⟩

/-! ## A start that fails -/

/-- A configurator without services. -/
def System.init : System ServiceId Module Application := ⟨[], fun _ => []⟩

theorem wholly_init : Wholly Pid (System.init : System ServiceId Module Application) :=
  .init (fun _ => ⟨fun hx => absurd hx.choose_spec.1 List.not_mem_nil, fun hx => absurd rfl hx⟩) List.nodup_nil

/-- The first of two services is started, and the second one is not: the first
one runs, and is not in the configuration. -/
theorem service_not_configured :
    ∃ (out : Outside Nat Nat Nat) (c : Call Nat Nat Nat) (σ' : System Nat Nat Nat),
      c.Fresh (System.init : System Nat Nat Nat) ∧ c.apply out System.init = .ok σ' ∧ σ'.processes 1 = [0] ∧
        σ'.services = [] ∧ ¬Agree σ' := by
  let out : Outside Nat Nat Nat := {
    find := fun _ => none, monitor := fun k _ => if k = 1 then .ok [1] else .error false, down := fun _ => false,
    restarted := fun _ _ => false, shutdown := fun _ => .ok, removed := fun _ => true }
  refine ⟨out, .servicesAdd (.ok [⟨1, 1, none, by decide⟩, ⟨2, 1, none, by decide⟩]), _, ⟨by decide, fun s _ =>
    ⟨rfl, fun t ht => absurd ht List.not_mem_nil⟩⟩, rfl, rfl, rfl, fun ha => ?_⟩
  obtain ⟨s, hs, -⟩ := (ha 1).mpr (List.cons_ne_nil 0 [])
  cases hs

/-- Two services, the second one with two processes. -/
def twoServices : List (Service Nat Nat Nat) := [⟨1, 1, none, by decide⟩, ⟨2, 2, none, by decide⟩]

/-- All that a call needs of the outside succeeds. -/
def succeeding : Outside Nat Nat Nat := {
  find := some, monitor := fun k i => .ok [10 * k + i], down := fun _ => false, restarted := fun _ _ => false,
  shutdown := fun _ => .ok, removed := fun _ => true }

/-- Both services are started, and the first one is stopped again. -/
theorem configuration_agrees_added : ∃ σ₁ σ₂ : System Nat Nat Nat,
    Call.apply succeeding (.servicesAdd (.ok twoServices)) System.init = .ok σ₁ ∧
      Call.apply succeeding (.servicesRemove [some 1]) σ₁ = .ok σ₂ ∧ σ₁.services.map Service.uuid = [1, 2] ∧
      σ₁.processes 2 = [0, 1] ∧ σ₂.services.map Service.uuid = [2] ∧ σ₂.processes 1 = [] ∧ Agree σ₂ := by
  have hstarts (s : Service Nat Nat Nat) (hs : s.internal = none) : Starts succeeding s :=
    ⟨fun h => absurd hs h, fun _ _ => ⟨rfl, fun _ _ => rfl⟩⟩
  have hadd : Call.Whole succeeding System.init (.servicesAdd (.ok twoServices)) := by
    refine .inl fun s hs => hstarts s ?_
    rcases List.mem_pair.mp hs with rfl | rfl <;> rfl
  refine ⟨_, _, rfl, rfl, rfl, rfl, rfl, rfl, (configuration_agrees (.step succeeding (.servicesRemove [some 1])
    (.step succeeding (.servicesAdd (.ok twoServices)) wholly_init ?_ hadd rfl) trivial ?_ rfl)).1⟩
  · exact ⟨by decide, fun s _ => ⟨rfl, fun t ht => absurd ht List.not_mem_nil⟩⟩
  · refine fun R hR => .inl ?_
    obtain ⟨hmap, -, hmem⟩ := hR
    obtain ⟨s, rfl⟩ := List.length_eq_one_iff.mp (by simpa using congrArg List.length hmap)
    have hs : s.internal = none := by
      rcases List.mem_pair.mp (hmem s List.mem_cons_self) with rfl | rfl <;> rfl
    exact ⟨⟨rfl, fun i hi => by cases hs.symm.trans hi⟩, trivial⟩

end CloudI.Configurator
