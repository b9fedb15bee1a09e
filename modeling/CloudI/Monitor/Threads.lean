import CloudI.Monitor.ServiceDead

/-!
# The threads of a process

The record of each process has the processes of all threads that were started
with it. `Threads` says that these are stored, with the same processes in
their records, and that their `'DOWN'` messages are still to come; it is kept
while no process with several threads loses one of them to
`count_process_dynamic` (`Event.Single`), and then the monitor never waits for
a message that was consumed (`threads_stored`).
-/

namespace CloudI.Monitor

set_option linter.unusedSectionVars false

open Registry

variable {ServiceId Pid Start Change : Type} [LinearOrder ServiceId] [LinearOrder Pid] {rt : Runtime Change}
  {f : Nat → StartResult Pid} {k : ServiceId} {σ σ' : System ServiceId Pid Start Change}

/-- The threads of a process are stored together, and none of them is down. -/
structure Threads (m : Registry ServiceId Pid Start) (M Down : List Pid) : Prop where
  nodup : ∀ {P k s}, m P = some (k, s) → s.pids.Nodup
  alive : ∀ {P k s}, m P = some (k, s) → P ∉ Down
  all : ∀ {P k s}, m P = some (k, s) → ∀ Q ∈ s.pids, ∃ t, m Q = some (k, t) ∧ t.pids = s.pids
  down : ∀ P ∈ Down, P ∈ M

namespace Threads

variable {m m' : Registry ServiceId Pid Start} {M Down Down' : List Pid} {s : Service Pid Start}

theorem start (h : Threads m M Down) (hn : s.pids.Nodup) (hc : Consistent m M) (hf : ∀ P ∈ s.pids, P ∉ M) :
    Threads (m.store k s s.pids) (s.pids ++ M) Down where
  nodup hP := by
    rcases store_some hP with ⟨-, -, rfl⟩ | ⟨-, hm⟩
    · exact hn
    · exact h.nodup hm
  alive hP hd := by
    rcases store_some hP with ⟨hm, -, -⟩ | ⟨-, hm⟩
    · exact hf _ hm (h.down _ hd)
    · exact h.alive hm hd
  all hP Q hQ := by
    rcases store_some hP with ⟨-, rfl, rfl⟩ | ⟨-, hm⟩
    · exact ⟨_, store_of_mem hQ, rfl⟩
    · obtain ⟨t, ht, he⟩ := h.all hm Q hQ
      refine ⟨t, (store_of_not_mem fun hQs => ?_).trans ht, he⟩
      exact hf Q hQs (hc.monitored hm hQ)
  down P hP := List.mem_append_right _ (h.down P hP)

/-- Whole processes are gone. -/
theorem erase (h : Threads m M Down) {Pids : List Pid}
    (hw : ∀ {P k s}, m P = some (k, s) → P ∈ Pids → ∀ Q ∈ s.pids, Q ∈ Pids) (hc : Consistent m M)
    (hd : ∀ P ∈ Down', P ∈ Down ∨ P ∈ Pids) (hM : ∀ P ∈ Down', P ∈ M) : Threads (m.erase Pids) M Down' where
  nodup hP := h.nodup (erase_some.mp hP).2
  alive hP hPd := by
    obtain ⟨hnot, hm⟩ := erase_some.mp hP
    exact (hd _ hPd).elim (h.alive hm) hnot
  all hP Q hQ := by
    obtain ⟨hnot, hm⟩ := erase_some.mp hP
    obtain ⟨t, ht, he⟩ := h.all hm Q hQ
    refine ⟨t, erase_some.mpr ⟨fun hQp => hnot ?_, ht⟩, he⟩
    exact hw ht hQp _ (he ▸ hc.mem hm)
  down := hM

/-- The service and the processes in each record are the same. -/
def SamePids (m m' : Registry ServiceId Pid Start) : Prop :=
  ∀ P k L, (∃ s, m P = some (k, s) ∧ s.pids = L) ↔ ∃ s, m' P = some (k, s) ∧ s.pids = L

theorem same (h : Threads m M Down) (hs : SamePids m m') : Threads m' M Down where
  nodup {P k s} hP := by
    obtain ⟨t, ht, he⟩ := (hs P k s.pids).mpr ⟨s, hP, rfl⟩
    exact he ▸ h.nodup ht
  alive {P k s} hP := by
    obtain ⟨t, ht, -⟩ := (hs P k s.pids).mpr ⟨s, hP, rfl⟩
    exact h.alive ht
  all {P k s} hP Q hQ := by
    obtain ⟨t, ht, he⟩ := (hs P k s.pids).mpr ⟨s, hP, rfl⟩
    obtain ⟨u, hu, hut⟩ := h.all ht Q (he ▸ hQ)
    exact (hs Q k s.pids).mp ⟨u, hu, hut.trans he⟩
  down := h.down

theorem SamePids.of_recounted {sid : ServiceId} {C : Int} {ServiceL : List (Service Pid Start)}
    (h : Threads m M Down) (hr : Recounted sid C ServiceL m m') (hl : ∀ s ∈ ServiceL, ∃ P, m P = some (sid, s)) :
    SamePids m m' := by
  intro P k L
  rcases hr P with ⟨-, he⟩ | ⟨s, hs, hP, he⟩
  · rw [he]
  · obtain ⟨Q, hQ⟩ := hl s hs
    obtain ⟨t, ht, hts⟩ := h.all hQ P hP
    constructor
    · rintro ⟨u, hu, rfl⟩
      cases ht.symm.trans hu
      exact ⟨_, he, hts.symm⟩
    · rintro ⟨u, hu, rfl⟩
      cases he.symm.trans hu
      exact ⟨t, ht, hts⟩

theorem SamePids.of_changed (h : Changed m m') : SamePids m m' := by
  intro P k L
  constructor
  · rintro ⟨s, hs, rfl⟩
    cases hm' : m' P with
    | none => cases (h.none hm').symm.trans hs
    | some x =>
      obtain ⟨j, s'⟩ := x
      obtain ⟨t, ht, he⟩ := h.some hm'
      cases ht.symm.trans hs
      refine ⟨s', rfl, ?_⟩
      rw [he]
  · rintro ⟨s', hs', rfl⟩
    obtain ⟨s, hs, he⟩ := h.some hs'
    refine ⟨s, hs, ?_⟩
    rw [he]

end Threads

/-! ## The messages -/

/-- The threads in a state. -/
abbrev System.Threads (σ : System ServiceId Pid Start Change) : Prop :=
  Monitor.Threads (registry σ.services) σ.monitored σ.down

/-- New processes of the service are stored. -/
theorem threads_start (hb : Base σ.services σ.monitored) (h : σ.Threads) {s : Service Pid Start}
    (hn : s.pids.Nodup) (hf : ∀ P ∈ s.pids, P ∉ σ.monitored)
    (hserv : σ'.services = storePids k s s.pids σ.services) (hmon : σ'.monitored = s.pids ++ σ.monitored)
    (hd : σ'.down = σ.down) : σ'.Threads := by
  have hreg := (Base.start k hb hf).2
  rw [← hserv] at hreg
  rw [System.Threads, hreg, hmon, hd]
  exact h.start hn hb.consistent hf

theorem threads_monitor (hb : Base σ.services σ.monitored) (h : σ.Threads) (hf : FreshFrom f 0 σ.monitored)
    (s : Service Pid Start) : (monitor f k s σ).Threads := by
  have hnew := hf.new 0 le_rfl
  have hnodup := hf.nodup 0
  unfold monitor
  split
  · rename_i Pid Pids he
    rw [he] at hnew hnodup
    exact threads_start (s := { s with pids := Pid :: Pids, restartCount := 0, restartTimes := [] }) hb h hnodup hnew
      rfl rfl rfl
  · exact h

theorem threads_pidsIncreaseLoop (s : Service Pid Start) {Count j ProcessIndex : Nat}
    (hb : Base σ.services σ.monitored) (h : σ.Threads) (hf : FreshFrom f j σ.monitored) :
    (pidsIncreaseLoop f k s Count j ProcessIndex σ).Threads := by
  induction Count generalizing j ProcessIndex σ with
  | zero => exact h
  | succ Count ih =>
    have hnew := hf.new j le_rfl
    have hnodup := hf.nodup j
    have hnext := hf.next
    rw [pidsIncreaseLoop]
    cases he : f j with
    | ok Pid Pids =>
      rw [he] at hnew hnodup hnext
      refine ih ?_ ?_ hnext
      · exact (Base.start (s := { s with processIndex := ProcessIndex, pids := Pid :: Pids, restartCount := 0,
                                         restartTimes := [] }) k hb hnew).1
      · exact threads_start (s := { s with processIndex := ProcessIndex, pids := Pid :: Pids, restartCount := 0,
                                           restartTimes := [] }) hb h hnodup hnew rfl rfl rfl
    | error => exact ih hb h hf.skip

theorem threads_recount (hb : Base σ.services σ.monitored) (h : σ.Threads) (C : Int) {Pids : List Pid}
    {ServiceL ServiceL' : List (Service Pid Start)} (hs : serviceInstance k σ.services Pids [] = .ok ServiceL)
    (hl : ∀ s ∈ ServiceL', s ∈ ServiceL) :
    Base (pidsUpdate k C ServiceL' [] σ.services).2 σ.monitored ∧
      Monitor.Threads (registry (pidsUpdate k C ServiceL' [] σ.services).2) σ.monitored σ.down := by
  have ho := hb.owned_serviceInstance hs
  obtain ⟨hb', hrec⟩ := hb.pidsUpdate C (fun s hs' => ho s (hl s hs')) []
  refine ⟨hb', h.same (Threads.SamePids.of_recounted h hrec fun s hs' => ?_)⟩
  obtain ⟨P, -, hP⟩ := hb.mem_serviceInstance hs (hl s hs')
  exact ⟨P, hP⟩

theorem threads_changes (hb : Base σ.services σ.monitored) (h : σ.Threads) (hf : FreshFrom f 0 σ.monitored)
    (hr : changes rt f k σ = .ok σ') : σ'.Threads := by
  unfold changes at hr
  simp only at hr
  split at hr
  · split at hr
    · cases hr
    · split at hr
      · cases hr
        exact h
      · split at hr
        · obtain ⟨ServiceL, hs, hr⟩ := bind_eq_ok hr
          obtain ⟨hb', h'⟩ := threads_recount hb h _ hs fun s hs' => hs'
          simp only at hr
          split at hr
          · cases hr
          · rw [← Except.ok.inj hr]
            exact threads_pidsIncreaseLoop _ hb' h' hf
        · obtain ⟨ServiceL, hs, hr⟩ := bind_eq_ok hr
          obtain ⟨⟨NewServiceL, Told⟩, hd, hr⟩ := bind_eq_ok hr
          obtain ⟨rfl, -, -⟩ := pidsDecreaseLoop_suffix hd
          cases hr
          exact (threads_recount hb h _ hs fun s hs' => List.mem_reverse.mp (List.mem_of_mem_drop hs')).2
  · cases hr
    exact h

/-- Whole processes are terminated, and the messages of all of them are consumed. -/
theorem threads_terminate (hb : Base σ.services σ.monitored) (h : σ.Threads) {Pids : List Pid} {OldPid : Option Pid}
    {Down Down' : List Pid} (ho : OfService k Pids (registry σ.services))
    (hw : ∀ {P k s}, registry σ.services P = some (k, s) → P ∈ Pids → ∀ Q ∈ s.pids, Q ∈ Pids)
    (hm : ∀ P ∈ Pids, P ∈ σ.monitored) (hd : ∀ P ∈ Down, P ∈ σ.down ∨ P ∈ Pids)
    (ht : terminateServiceWait OldPid Pids Down = .ok Down') :
    Base (terminateServicePids k Pids σ.services) σ.monitored ∧
      Monitor.Threads (registry (terminateServicePids k Pids σ.services)) σ.monitored Down' := by
  obtain ⟨hb', hreg⟩ := hb.erase ho
  have hdown : ∀ P ∈ Down', P ∈ σ.down ∨ P ∈ Pids := by
    intro P hP
    rcases (terminateServiceWait_ok ht P).mp hP with hP | ⟨hP, -⟩
    · exact hd P hP
    · exact Or.inr hP
  rw [hreg]
  refine ⟨hb', h.erase hw hb.consistent hdown fun P hP => ?_⟩
  exact (hdown P hP).elim (h.down P) (hm P)

theorem threads_restartDone (hb : Base σ.services σ.monitored) (h : σ.Threads) (hf : FreshFrom f 0 σ.monitored)
    (P : Pid) (r : Nat × Outcome Pid Start) : (restartDone f k P r σ).Threads := by
  have hnew := hf.new 0 le_rfl
  have hnodup := hf.nodup 0
  obtain ⟨j, o⟩ := r
  cases o with
  | apply t s =>
    unfold restartDone
    simp only
    split
    · rename_i Pid Pids he
      rw [he] at hnew hnodup
      exact threads_start (s := { s with pids := Pid :: Pids }) hb h hnodup hnew rfl rfl rfl
    · exact h
  | stage3Async d s => exact h
  | maxRestarts => exact h

/-- No thread of a process with several threads is lost to `count_process_dynamic`. -/
def Event.Single (σ : System ServiceId Pid Start Change) : Event ServiceId Pid Start Change → Prop
  | down P .shutdownCountProcessDynamicTerminate => ∀ k s, registry σ.services P = some (k, s) → s.pids = [P]
  | _ => True

theorem threads_down (hb : Base σ.services σ.monitored) (h : σ.Threads) (hf : FreshFrom f 0 σ.monitored) {P : Pid}
    {Reason : ExitReason} (hP : P ∈ σ.monitored) (hs : (Event.down P Reason :
      Event ServiceId Pid Start Change).Single σ)
    (hr : downInfo rt f P Reason σ = .ok σ') : σ'.Threads := by
  unfold downInfo at hr
  simp only at hr
  split at hr
  · rename_i j s hfind
    obtain ⟨j', hj, hreg⟩ := hb.find2 hfind
    cases hj
    have ho := hb.consistent.ofService hreg
    have hPs := hb.consistent.mem hreg
    have hw : ∀ {Q k t}, registry σ.services Q = some (k, t) → Q ∈ s.pids → ∀ R ∈ t.pids, R ∈ s.pids := by
      intro Q k t hQ hQs R hR
      obtain ⟨u, hu, he⟩ := h.all hreg Q hQs
      cases hQ.symm.trans hu
      exact he ▸ hR
    have hm : ∀ Q ∈ s.pids, Q ∈ σ.monitored := fun Q hQ => hb.consistent.monitored hreg hQ
    have hd : ∀ Q ∈ P :: σ.down, Q ∈ σ.down ∨ Q ∈ s.pids := by
      intro Q hQ
      rcases List.mem_cons.mp hQ with rfl | hQ
      · exact Or.inr hPs
      · exact Or.inl hQ
    split at hr
    · obtain ⟨σ₁, ht, hr⟩ := bind_eq_ok hr
      obtain ⟨Down, hwait, rfl⟩ := terminateService_ok ht
      cases hr
      exact (threads_terminate hb h ho hw hm hd hwait).2
    · obtain ⟨σ₁, ht, hr⟩ := bind_eq_ok hr
      obtain ⟨Down, hwait, rfl⟩ := terminateService_ok ht
      cases hr
      exact (threads_terminate hb h ho hw hm hd hwait).2
    · cases hr
      have hone : s.pids = [P] := hs j s hreg
      rw [hone] at ho hw hm hd
      have hwait : terminateServiceWait (some P) [P] (P :: σ.down) = .ok (P :: σ.down) := by
        rw [terminateServiceWait, if_pos rfl]
        rfl
      exact (threads_terminate hb h ho hw hm hd hwait).2
    · obtain ⟨σ₁, ht, hr⟩ := bind_eq_ok hr
      obtain ⟨Down, hwait, rfl⟩ := terminateService_ok ht
      obtain ⟨r, -, hr⟩ := bind_eq_ok hr
      cases hr
      obtain ⟨hb', h'⟩ := threads_terminate hb h ho hw hm hd hwait
      exact threads_restartDone
        (σ := { σ with services := terminateServicePids j s.pids σ.services, down := Down }) hb' h' hf P r
  · cases hr
  · rename_i hfind
    cases hr
    have hnone : registry σ.services P = none := hb.holds.find2_none.mp hfind
    refine ⟨h.nodup, fun {Q j s} hQ hd => ?_, h.all, fun Q hQ => ?_⟩
    · rcases List.mem_cons.mp hd with rfl | hd
      · exact Option.some_ne_none _ (hQ.symm.trans hnone)
      · exact h.alive hQ hd
    · rcases List.mem_cons.mp hQ with rfl | hQ
      · exact hP
      · exact h.down Q hQ

theorem threads_shutdown (hb : Base σ.services σ.monitored) (h : σ.Threads)
    {r : Option (List Pid) × System ServiceId Pid Start Change} (hr : shutdown k σ = .ok r) : r.2.Threads := by
  unfold shutdown at hr
  split at hr
  · rename_i Pids s hf
    obtain ⟨σ₁, ht, hr⟩ := bind_eq_ok hr
    obtain ⟨Down, hwait, rfl⟩ := terminateService_ok ht
    cases hr
    have hmem := fun P => hb.holds.mem_find1 hf P
    refine (threads_terminate hb h (hb.ofService_find1 hf) (fun {P j t} hP hPs Q hQ => ?_) (fun P hP => ?_)
      (fun P hP => Or.inl hP) hwait).2
    · obtain ⟨t', ht'⟩ := (hmem P).mp hPs
      cases hP.symm.trans ht'
      obtain ⟨u, hu, -⟩ := h.all hP Q hQ
      exact (hmem Q).mpr ⟨u, hu⟩
    · obtain ⟨t, ht⟩ := (hmem P).mp hP
      exact hb.consistent.monitored ht (hb.consistent.mem ht)
  · cases hr
    exact h

theorem Event.threads (hb : Base σ.services σ.monitored) (h : σ.Threads) (hf : Fresh f σ)
    {e : Event ServiceId Pid Start Change} (he : e.Enabled σ) (hs : e.Single σ) (hr : e.apply rt f σ = .ok σ') :
    σ'.Threads := by
  cases e with
  | monitor sid s =>
    cases hr
    exact threads_monitor hb h hf.from s
  | shutdown sid =>
    cases hs : Monitor.shutdown sid σ with
    | error e =>
      rw [Event.apply, hs] at hr
      cases hr
    | ok r =>
      rw [Event.apply, hs] at hr
      cases hr
      exact threads_shutdown hb h hs
  | update L F ok =>
    obtain ⟨-, hch, -, D, rfl⟩ := update_spec hb (mapError_eq_ok hr)
    exact h.same (Threads.SamePids.of_changed hch)
  | change P Entry =>
    obtain ⟨Changes, rfl⟩ := change_spec (mapError_eq_ok hr)
    exact h
  | changes sid => exact threads_changes hb h hf.from (mapError_eq_ok hr)
  | down P Reason => exact threads_down hb h hf.from he.1 hs hr
  | restart i =>
    have hr : restartInfo rt f i σ = .ok σ' := hr
    unfold restartInfo at hr
    split at hr
    · cases hr
      exact h
    · obtain ⟨r, -, hr⟩ := bind_eq_ok hr
      cases hr
      exact threads_restartDone (σ := { σ with restarts := σ.restarts.eraseIdx i }) hb h hf.from _ r

/-! ## Waiting -/

theorem orHalt_ne_wait {α : Type} (x : Except Exn α) : orHalt x ≠ .error .wait := by
  cases x with
  | ok a => exact fun h => by cases h
  | error e => exact fun h => by cases h

/-- A first step that does not wait, before others that do not. -/
theorem bind_ne_wait {α β : Type} {x : Except Halt α} {g : α → Except Halt β} (hx : x ≠ .error .wait)
    (hg : ∀ a, x = .ok a → g a ≠ .error .wait) : (x >>= g) ≠ .error .wait := by
  cases hx' : x with
  | ok a => exact hg a hx'
  | error e =>
    intro h
    have he : (Except.error e : Except Halt β) = .error .wait := h
    cases he
    exact hx hx'

theorem terminateService_ne_wait {Pids : List Pid} {OldPid : Option Pid} (hn : Pids.Nodup)
    (hd : ∀ P ∈ Pids, OldPid ≠ some P → P ∉ σ.down) : terminateService k Pids OldPid σ ≠ .error .wait := by
  obtain ⟨Down, hw⟩ := terminateServiceWait_total hn hd
  rw [terminateService, hw]
  intro h
  cases h

theorem Event.ne_wait (hb : Base σ.services σ.monitored) (h : σ.Threads) (e : Event ServiceId Pid Start Change) :
    e.apply rt f σ ≠ .error .wait := by
  cases e with
  | monitor sid s => exact fun h => by cases h
  | shutdown sid =>
    have hs : Monitor.shutdown sid σ ≠ .error .wait := by
      unfold Monitor.shutdown
      split
      · rename_i Pids s hf
        refine bind_ne_wait (terminateService_ne_wait (hb.holds.present _ _ _ hf).1.nodup fun P hP _ => ?_)
          fun σ₁ _ h => by cases h
        obtain ⟨t, ht⟩ := (hb.holds.mem_find1 hf P).mp hP
        exact h.alive ht
      · exact fun h => by cases h
    intro hr
    rw [Event.apply] at hr
    cases hx : Monitor.shutdown sid σ with
    | ok r =>
      rw [hx] at hr
      cases hr
    | error e =>
      rw [hx] at hr
      cases hr
      exact hs hx
  | update | change | changes => exact orHalt_ne_wait _
  | down P Reason =>
    show downInfo rt f P Reason σ ≠ .error .wait
    unfold downInfo
    simp only
    split
    · rename_i j s hfind
      obtain ⟨j', hj, hreg⟩ := hb.find2 hfind
      cases hj
      have hterm : terminateService j s.pids (some P) { σ with down := P :: σ.down } ≠ .error .wait := by
        refine terminateService_ne_wait (h.nodup hreg) fun Q hQ hPQ hd => ?_
        rcases List.mem_cons.mp hd with rfl | hd
        · exact hPQ rfl
        · obtain ⟨t, ht, -⟩ := h.all hreg Q hQ
          exact h.alive ht hd
      split
      · exact bind_ne_wait hterm fun σ₁ _ h => by cases h
      · exact bind_ne_wait hterm fun σ₁ _ h => by cases h
      · exact fun h => by cases h
      · exact bind_ne_wait hterm fun σ₁ _ => bind_ne_wait (orHalt_ne_wait _) fun r _ h => by cases h
    · exact fun h => by cases h
    · exact fun h => by cases h
  | restart i =>
    show restartInfo rt f i σ ≠ .error .wait
    unfold restartInfo
    split
    · exact fun h => by cases h
    · exact bind_ne_wait (orHalt_ne_wait _) fun r _ h => by cases h

/-! ## Every run -/

/-- The processes in the record of a process that is stored have it among
them, are stored, and are not down. -/
def Stored (σ : System ServiceId Pid Start Change) : Prop :=
  ∀ P k s, σ.services.find2 P = some ([k], s) → P ∈ s.pids ∧
    ∀ Q ∈ s.pids, (∃ t, σ.services.find2 Q = some ([k], t)) ∧ Q ∉ σ.down

theorem stored_of_threads (hb : Base σ.services σ.monitored) (h : σ.Threads) : Stored σ := by
  intro P k s hP
  have hreg := hb.holds.find2_eq.mp hP
  refine ⟨hb.consistent.mem hreg, fun Q hQ => ?_⟩
  obtain ⟨t, ht, -⟩ := h.all hreg Q hQ
  exact ⟨⟨t, hb.holds.find2_eq.mpr ht⟩, h.alive ht⟩

/-- A thread that is lost leaves the others with a record of it. -/
theorem single_of_stored (hb : Base σ.services σ.monitored) (h : σ.Threads) (hf : Fresh f σ)
    {e : Event ServiceId Pid Start Change} (hr : e.apply rt f σ = .ok σ') (hs : Stored σ') : e.Single σ := by
  have hb' := (Event.only hb hf hr).base
  cases e with
  | down P Reason =>
    cases Reason with
    | shutdownCountProcessDynamicTerminate =>
      intro j s hreg
      have hr : downInfo rt f P .shutdownCountProcessDynamicTerminate σ = .ok σ' := hr
      unfold downInfo at hr
      simp only [hb.holds.find2_eq.mpr hreg] at hr
      cases hr
      have herase : registry (σ.services.erase j P) = (registry σ.services).erase [P] :=
        (@Base.erase _ _ _ _ _ _ _ j hb [P] fun Q hQ i t hm => by
          obtain rfl := List.mem_singleton.mp hQ
          cases hreg.symm.trans hm
          rfl).2
      have hone : ∀ Q ∈ s.pids, Q = P := by
        intro Q hQ
        by_contra hQP
        obtain ⟨t, ht, he⟩ := h.all hreg Q hQ
        have hQ' : registry (σ.services.erase j P) Q = some (j, t) := by
          rw [herase]
          exact erase_some.mpr ⟨fun hm => hQP (List.mem_singleton.mp hm), ht⟩
        obtain ⟨⟨u, hu⟩, -⟩ := (hs Q j t (hb'.holds.find2_eq.mpr hQ')).2 P (he ▸ hb.consistent.mem hreg)
        have hP' : registry (σ.services.erase j P) P = some (j, u) := hb'.holds.find2_eq.mp hu
        rw [herase] at hP'
        exact (erase_some.mp hP').1 List.mem_cons_self
      have hn := h.nodup hreg
      have hmem := hb.consistent.mem hreg
      revert hone hn hmem
      cases s.pids with
      | nil => exact fun _ _ hm => absurd hm List.not_mem_nil
      | cons Q L =>
        intro hone hn _
        obtain rfl := hone Q List.mem_cons_self
        cases L with
        | nil => rfl
        | cons R L =>
          obtain rfl := hone R (List.mem_cons_of_mem _ List.mem_cons_self)
          exact absurd List.mem_cons_self (List.nodup_cons.mp hn).1
    | shutdown | shutdownReason | info => trivial
  | monitor | shutdown | update | change | changes | restart => trivial

/-- The states of the runs that lose no thread to `count_process_dynamic`. -/
inductive Singly (rt : Runtime Change) : System ServiceId Pid Start Change → Prop
  | init : Singly rt .init
  | step {σ σ' : System ServiceId Pid Start Change} (e : Event ServiceId Pid Start Change) (f : Nat → StartResult Pid) :
      Singly rt σ → e.Enabled σ → Fresh f σ → e.Single σ → e.apply rt f σ = .ok σ' → Singly rt σ'

theorem Singly.inv (h : Singly rt σ) : Base σ.services σ.monitored ∧ σ.Threads := by
  induction h with
  | init =>
    refine ⟨base_new.1, ?_⟩
    have hreg := @base_new ServiceId Pid Start _ _
    rw [System.Threads, show (System.init : System ServiceId Pid Start Change).services = .new from rfl, hreg.2]
    exact ⟨fun h => absurd h (Option.some_ne_none _).symm, fun h => absurd h (Option.some_ne_none _).symm,
      fun h => absurd h (Option.some_ne_none _).symm, fun P hP => absurd hP List.not_mem_nil⟩
  | step e f _ he hf hs hr ih => exact ⟨(Event.only ih.1 hf hr).base, Event.threads ih.1 ih.2 hf he hs hr⟩

/-- In every state of a run that loses no thread of several to
`count_process_dynamic`, the processes in each record are those stored with it
and none of them is down, so that no message makes the monitor wait for a
`'DOWN'` message that was consumed. The next message keeps it so if and only
if it loses no thread either. -/
theorem threads_stored (h : Singly rt σ) : Stored σ ∧
    (∀ (f : Nat → StartResult Pid) (e : Event ServiceId Pid Start Change), e.apply rt f σ ≠ .error .wait) ∧
    ∀ (f : Nat → StartResult Pid) (e : Event ServiceId Pid Start Change) σ', e.Enabled σ → Fresh f σ →
      e.apply rt f σ = .ok σ' → (Stored σ' ↔ e.Single σ) := by
  obtain ⟨hb, ht⟩ := h.inv
  refine ⟨stored_of_threads hb ht, fun f e => e.ne_wait hb ht, fun f e σ' he hf hr => ⟨?_, fun hs => ?_⟩⟩
  · exact single_of_stored hb ht hf hr
  · exact stored_of_threads (Event.only hb hf hr).base (Event.threads hb ht hf he hs hr)

/-! ## A thread that is lost -/

/-- The start function returns the processes of two threads. -/
def startTwo (P Q : Pid) : Nat → StartResult Pid
  | 0 => .ok P [Q]
  | _ + 1 => .error

theorem fresh_startTwo {P Q : Pid} (hPQ : P ≠ Q) (hP : P ∉ σ.monitored) (hQ : Q ∉ σ.monitored) :
    Fresh (startTwo P Q) σ where
  nodup j := by
    cases j with
    | zero => exact List.nodup_cons.mpr ⟨fun hm => hPQ (List.mem_singleton.mp hm), List.nodup_singleton Q⟩
    | succ j => exact List.nodup_nil
  new j R hR := by
    cases j with
    | zero =>
      rcases List.mem_cons.mp hR with rfl | hR
      · exact hP
      · rw [List.mem_singleton.mp hR]
        exact hQ
    | succ j => cases hR
  apart j k hjk R hR hR' := by
    cases j with
    | zero =>
      cases k with
      | zero => exact hjk rfl
      | succ k => cases hR'
    | succ j => cases hR

/-- One of the two threads of a process exits because of
`count_process_dynamic`, and the record of the other one keeps it: when the
other one exits, the monitor waits for a message that will not come. -/
theorem thread_lost :
    ∃ (rt : Runtime Nat) (σ : System Nat Nat Nat Nat) (e : Event Nat Nat Nat Nat), Reachable rt σ ∧ ¬Stored σ ∧
      e.Enabled σ ∧ Fresh (startOne 3) σ ∧ e.apply rt (startOne 3) σ = .error .wait := by
  let rt : Runtime Nat := ⟨fun i => i, fun _ _ => 0⟩
  let s : Service Nat Nat := {
    start := 0, processIndex := 0, countProcess := 1, countThread := 2, pids := [], restartDelay := none,
    maxR := 1, maxT := 5 }
  have h₁ : Reachable rt _ := .step .init (.event (.monitor 7 s) (startTwo 1 2) trivial
    (fresh_startTwo (by decide) List.not_mem_nil List.not_mem_nil) rfl)
  have h₂ : Reachable rt _ := .step h₁ (.event (.down 1 .shutdownCountProcessDynamicTerminate) (startOne 3)
    ⟨by decide, List.not_mem_nil⟩ (fresh_startOne (by decide)) rfl)
  refine ⟨rt, _, .down 2 .shutdown, h₂, fun hs => ?_, ⟨by decide, by decide⟩, fresh_startOne (by decide), rfl⟩
  obtain ⟨⟨t, ht⟩, -⟩ := (hs 2 7 { s with pids := [1, 2] } rfl).2 1 List.mem_cons_self
  cases ht

/-- A process of one thread is stopped by `count_process_dynamic`, beside one of two threads. -/
theorem threads_stored_single : ∃ σ : System Nat Nat Nat Nat, σ.monitored = [3, 1, 2] ∧ σ.down = [3] ∧
    σ.services.find2 3 = none ∧ σ.services.find2 2 ≠ none ∧ Stored σ := by
  let s : Nat → Service Nat Nat := fun n => {
    start := 0, processIndex := 0, countProcess := 1, countThread := n, pids := [], restartDelay := none,
    maxR := 1, maxT := 5 }
  let rt : Runtime Nat := ⟨fun i => i, fun _ _ => 0⟩
  have h₁ : Singly rt _ := .step (.monitor 7 (s 2)) (startTwo 1 2) .init trivial
    (fresh_startTwo (by decide) List.not_mem_nil List.not_mem_nil) trivial rfl
  have h₂ : Singly rt _ := .step (.monitor 8 (s 1)) (startOne 3) h₁ trivial (fresh_startOne (by decide)) trivial rfl
  have h₃ : Singly rt _ := .step (.down 3 .shutdownCountProcessDynamicTerminate) (startOne 4) h₂
    ⟨by decide, List.not_mem_nil⟩ (fresh_startOne (by decide)) (fun k t ht => by cases ht; rfl) rfl
  exact ⟨_, rfl, rfl, rfl, (by rintro ⟨⟩), (threads_stored h₃).1⟩

end CloudI.Monitor
