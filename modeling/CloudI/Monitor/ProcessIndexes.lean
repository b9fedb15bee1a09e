import Mathlib.Data.List.Perm.Basic
import CloudI.Monitor.RestartIntensity
import CloudI.Monitor.Threads
import CloudI.Monitor.ServiceInstance

/-!
# The indexes of the processes of a service

`System.Numbered` says of a service that its processes, those that wait for a
restart with them, are numbered from zero, but for those told to terminate, and
`System.NumberedIn` that they are if the threads of those that have already
terminated are counted. It is kept by the messages that meet `Event.Steady`
(`Event.numbered`): `count_process_dynamic` changes the count only when no
process waits for a restart and those told to terminate are gone, or more are
told to; and no process is lost in another way. `process_indexes` is what it
says of the runs of a service.
-/

namespace CloudI.Monitor

set_option linter.unusedSectionVars false

open Registry

variable {ServiceId Pid Start Change : Type} [LinearOrder ServiceId] [LinearOrder Pid] {rt : Runtime Change}
  {f : Nat → StartResult Pid} {sid : ServiceId} {σ σ' : System ServiceId Pid Start Change} {ct N : Nat} {C : Int}

/-- The processes of the service are numbered. -/
structure System.Numbered (sid : ServiceId) (ct N : Nat) (C : Int) (σ : System ServiceId Pid Start Change) : Prop where
  base : Base σ.services σ.monitored
  known : ∀ P ∈ σ.told, P ∈ σ.monitored
  indexed : Indexed (view sid (registry σ.services)) σ.told ((σ.pending sid).map fun m => m.service.slot) ct N C
  count : ∀ c, threadCount sid σ.services = some c → c = ct

theorem System.Numbered.other (h : σ.Numbered sid ct N C) {k : Option ServiceId} (ho : Only k σ σ')
    (hk : k ≠ some sid) : σ'.Numbered sid ct N C where
  base := ho.base
  known := ho.known h.known
  indexed := by
    rw [ho.view sid hk, ho.pending sid hk]
    exact h.indexed.congr_told (ho.told sid hk)
  count c hc := h.count c ((ho.threadCount sid hk).symm.trans hc)

/-- The records `v` are those that are stored, with those of the threads of processes told to terminate that have
already done so; `T` are the processes told to terminate. -/
structure System.Around (v : Pid → Option (Shape Pid)) (T : List Pid) (sid : ServiceId) (ct : Nat)
    (σ : System ServiceId Pid Start Change) : Prop where
  base : Base σ.services σ.monitored
  known : ∀ P, P ∈ T ∨ P ∈ σ.told → P ∈ σ.monitored
  count : ∀ c, threadCount sid σ.services = some c → c = ct
  sub : ∀ {P s}, view sid (registry σ.services) P = some s → v P = some s
  told : ∀ {P s}, view sid (registry σ.services) P = some s → (P ∈ σ.told ↔ P ∈ T)
  left : ∀ {P s}, v P = some s → view sid (registry σ.services) P = none → P ∈ T

/-- The processes of the service are numbered, those that terminate with all their threads. -/
structure System.NumberedIn (v : Pid → Option (Shape Pid)) (T : List Pid) (sid : ServiceId) (ct N : Nat) (C : Int)
    (σ : System ServiceId Pid Start Change) : Prop extends System.Around v T sid ct σ where
  indexed : Indexed v T ((σ.pending sid).map fun m => m.service.slot) ct N C

theorem System.Numbered.in_ (h : σ.Numbered sid ct N C) :
    σ.NumberedIn (view sid (registry σ.services)) σ.told sid ct N C :=
  ⟨⟨h.base, fun P hP => h.known P (hP.elim id id), h.count, id, fun _ => Iff.rfl,
    fun hP hn => absurd (hn.symm.trans hP) (Option.some_ne_none _).symm⟩, h.indexed⟩

variable {v : Pid → Option (Shape Pid)} {T : List Pid} {P : Pid}

/-- A process that was not told to terminate is stored. -/
theorem System.Around.stored (h : σ.Around v T sid ct) {s : Shape Pid} (hP : v P = some s)
    (hn : P ∉ T) : view sid (registry σ.services) P = some s := by
  cases hv : view sid (registry σ.services) P with
  | none => exact absurd (h.left hP hv) hn
  | some t => exact (h.sub hv).symm.trans hP

/-- No process is stored with a part of its threads. -/
def Whole (sid : ServiceId) (σ : System ServiceId Pid Start Change) : Prop :=
  ∀ P s, registry σ.services P = some (sid, s) → ∀ Q ∈ s.pids, ∃ t, registry σ.services Q = some (sid, t)

theorem System.NumberedIn.whole (h : σ.NumberedIn v T sid ct N C) (hw : Whole sid σ) : σ.Numbered sid ct N C where
  base := h.base
  known P hP := h.known P (.inr hP)
  indexed := by
    have hi : Indexed (view sid (registry σ.services)) T ((σ.pending sid).map fun m => m.service.slot) ct N C := by
      refine h.indexed.gone_told ⟨h.sub, fun {P s} hP Q hQ hv => ?_⟩ fun hP hn => h.stored hP hn
      obtain ⟨u, hu, rfl⟩ := view_eq_some.mp hP
      obtain ⟨t, ht⟩ := hw P u hu Q hQ
      have hQ : view sid (registry σ.services) Q = some t.shape := view_eq_some.mpr ⟨t, ht, rfl⟩
      exact hQ.trans ((h.sub hQ).symm.trans hv)
    refine hi.congr_told fun P hP => ?_
    obtain ⟨s, hs⟩ := Option.ne_none_iff_exists'.mp hP
    exact h.told hs
  count := h.count

/-- Processes that were not told to terminate have all their threads. -/
theorem System.NumberedIn.whole_of_stay (h : σ.NumberedIn v T sid ct N C)
    (hstay : ∀ P s, registry σ.services P = some (sid, s) → P ∉ σ.told) : Whole sid σ := by
  intro P s hP Q hQ
  have hv : view sid (registry σ.services) P = some s.shape := view_eq_some.mpr ⟨s, hP, rfl⟩
  have hPT : P ∉ T := fun hPT => hstay P s hP ((h.told hv).mpr hPT)
  have hvQ : v Q = some s.shape := h.indexed.whole (h.sub hv) Q hQ
  have hQT : Q ∉ T := fun hQT => hPT (h.indexed.together hvQ P (h.indexed.mem (h.sub hv)) hQT)
  obtain ⟨t, ht, -⟩ := view_eq_some.mp (h.stored hvQ hQT)
  exact ⟨t, ht⟩

theorem System.NumberedIn.other (h : σ.NumberedIn v T sid ct N C) {k : Option ServiceId} (ho : Only k σ σ')
    (hk : k ≠ some sid) : σ'.NumberedIn v T sid ct N C where
  base := ho.base
  known P hP := hP.elim (fun hP => ho.monitored P (h.known P (.inl hP)))
    fun hP => ho.known (fun Q hQ => h.known Q (.inr hQ)) P hP
  indexed := by
    rw [ho.pending sid hk]
    exact h.indexed
  count c hc := h.count c ((ho.threadCount sid hk).symm.trans hc)
  sub hP := by
    rw [ho.view sid hk] at hP
    exact h.sub hP
  told {P s} hP := by
    rw [ho.view sid hk] at hP
    refine (ho.told sid hk P ?_).trans (h.told hP)
    rw [hP]
    exact Option.some_ne_none s
  left hP hn := by
    rw [ho.view sid hk] at hn
    exact h.left hP hn

/-! ## The records -/

theorem view_store_self (sid : ServiceId) {m : Registry ServiceId Pid Start} (s : Service Pid Start) (Pids : List Pid) :
    view sid (m.store sid s Pids) = fun Q => if Q ∈ Pids then some s.shape else view sid m Q := by
  funext Q
  rw [view, Registry.store]
  split
  · exact if_pos rfl
  · rfl

theorem view_erase_self {m : Registry ServiceId Pid Start} (Pids : List Pid) :
    view sid (m.erase Pids) = fun Q => if Q ∈ Pids then none else view sid m Q := by
  funext Q
  rw [view, Registry.erase]
  split <;> rfl

variable {s : Service Pid Start} {Pids : List Pid} {D : Services ServiceId Pid Start}

theorem threadCount_storePids {c : Nat}
    (h : threadCount sid (storePids sid s Pids D) = some c) : c = s.countThread ∨ threadCount sid D = some c := by
  induction Pids generalizing D with
  | nil => exact Or.inr h
  | cons P Pids ih =>
    refine (ih h).elim Or.inl fun hP => Or.inl ?_
    have hf : (D.store sid P s).find1 sid = some ((D.find1 sid).elim ([P], s) fun x => (umerge x.1 [P], s)) :=
      Function.update_self _ _ _
    rw [threadCount, hf] at hP
    cases hx : D.find1 sid with
    | none =>
      rw [hx] at hP
      exact (Option.some.inj hP).symm
    | some x =>
      rw [hx] at hP
      exact (Option.some.inj hP).symm

theorem threadCount_erase {c : Nat}
    (h : threadCount sid (D.erase sid P) = some c) : threadCount sid D = some c := by
  unfold Key2Value.erase at h
  split at h
  · rename_i L2 V2 hl
    split at h
    · rename_i L1 V1 h2
      have hf : ((if L2 = [P] then D.lookup1.erase sid else D.lookup1.store sid (L2.erase P, V2)) sid).map
          (fun x => x.2.countThread) = some c := h
      split at hf
      · rw [Dict.erase, Function.update_self] at hf
        cases hf
      · rw [Dict.store, Function.update_self] at hf
        rw [threadCount, Key2Value.find1, hl]
        exact hf
    · exact h
  · exact h

theorem threadCount_terminateServicePids {c : Nat}
    (h : threadCount sid (terminateServicePids sid Pids D) = some c) : threadCount sid D = some c := by
  induction Pids generalizing D with
  | nil => exact h
  | cons P Pids ih => exact threadCount_erase (ih h)

theorem threadCount_pidsUpdate {Count : Int} {ServiceL Output : List (Service Pid Start)}
    {c : Nat} (h : threadCount sid (pidsUpdate sid Count ServiceL Output D).2 = some c)
    (hs : ∀ s ∈ ServiceL, s.countThread = ct) : c = ct ∨ threadCount sid D = some c := by
  induction ServiceL generalizing D Output with
  | nil => exact Or.inr h
  | cons s ServiceL ih =>
    rcases ih h fun t ht => hs t (List.mem_cons_of_mem s ht) with hc | hc
    · exact Or.inl hc
    · exact (threadCount_storePids hc).imp (fun he => he.trans (hs s List.mem_cons_self)) id

/-! ## A process is started -/

/-- The results of the start function: as many processes as there are threads. -/
def Threaded (ct : Nat) (f : Nat → StartResult Pid) : Prop := ∀ j, (f j).pids ≠ [] → (f j).pids.length = ct

theorem view_fresh (hb : Base σ.services σ.monitored) (hP : P ∉ σ.monitored) :
    view sid (registry σ.services) P = none := by
  cases hv : view sid (registry σ.services) P with
  | none => rfl
  | some s =>
    obtain ⟨t, ht, -⟩ := view_eq_some.mp hv
    exact absurd (hb.consistent.monitored ht (hb.consistent.mem ht)) hP

/-- What a stage of a restart keeps of a record. -/
def Outcome.Keeps (s : Service Pid Start) : Outcome Pid Start → Prop
  | .apply _ t => t.slot = s.slot
  | .stage3Async _ t => t.slot = s.slot
  | .maxRestarts => True

theorem restartStage3_keeps {seconds : Nat → Nat} {i : Nat} {r : Nat × Outcome Pid Start}
    (h : restartStage3 seconds i s = .ok r) : r.2.Keeps s := by
  fun_induction restartStage3 seconds i s with
  | case1 =>
    cases h
    rfl
  | case2 i s h0 hR n ts hf hlt ih =>
    have := ih h
    obtain ⟨j, o⟩ := r
    cases o <;> exact this
  | case3 =>
    cases h
    trivial
  | case4 => cases h
  | case5 =>
    cases h
    rfl

theorem restartStage2_keeps {seconds : Nat → Nat} {i : Nat} {r : Nat × Outcome Pid Start}
    (h : restartStage2 seconds i s = .ok r) : r.2.Keeps s := by
  unfold restartStage2 at h
  split at h
  · cases h
    trivial
  · split at h
    · exact restartStage3_keeps h
    · simp only at h
      split at h
      · have := restartStage3_keeps h
        obtain ⟨j, o⟩ := r
        cases o <;> exact this
      · split at h
        · cases h
          rfl
        · cases h

/-- A restart gives the process up. -/
def GivesUp (r : Nat × Outcome Pid Start) : Prop := r.2 = .maxRestarts

/-- No process that was not told to terminate is left, but for those given. -/
def NoneElse (sid : ServiceId) (σ : System ServiceId Pid Start Change) (Pids : List Pid) : Prop :=
  σ.pending sid = [] ∧ ∀ P s, registry σ.services P = some (sid, s) → P ∉ σ.told → P ∈ Pids

/-- Processes of the service are erased. -/
theorem System.Around.erase (h : σ.Around v T sid ct)
    (hserv : σ'.services = terminateServicePids sid Pids σ.services) (hmon : σ'.monitored = σ.monitored)
    (htold : σ'.told = σ.told) (ho : OfService sid Pids (registry σ.services)) :
    σ'.Around (fun Q => if Q ∈ Pids then none else v Q) T sid ct := by
  obtain ⟨hb, hreg⟩ := h.base.erase ho
  have hview : view sid (registry σ'.services) =
      fun Q => if Q ∈ Pids then none else view sid (registry σ.services) Q := by rw [hserv, hreg, view_erase_self]
  refine ⟨?_, ?_, ?_, fun {Q t} hQ => ?_, fun {Q t} hQ => ?_, fun {Q t} hQ hn => ?_⟩
  · rw [hserv, hmon]
    exact hb
  · rw [hmon, htold]
    exact h.known
  · rw [hserv]
    exact fun c hc => h.count c (threadCount_terminateServicePids hc)
  · rw [hview] at hQ
    dsimp only at hQ ⊢
    split
    · rwa [if_pos ‹_›] at hQ
    · rw [if_neg ‹_›] at hQ
      exact h.sub hQ
  · rw [hview] at hQ
    dsimp only at hQ
    rw [htold]
    split at hQ
    · cases hQ
    · exact h.told hQ
  · rw [hview] at hn
    dsimp only at hQ hn
    split at hQ
    · cases hQ
    · rw [if_neg ‹_›] at hn
      exact h.left hQ hn

/-- Every process that was not told to terminate is gone. -/
theorem System.Around.gone (h : σ.Around v T sid ct) (hlive : NoneElse sid σ Pids)
    {s : Shape Pid} (hP : v P = some s) (hPids : P ∉ Pids) : P ∈ T := by
  by_contra hn
  obtain ⟨t, ht, -⟩ := view_eq_some.mp (h.stored hP hn)
  exact hPids (hlive.2 P t ht fun hPt => hn ((h.told (h.stored hP hn)).mp hPt))

/-- The processes of a service that are numbered at the end of a step. -/
abbrev System.NumberedAgain (sid : ServiceId) (ct : Nat) (σ : System ServiceId Pid Start Change) : Prop :=
  ∃ (v : Pid → Option (Shape Pid)) (T : List Pid) (N : Nat), σ.NumberedIn v T sid ct N N

/-- A process whose place waits goes on: it is started again, waits further, or is given up as the last one. -/
theorem numbered_restartDone (ha : σ.Around v T sid ct)
    (hi : Indexed v T (s.slot :: (σ.pending sid).map fun m => m.service.slot) ct N N)
    (hf : FreshFrom f 0 σ.monitored) (ht : Threaded ct f) {r : Nat × Outcome Pid Start}
    (hr : r.2.Keeps s) (hg : GivesUp r → NoneElse sid σ []) : (restartDone f sid P r σ).NumberedAgain sid ct := by
  have hwait : ∀ {σ₁ : System ServiceId Pid Start Change} {m : Restart ServiceId Pid Start},
      σ₁.services = σ.services → σ₁.monitored = σ.monitored → σ₁.told = σ.told → σ₁.restarts = m :: σ.restarts →
      m.serviceId = sid → m.service.slot = s.slot → σ₁.NumberedAgain sid ct := by
    intro σ₁ m hserv hmon htold hrest hm hslot
    refine ⟨v, T, N, ⟨?_, ?_, ?_, ?_, ?_, ?_⟩, ?_⟩
    · rw [hserv, hmon]
      exact ha.base
    · rw [hmon, htold]
      exact ha.known
    · rw [hserv]
      exact ha.count
    · rw [hserv]
      exact ha.sub
    · rw [hserv, htold]
      exact ha.told
    · rw [hserv]
      exact ha.left
    · have hp : σ₁.pending sid = m :: σ.pending sid := by
        rw [System.pending, hrest, List.filter_cons, if_pos (decide_eq_true hm)]
        rfl
      rw [hp, List.map_cons, hslot]
      exact hi
  obtain ⟨j, o⟩ := r
  have hnew := hf.new 0 le_rfl
  have hnodup := hf.nodup 0
  have hlen := ht 0
  cases o with
  | apply t u =>
    have hslot : u.slot = s.slot := hr
    unfold restartDone
    simp only
    split
    · rename_i Pid Pids he
      rw [he] at hnew hnodup hlen
      have hstart := Base.start (s := { u with pids := Pid :: Pids }) sid ha.base hnew
      have hview := view_store_self sid (m := registry σ.services) { u with pids := Pid :: Pids } (Pid :: Pids)
      have hT : ∀ Q ∈ Pid :: Pids, Q ∉ T := fun Q hQ hQT => hnew Q hQ (ha.known Q (.inl hQT))
      have hnone : ∀ Q ∈ Pid :: Pids, v Q = none := fun Q hQ => by
        by_contra hv
        obtain ⟨w, hw⟩ := Option.ne_none_iff_exists'.mp hv
        exact hT Q hQ (ha.left hw (view_fresh ha.base (hnew Q hQ)))
      refine ⟨fun Q => if Q ∈ Pid :: Pids then some (Service.shape { u with pids := Pid :: Pids }) else v Q, T, N,
        ⟨hstart.1, fun Q hQ => List.mem_append_right _ (ha.known Q hQ), fun c hcc => ?_, fun {Q w} hQ => ?_,
          fun {Q w} hQ => ?_, fun {Q w} hQ hn => ?_⟩, ?_⟩
      · rcases threadCount_storePids hcc with rfl | hcc
        · have h1 : u.countThread = s.countThread := congrArg Slot.countThread hslot
          exact h1.trans (hi.pending _ List.mem_cons_self).2.2
        · exact ha.count c hcc
      · rw [show registry _ = _ from hstart.2, hview] at hQ
        dsimp only at hQ ⊢
        split
        · rwa [if_pos ‹_›] at hQ
        · rw [if_neg ‹_›] at hQ
          exact ha.sub hQ
      · rw [show registry _ = _ from hstart.2, hview] at hQ
        dsimp only at hQ
        split at hQ
        · rename_i hm
          exact iff_of_false (fun hQt => hnew Q hm (ha.known Q (.inr hQt))) (hT Q hm)
        · exact ha.told hQ
      · rw [show registry _ = _ from hstart.2, hview] at hn
        dsimp only at hQ hn
        split at hQ
        · rw [if_pos ‹_›] at hn
          cases hn
        · rw [if_neg ‹_›] at hn
          exact ha.left hQ hn
      · exact hi.resume (t := Service.shape { u with pids := Pid :: Pids }) hslot
          (fun Q hQ => ⟨hnone Q hQ, hT Q hQ⟩) (List.cons_ne_nil _ _) hnodup (hlen (List.cons_ne_nil _ _))
    · exact hwait (m := ⟨false, u, sid, P⟩) rfl rfl rfl rfl rfl hslot
  | stage3Async d u => exact hwait (m := ⟨true, u, sid, P⟩) rfl rfl rfl rfl rfl hr
  | maxRestarts =>
    obtain ⟨hp, hlive⟩ := hg rfl
    refine ⟨v, T, 0, ⟨ha.base, ha.known, ha.count, ha.sub, ha.told, ha.left⟩, ?_⟩
    show Indexed _ _ ((σ.pending sid).map _) _ _ _
    rw [hp]
    exact hi.gone_all ⟨id, fun _ _ _ h => h⟩ rfl fun {Q u} hQ => ha.gone ⟨hp, hlive⟩ hQ List.not_mem_nil

/-! ## A process exits -/

/-- The messages after which the processes of the service are numbered again. -/
def Event.Steady (rt : Runtime Change) (f : Nat → StartResult Pid) (sid : ServiceId)
    (σ : System ServiceId Pid Start Change) : Event ServiceId Pid Start Change → Prop
  | monitor k _ => k ≠ sid
  | shutdown k => k = sid → σ.pending sid = [] ∨ ∀ P s, registry σ.services P = some (sid, s) → P ∈ σ.told
  | changes k => k = sid → ∀ Pids s L, σ.services.find1 sid = some (Pids, s) → σ.changes sid = some L →
      let n := countProcessCurrent Pids s.countThread
      let I := rt.pidsChange L n
      I = 0 ∨ (σ.pending sid = [] ∧
        (0 < I → (∀ P ∈ Pids, P ∉ σ.told) ∧ ∀ j, j < I.toNat → (f j).pids ≠ []) ∧
        (I < 0 → Whole sid σ ∧
          ∀ P t, registry σ.services P = some (sid, t) → P ∉ σ.told → n + I ≤ t.countProcess))
  | down P Reason => ∀ s, registry σ.services P = some (sid, s) →
      match Reason with
      | .shutdown | .shutdownReason => P ∈ σ.told ∨ NoneElse sid σ s.pids
      | .shutdownCountProcessDynamicTerminate => P ∈ σ.told ∨ s.pids = [P] ∧ NoneElse sid σ s.pids
      | .info => ∀ r, restartStage1 rt.seconds σ.reads s = .ok r →
          (GivesUp r → P ∈ σ.told ∨ NoneElse sid σ s.pids) ∧ (¬GivesUp r → P ∉ σ.told)
  | restart i => ∀ m, σ.restarts[i]? = some m → m.serviceId = sid →
      ∀ r, (if m.stage3 then restartStage3 rt.seconds σ.reads m.service
        else restartStage2 rt.seconds σ.reads m.service) = .ok r →
      GivesUp r → NoneElse sid { σ with restarts := σ.restarts.eraseIdx i } []
  | _ => True

/-- A process that is terminated was told to, or it was the last one. -/
theorem numbered_terminate (h : σ.NumberedIn v T sid ct N N)
    (hP : registry σ.services P = some (sid, s)) (hl : P ∈ σ.told ∨ NoneElse sid σ s.pids)
    (hserv : σ'.services = terminateServicePids sid s.pids σ.services) (hmon : σ'.monitored = σ.monitored)
    (htold : σ'.told = σ.told) (hrest : σ'.restarts = σ.restarts) : σ'.NumberedAgain sid ct := by
  have ho := h.base.consistent.ofService hP
  obtain ⟨hb, hreg⟩ := h.base.erase ho
  have hv : view sid (registry σ.services) P = some s.shape := view_eq_some.mpr ⟨s, hP, rfl⟩
  have hw : ∀ {Q t}, v Q = some t → Q ∈ s.pids → ∀ R ∈ t.pids, R ∈ s.pids := by
    intro Q t hQ hQs R hR
    cases hQ.symm.trans (h.indexed.whole (h.sub hv) Q hQs)
    exact hR
  have hgone := h.indexed.gone_erase hw
  have hpend : σ'.pending sid = σ.pending sid := by rw [System.pending, System.pending, hrest]
  have haround := h.toAround.erase hserv hmon htold ho
  rcases hl with hPt | ⟨hp, hlive⟩
  · refine ⟨_, T, N, haround, ?_⟩
    rw [hpend]
    refine h.indexed.gone_told hgone fun {Q t} hQ hQn => ?_
    have hQs : Q ∉ s.pids := fun hQs => hQn (h.indexed.together (h.sub hv) Q hQs ((h.told hv).mp hPt))
    rw [if_neg hQs]
    exact hQ
  · refine ⟨_, T, 0, haround, ?_⟩
    rw [hpend]
    refine h.indexed.gone_all hgone (by rw [hp]; rfl) fun {Q t} hQ => ?_
    split at hQ
    · cases hQ
    · rename_i hQs
      exact h.toAround.gone ⟨hp, hlive⟩ hQ hQs

/-- A thread of a process that was told to terminate has done so. -/
theorem numbered_left (h : σ.NumberedIn v T sid ct N N)
    (hP : registry σ.services P = some (sid, s)) (hPt : P ∈ σ.told)
    (hserv : σ'.services = terminateServicePids sid [P] σ.services) (hmon : σ'.monitored = σ.monitored)
    (htold : σ'.told = σ.told) (hrest : σ'.restarts = σ.restarts) : σ'.NumberedAgain sid ct := by
  have ho : OfService sid [P] (registry σ.services) := fun Q hQ k t hm =>
    h.base.consistent.ofService hP Q (List.mem_singleton.mp hQ ▸ h.base.consistent.mem hP) k t hm
  obtain ⟨hb, hreg⟩ := h.base.erase ho
  have hview : view sid (registry σ'.services) =
      fun Q => if Q ∈ [P] then none else view sid (registry σ.services) Q := by rw [hserv, hreg, view_erase_self]
  have hPv : view sid (registry σ.services) P = some s.shape := view_eq_some.mpr ⟨s, hP, rfl⟩
  refine ⟨v, T, N, ⟨?_, ?_, ?_, fun {Q t} hQ => ?_, fun {Q t} hQ => ?_, fun {Q t} hQ hn => ?_⟩, ?_⟩
  · rw [hserv, hmon]
    exact hb
  · rw [hmon, htold]
    exact h.known
  · rw [hserv]
    exact fun c hc => h.count c (threadCount_terminateServicePids hc)
  · rw [hview] at hQ
    dsimp only at hQ
    split at hQ
    · cases hQ
    · exact h.sub hQ
  · rw [hview] at hQ
    dsimp only at hQ
    rw [htold]
    split at hQ
    · cases hQ
    · exact h.told hQ
  · rw [hview] at hn
    dsimp only at hn
    split at hn
    · rename_i hQP
      rw [List.mem_singleton.mp hQP]
      exact (h.told hPv).mp hPt
    · exact h.left hQ hn
  · rw [System.pending, hrest]
    exact h.indexed

theorem numbered_down (h : σ.NumberedIn v T sid ct N N) (hf : FreshFrom f 0 σ.monitored) (ht : Threaded ct f)
    {Reason : ExitReason} (hP : registry σ.services P = some (sid, s))
    (hs : (Event.down P Reason : Event ServiceId Pid Start Change).Steady rt f sid σ)
    (hr : downInfo rt f P Reason σ = .ok σ') : σ'.NumberedAgain sid ct := by
  have hst := hs s hP
  unfold downInfo at hr
  simp only [h.base.holds.find2_eq.mpr hP] at hr
  cases Reason with
  | shutdown =>
    obtain ⟨σ₁, ht, hr⟩ := bind_eq_ok hr
    obtain ⟨Down, -, rfl⟩ := terminateService_ok ht
    cases hr
    exact numbered_terminate h hP hst rfl rfl rfl rfl
  | shutdownReason =>
    obtain ⟨σ₁, ht, hr⟩ := bind_eq_ok hr
    obtain ⟨Down, -, rfl⟩ := terminateService_ok ht
    cases hr
    exact numbered_terminate h hP hst rfl rfl rfl rfl
  | shutdownCountProcessDynamicTerminate =>
    cases hr
    rcases hst with hPt | ⟨hone, hlast⟩
    · exact numbered_left h hP hPt rfl rfl rfl rfl
    · refine numbered_terminate h hP (.inr hlast) ?_ rfl rfl rfl
      rw [hone]
      rfl
  | info =>
    obtain ⟨σ₁, hterm, hr⟩ := bind_eq_ok hr
    obtain ⟨Down, -, rfl⟩ := terminateService_ok hterm
    obtain ⟨r, hstage, hr⟩ := bind_eq_ok hr
    cases hr
    have hst := hst r (mapError_eq_ok hstage)
    by_cases hg : GivesUp r
    · obtain ⟨j, o⟩ := r
      obtain rfl : o = .maxRestarts := hg
      exact numbered_terminate h hP (hst.1 rfl) rfl rfl rfl rfl
    · have hn := hst.2 hg
      have hv : view sid (registry σ.services) P = some s.shape := view_eq_some.mpr ⟨s, hP, rfl⟩
      have hkeeps := restartStage2_keeps (mapError_eq_ok hstage)
      refine numbered_restartDone (s := s) (N := N)
        (σ := { σ with services := terminateServicePids sid s.pids σ.services, down := Down })
        (h.toAround.erase rfl rfl rfl (h.base.consistent.ofService hP)) ?_ hf ht ?_ fun hg' => absurd hg' hg
      · exact h.indexed.suspend (h.sub hv) fun hPT => hn ((h.told hv).mpr hPT)
      · obtain ⟨j, o⟩ := r
        cases o <;> exact hkeeps

theorem numbered_restart (h : σ.NumberedIn v T sid ct N N) (hf : FreshFrom f 0 σ.monitored) (ht : Threaded ct f)
    {i : Nat}
    {m : Restart ServiceId Pid Start} (hi : σ.restarts[i]? = some m) (hm : m.serviceId = sid)
    (hs : (Event.restart i : Event ServiceId Pid Start Change).Steady rt f sid σ)
    (hr : restartInfo rt f i σ = .ok σ') : σ'.NumberedAgain sid ct := by
  unfold restartInfo at hr
  rw [hi] at hr
  obtain ⟨r, hstage, hr⟩ := bind_eq_ok hr
  cases hr
  have hstage := mapError_eq_ok hstage
  have hkeeps : r.2.Keeps m.service := by
    split at hstage
    · exact restartStage3_keeps hstage
    · exact restartStage2_keeps hstage
  have hperm : (m.service.slot :: ((σ.restarts.eraseIdx i).filter fun m => m.serviceId = sid).map
      fun m => m.service.slot).Perm ((σ.pending sid).map fun m => m.service.slot) := by
    obtain ⟨hlt, hget⟩ := List.getElem?_eq_some_iff.mp hi
    have hp : (m :: σ.restarts.eraseIdx i).Perm σ.restarts := by
      rw [← hget]
      exact List.getElem_cons_eraseIdx_perm hlt
    have hp' := (hp.filter fun m => m.serviceId = sid).map fun m => m.service.slot
    rwa [List.filter_cons, if_pos (decide_eq_true hm)] at hp'
  subst hm
  exact numbered_restartDone (σ := { σ with restarts := σ.restarts.eraseIdx i })
    ⟨h.base, h.known, h.count, h.sub, h.told, h.left⟩ (h.indexed.congr_pending hperm) hf ht hkeeps
        (hs m hi rfl r hstage)

/-! ## The service is shut down -/

theorem numbered_shutdown (h : σ.NumberedIn v T sid ct N N)
    (hs : (Event.shutdown sid : Event ServiceId Pid Start Change).Steady rt f sid σ)
    {r : Option (List Pid) × System ServiceId Pid Start Change} (hr : shutdown sid σ = .ok r) :
    r.2.NumberedAgain sid ct := by
  unfold shutdown at hr
  split at hr
  · rename_i Pids s hf
    obtain ⟨σ₁, ht, hr⟩ := bind_eq_ok hr
    obtain ⟨Down, -, rfl⟩ := terminateService_ok ht
    cases hr
    have hmem := fun P => h.base.holds.mem_find1 hf P
    obtain ⟨hb, hreg⟩ := h.base.erase (h.base.ofService_find1 hf)
    have hnone : ∀ Q, view sid (registry (terminateServicePids sid Pids σ.services)) Q = none := by
      intro Q
      rw [hreg, view_erase_self]
      dsimp only
      split
      · rfl
      · rename_i hQ
        cases hv : view sid (registry σ.services) Q with
        | none => rfl
        | some t =>
          obtain ⟨u, hu, -⟩ := view_eq_some.mp hv
          exact absurd ((hmem Q).mpr ⟨u, hu⟩) hQ
    have hgone : Indexed.Gone v fun _ => none :=
      ⟨fun hP => absurd hP (Option.some_ne_none _).symm, fun hP => absurd hP (Option.some_ne_none _).symm⟩
    have haround : System.Around (fun _ => none) T sid ct
        { σ with services := terminateServicePids sid Pids σ.services, down := Down } :=
      ⟨hb, h.known, fun c hc => h.count c (threadCount_terminateServicePids hc),
        fun hP => absurd ((hnone _).symm.trans hP) (Option.some_ne_none _).symm,
        fun hP => absurd ((hnone _).symm.trans hP) (Option.some_ne_none _).symm,
        fun hP => absurd hP (Option.some_ne_none _).symm⟩
    rcases hs rfl with hp | hall
    · exact ⟨_, T, 0, haround, h.indexed.gone_all hgone (by
        show (σ.pending sid).map _ = []
        rw [hp]
        rfl) fun hQ => absurd hQ (Option.some_ne_none _).symm⟩
    · refine ⟨_, T, N, haround, h.indexed.gone_told hgone fun {Q t} hQ hn => ?_⟩
      obtain ⟨u, hu, -⟩ := view_eq_some.mp (h.stored hQ hn)
      exact absurd ((h.told (h.stored hQ hn)).mp (hall Q u hu)) hn
  · cases hr
    exact ⟨v, T, N, h⟩

/-! ## The count of processes changes -/

variable {ServiceL : List (Service Pid Start)}

/-- The records of a service after `pids_update/4`. -/
theorem view_pidsUpdate {τ : System ServiceId Pid Start Change} (h : σ.Numbered sid ct N N) {Count : Int}
    (hin : ∀ s ∈ ServiceL, ∃ P, registry σ.services P = some (sid, s))
    (hrec : Recounted sid Count ServiceL (registry σ.services) (registry τ.services)) :
    view sid (registry τ.services) = fun P => (view sid (registry σ.services) P).map fun s =>
      { s with countProcess :=
          if s.processIndex ∈ ServiceL.map Service.processIndex then Count else s.countProcess } := by
  funext P
  rcases hrec P with ⟨hnot, he⟩ | ⟨s, hs, hP, he⟩
  · rw [view, he, ← view]
    cases hv : view sid (registry σ.services) P with
    | none => rfl
    | some t =>
      have hidx : t.processIndex ∉ ServiceL.map Service.processIndex := by
        intro hm
        obtain ⟨u, hu, hidx⟩ := List.mem_map.mp hm
        obtain ⟨Q, hQ⟩ := hin u hu
        have hsh := h.indexed.distinct (view_eq_some.mpr ⟨u, hQ, rfl⟩) hv hidx
        have hp : u.pids = t.pids := congrArg Shape.pids hsh
        exact hnot u hu (hp ▸ h.indexed.mem hv)
      simp only [Option.map_some, if_neg hidx]
  · obtain ⟨Q, hQ⟩ := hin s hs
    rw [h.indexed.whole (view_eq_some.mpr ⟨s, hQ, rfl⟩) P hP]
    have hidx : s.shape.processIndex ∈ ServiceL.map Service.processIndex := List.mem_map_of_mem hs
    rw [Option.map_some, if_pos hidx]
    exact view_eq_some.mpr ⟨_, he, rfl⟩

/-- The counts of the processes of some records are set, and the others may be told to terminate. -/
theorem numbered_recount {τ : System ServiceId Pid Start Change} (h : σ.Numbered sid ct N N)
    (hp : σ.pending sid = []) {C : Int} (hin : ∀ s ∈ ServiceL, ∃ P, registry σ.services P = some (sid, s))
    (hserv : τ.services = (pidsUpdate sid C ServiceL [] σ.services).2) (hmon : τ.monitored = σ.monitored)
    (hrest : τ.restarts = σ.restarts) (hknown : ∀ P ∈ τ.told, P ∈ σ.monitored) {K : Nat} (hK : K ≤ N)
    (hset : ∀ i, i < K → i ∈ ServiceL.map Service.processIndex)
    (htold : ∀ {P s}, view sid (registry σ.services) P = some s → (P ∈ τ.told ↔ P ∈ σ.told ∨ K ≤ s.processIndex)) :
    τ.Numbered sid ct K C := by
  have ho : ∀ s ∈ ServiceL, Owned (registry σ.services) σ.monitored sid s.pids := fun s hs => by
    obtain ⟨P, hP⟩ := hin s hs
    exact h.base.consistent.owned hP
  obtain ⟨hb, hrec⟩ := h.base.pidsUpdate C ho []
  rw [← hserv] at hb hrec
  refine ⟨?_, ?_, ?_, fun c hc => ?_⟩
  · rw [hmon]
    exact hb
  · rw [hmon]
    exact hknown
  · have hpend : τ.pending sid = [] := by
      rw [System.pending, hrest]
      exact hp
    have hi := h.indexed
    rw [hp] at hi
    rw [view_pidsUpdate h hin hrec, hpend]
    exact hi.recount hK (fun _ hlt => if_pos (hset _ hlt)) htold
  · rw [hserv] at hc
    refine (threadCount_pidsUpdate hc fun s hs => ?_).elim id (h.count c)
    obtain ⟨P, hP⟩ := hin s hs
    exact (h.indexed.threads (view_eq_some.mpr ⟨s, hP, rfl⟩)).1

/-- New processes get the next indexes. -/
theorem numbered_pidsIncreaseLoop {Count j : Nat} {i : Nat}
    (hb : Base σ.services σ.monitored) (h : σ.Numbered sid ct N C) (hi : i = N) (hs : s.countProcess = C)
    (hct : s.countThread = ct) (hf : FreshFrom f j σ.monitored) (ht : Threaded ct f)
    (hok : ∀ k, j ≤ k → k < j + Count → (f k).pids ≠ [])
    (hstay : ∀ P t, view sid (registry σ.services) P = some t → P ∉ σ.told) :
    (pidsIncreaseLoop f sid s Count j i σ).Numbered sid ct (N + Count) C ∧
      ∀ P t, view sid (registry (pidsIncreaseLoop f sid s Count j i σ).services) P = some t →
        P ∉ (pidsIncreaseLoop f sid s Count j i σ).told := by
  induction Count generalizing j i N σ with
  | zero => exact ⟨h, hstay⟩
  | succ Count ih =>
    have hnew := hf.new j le_rfl
    have hnodup := hf.nodup j
    have hnext := hf.next
    have hlen := ht j (hok j le_rfl (by omega))
    have hokj := hok j le_rfl (by omega)
    rw [pidsIncreaseLoop]
    cases he : f j with
    | error =>
      rw [he] at hokj
      exact absurd rfl hokj
    | ok Pid Pids =>
      rw [he] at hnew hnodup hnext hlen
      have hstart := Base.start (s := { s with processIndex := i, pids := Pid :: Pids, restartCount := 0,
                                               restartTimes := [] }) sid hb hnew
      have hview := view_store_self sid (m := registry σ.services)
        { s with processIndex := i, pids := Pid :: Pids, restartCount := 0, restartTimes := [] } (Pid :: Pids)
      simp only
      rw [Nat.add_comm Count 1, ← Nat.add_assoc]
      refine ih hstart.1 ⟨hstart.1, fun P hP => List.mem_append_right _ (h.known P hP), ?_, fun c hc => ?_⟩ (by omega)
        hnext (fun k hk hlt => hok k (by omega) (by omega)) fun P t hP => ?_
      · rw [show registry _ = _ from hstart.2, hview]
        refine h.indexed.add (t := Service.shape { s with processIndex := i, pids := Pid :: Pids, restartCount := 0,
                                                          restartTimes := [] }) hi
          (fun Q hQ => ⟨view_fresh hb (hnew Q hQ), fun hQt => hnew Q hQ (h.known Q hQt)⟩) (List.cons_ne_nil _ _)
              hnodup ⟨hct, hlen⟩ hs fun {P t} hP => hstay P t hP
      · exact (threadCount_storePids hc).elim (fun he => he.trans hct) (h.count c)
      · rw [show registry _ = _ from hstart.2, hview] at hP
        simp only at hP
        split at hP
        · rename_i hm
          exact fun hPt => hnew P hm (h.known P hPt)
        · exact hstay P t hP

/-- The count of threads of a service that is found. -/
theorem System.Numbered.countThread (h : σ.Numbered sid ct N C)
    (hf : σ.services.find1 sid = some (Pids, s)) : s.countThread = ct ∧ 0 < ct := by
  refine ⟨h.count _ (by rw [threadCount, hf]; rfl), ?_⟩
  obtain ⟨-, hne, hmem⟩ := h.base.holds.present sid Pids s hf
  obtain ⟨P, hP⟩ := List.exists_mem_of_ne_nil Pids hne
  obtain ⟨t, ht⟩ := (hmem P).mp hP
  have hv : view sid (registry σ.services) P = some t.shape := view_eq_some.mpr ⟨t, ht, rfl⟩
  have hlen : t.pids.length = ct := (h.indexed.threads hv).2
  rw [← hlen]
  exact List.length_pos_of_mem (h.indexed.mem hv)

theorem numbered_pidsIncrease (h : σ.Numbered sid ct N N) (hf : FreshFrom f 0 σ.monitored) (ht : Threaded ct f)
    {Count : Nat} (hfind : σ.services.find1 sid = some (Pids, s))
    (hp : σ.pending sid = []) (hstay : ∀ P ∈ Pids, P ∉ σ.told) (hok : ∀ j, j < Count → (f j).pids ≠ [])
    (hr : pidsIncrease f sid Count Pids (countProcessCurrent Pids s.countThread) σ = .ok σ') :
    ∃ N : Nat, σ'.Numbered sid ct N N := by
  obtain ⟨hct, hpos⟩ := h.countThread hfind
  obtain ⟨ServiceL, hs, hr⟩ := bind_eq_ok hr
  obtain ⟨ho, hall, hlen⟩ := h.base.serviceInstance_all h.indexed hfind hs
  have hin : ∀ u ∈ ServiceL, ∃ P, registry σ.services P = some (sid, u) := fun u hu => by
    obtain ⟨P, -, hP⟩ := h.base.mem_serviceInstance hs hu
    exact ⟨P, hP⟩
  have hlive : ∀ P t, view sid (registry σ.services) P = some t → P ∉ σ.told := by
    intro P t hv
    obtain ⟨u, hu, -⟩ := view_eq_some.mp hv
    exact hstay P ((h.base.holds.mem_find1 hfind P).mpr ⟨u, hu⟩)
  have hi := h.indexed
  rw [hp] at hi
  obtain ⟨rest, hidx, hrest⟩ := indexes_eq hi ho hin hall
  have hnil : rest = [] := by
    refine List.eq_nil_iff_forall_not_mem.mpr fun i him => ?_
    have hmem : i ∈ ServiceL.map Service.processIndex := by
      rw [hidx]
      exact List.mem_append_right _ him
    obtain ⟨u, hu, rfl⟩ := List.mem_map.mp hmem
    obtain ⟨P, hP⟩ := hin u hu
    have hv : view sid (registry σ.services) P = some u.shape := view_eq_some.mpr ⟨u, hP, rfl⟩
    have hlt : u.processIndex < N := (hi.live hv (hlive P _ hv)).1
    have := hrest _ him
    omega
  rw [hnil, List.append_nil] at hidx
  have hN : ServiceL.length = N := by
    have := congrArg List.length hidx
    rwa [List.length_map, List.length_range] at this
  rw [hct, countProcessCurrent_eq hpos hlen, hN] at hr
  have hfst := @pidsUpdate_fst _ _ _ _ _ σ.services sid ((N : Int) + Count) ServiceL []
  have hnum : System.Numbered sid ct N ((N : Int) + Count)
      { σ with services := (pidsUpdate sid ((N : Int) + Count) ServiceL [] σ.services).2 } := by
    have hset : ∀ i, i < N → i ∈ ServiceL.map Service.processIndex := by
      intro i hi'
      rw [hidx]
      exact List.mem_range.mpr hi'
    refine numbered_recount (C := (N : Int) + Count)
      (τ := { σ with services := (pidsUpdate sid ((N : Int) + Count) ServiceL [] σ.services).2 }) h hp hin rfl rfl rfl
      h.known le_rfl hset fun {P t} hv => ?_
    have := (hi.live hv (hlive P t hv)).1
    exact ⟨Or.inl, fun hor => hor.resolve_right (by omega)⟩
  cases hpu : pidsUpdate sid ((N : Int) + Count) ServiceL [] σ.services with
  | mk NewServiceL NewServices =>
    rw [hpu] at hr hfst hnum
    rw [List.append_nil] at hfst
    have hfst : NewServiceL = (ServiceL.map (recount ((N : Int) + Count))).reverse := hfst
    cases NewServiceL with
    | nil => cases hr
    | cons u NewServiceL =>
      rw [← Except.ok.inj hr]
      have hu : u ∈ ServiceL.map (recount ((N : Int) + Count)) := by
        rw [← List.mem_reverse, ← hfst]
        exact List.mem_cons_self
      obtain ⟨w, hw, rfl⟩ := List.mem_map.mp hu
      have hlast : w.processIndex + 1 = N := by
        have hmap : (ServiceL.map Service.processIndex).reverse =
            w.processIndex :: NewServiceL.map Service.processIndex := by
          have := congrArg (List.map Service.processIndex) hfst
          rw [List.map_reverse, List.map_map] at this
          exact this.symm
        rw [hidx] at hmap
        cases N with
        | zero => cases hmap
        | succ N =>
          rw [List.range_succ, List.reverse_append, List.reverse_singleton, List.singleton_append] at hmap
          rw [(List.cons.inj hmap).1]
      obtain ⟨P, hP⟩ := hin w hw
      have hwct : w.countThread = ct := (hi.threads (view_eq_some.mpr ⟨w, hP, rfl⟩)).1
      refine ⟨N + Count, ?_⟩
      rw [Int.natCast_add]
      have hrec := (h.base.pidsUpdate ((N : Int) + Count)
        (fun u hu => h.base.consistent.owned (hin u hu).choose_spec) []).2
      rw [hpu] at hrec
      refine (numbered_pidsIncreaseLoop (s := recount ((N : Int) + Count) w) hnum.base hnum hlast rfl hwct hf ht
        (fun k (_ : 0 ≤ k) (hk : k < 0 + Count) => hok k (by omega)) fun P t hv => ?_).1
      obtain ⟨x, hx, -⟩ := Option.map_eq_some_iff.mp ((congrFun
          (view_pidsUpdate (τ := { σ with services := NewServices })
        h hin hrec) P).symm.trans hv)
      exact hlive P x hx

/-- Of the records in order, the first `c` are those with an index below `c`. -/
theorem index_lt_iff {rest : List Nat} {c : Nat} (hc : c ≤ N)
    (hidx : ServiceL.map Service.processIndex = List.range N ++ rest) (hrest : ∀ i ∈ rest, N ≤ i) :
    (∀ s ∈ ServiceL.take c, s.processIndex < c) ∧ ∀ s ∈ ServiceL.drop c, c ≤ s.processIndex := by
  constructor
  · intro s hs
    have hm : s.processIndex ∈ (ServiceL.take c).map Service.processIndex := List.mem_map_of_mem hs
    rw [List.map_take, hidx, List.take_append_of_le_length (by rw [List.length_range]; exact hc), List.take_range,
      Nat.min_eq_left hc] at hm
    exact List.mem_range.mp hm
  · intro s hs
    have hm : s.processIndex ∈ (ServiceL.drop c).map Service.processIndex := List.mem_map_of_mem hs
    rw [List.map_drop, hidx, List.drop_append_of_le_length (by rw [List.length_range]; exact hc)] at hm
    rcases List.mem_append.mp hm with hm | hm
    · obtain ⟨j, hj, he⟩ := List.mem_drop_iff_getElem.mp hm
      rw [List.getElem_range] at he
      omega
    · exact hc.trans (hrest _ hm)

theorem numbered_pidsDecrease (h : σ.Numbered sid ct N N) {Count : Nat}
    (hfind : σ.services.find1 sid = some (Pids, s)) (hp : σ.pending sid = [])
    (hle : ∀ P t, registry σ.services P = some (sid, t) → P ∉ σ.told →
      ((countProcessCurrent Pids s.countThread : Nat) : Int) - Count ≤ t.countProcess)
    (hr : pidsDecrease sid Count Pids (countProcessCurrent Pids s.countThread) σ = .ok σ') :
    ∃ N : Nat, σ'.Numbered sid ct N N := by
  obtain ⟨hct, hpos⟩ := h.countThread hfind
  obtain ⟨ServiceL, hs, hr⟩ := bind_eq_ok hr
  obtain ⟨⟨NewServiceL, Told⟩, hd, hr⟩ := bind_eq_ok hr
  obtain ⟨rfl, rfl, hCount⟩ := pidsDecreaseLoop_suffix hd
  cases hr
  obtain ⟨ho, hall, hlen⟩ := h.base.serviceInstance_all h.indexed hfind hs
  have hin : ∀ u ∈ ServiceL, ∃ P, registry σ.services P = some (sid, u) := fun u hu => by
    obtain ⟨P, -, hP⟩ := h.base.mem_serviceInstance hs hu
    exact ⟨P, hP⟩
  have hi := h.indexed
  rw [hp] at hi
  obtain ⟨rest, hidx, hrest⟩ := indexes_eq hi ho hin hall
  rw [hct, countProcessCurrent_eq hpos hlen] at hle ⊢
  rw [List.length_reverse] at hCount
  obtain ⟨c, hc⟩ : ∃ c, c = ServiceL.length - Count := ⟨_, rfl⟩
  have hnew : ServiceL.reverse.drop Count = (ServiceL.take c).reverse := by rw [List.drop_reverse, hc]
  have hleave : ∀ P, P ∈ ((ServiceL.reverse.take Count).reverse.map Service.pids).flatten ++ σ.told ↔
      P ∈ σ.told ∨ ∃ u ∈ ServiceL.drop c, P ∈ u.pids := by
    intro P
    rw [List.take_reverse, List.reverse_reverse, ← hc, List.mem_append, List.mem_flatten, or_comm]
    refine or_congr_right ⟨fun hm => ?_, fun hm => ?_⟩
    · obtain ⟨L, hL, hP⟩ := hm
      obtain ⟨u, hu, rfl⟩ := List.mem_map.mp hL
      exact ⟨u, hu, hP⟩
    · obtain ⟨u, hu, hP⟩ := hm
      exact ⟨u.pids, List.mem_map_of_mem hu, hP⟩
  have hknown : ∀ P, P ∈ ((ServiceL.reverse.take Count).reverse.map Service.pids).flatten ++ σ.told →
      P ∈ σ.monitored := by
    intro P hP
    rcases (hleave P).mp hP with hP | ⟨u, hu, hP⟩
    · exact h.known P hP
    · obtain ⟨Q, hQ⟩ := hin u (List.mem_of_mem_drop hu)
      exact h.base.consistent.monitored hQ hP
  have hinNew : ∀ u ∈ ServiceL.reverse.drop Count, ∃ P, registry σ.services P = some (sid, u) := fun u hu =>
    hin u (List.mem_reverse.mp (List.mem_of_mem_drop hu))
  have hrecount := fun {K : Nat} => numbered_recount (C := (ServiceL.length : Int) - Count) (K := K)
    (τ := { σ with
      services := (pidsUpdate sid ((ServiceL.length : Int) - Count) (ServiceL.reverse.drop Count) [] σ.services).2
      told := ((ServiceL.reverse.take Count).reverse.map Service.pids).flatten ++ σ.told })
    h hp hinNew rfl rfl rfl hknown
  rcases Nat.eq_zero_or_pos N with rfl | hN
  · -- every process stored was told to terminate before
    have hnum := hrecount (K := 0) le_rfl (fun i hi' => absurd hi' (Nat.not_lt_zero i)) fun {P t} hv => by
      refine ⟨fun _ => Or.inr (Nat.zero_le _), fun _ => (hleave P).mpr (Or.inl ?_)⟩
      by_contra hn
      exact absurd (hi.live hv hn).1 (Nat.not_lt_zero _)
    exact ⟨0, hnum.base, hnum.known, hnum.indexed.zero _, hnum.count⟩
  · have hcN : c ≤ N := by
      rcases hi.all 0 hN with ⟨P, t, hv, h0⟩ | ⟨x, hx, -⟩
      · have hn : P ∉ σ.told := fun hPt => absurd (hi.leaving hv hPt) (by omega)
        obtain ⟨u, hu, rfl⟩ := view_eq_some.mp hv
        have hcount : u.countProcess = N := (hi.live hv hn).2
        have := hle P u hu hn
        omega
      · cases hx
    obtain ⟨htake, hdrop⟩ := index_lt_iff hcN hidx hrest
    refine ⟨c, ?_⟩
    rw [show (c : Int) = (ServiceL.length : Int) - Count by omega]
    refine hrecount hcN (fun i hi' => ?_) fun {P t} hv => ?_
    · have hm : i ∈ (ServiceL.take c).map Service.processIndex := by
        rw [List.map_take, hidx, List.take_append_of_le_length (by rw [List.length_range]; exact hcN), List.take_range,
          Nat.min_eq_left hcN]
        exact List.mem_range.mpr hi'
      rw [hnew, List.map_reverse]
      exact List.mem_reverse.mpr hm
    · refine (hleave P).trans (or_congr_right ?_)
      obtain ⟨u, hu, rfl⟩ := view_eq_some.mp hv
      have hsame : ∀ w ∈ ServiceL, P ∈ w.pids → w.processIndex = u.processIndex := by
        intro w hw hP
        obtain ⟨Q, hQ⟩ := hin w hw
        have hsh := Option.some.inj ((hi.whole (view_eq_some.mpr ⟨w, hQ, rfl⟩) P hP).symm.trans hv)
        exact congrArg (fun t => t.processIndex) hsh
      constructor
      · rintro ⟨w, hw, hP⟩
        have := hdrop w hw
        rwa [hsame w (List.mem_of_mem_drop hw) hP] at this
      · intro hcu
        obtain ⟨w, hw, hP⟩ := hall P u hu
        have hcw : c ≤ w.processIndex := by
          rw [hsame w hw hP]
          exact hcu
        rw [← List.take_append_drop c ServiceL] at hw
        rcases List.mem_append.mp hw with hw | hw
        · have := htake w hw
          omega
        · exact ⟨w, hw, hP⟩

theorem numbered_changes (h : σ.NumberedIn v T sid ct N N) (hf : FreshFrom f 0 σ.monitored) (ht : Threaded ct f)
    (hs : (Event.changes sid : Event ServiceId Pid Start Change).Steady rt f sid σ)
    (hr : changes rt f sid σ = .ok σ') : σ'.NumberedAgain sid ct := by
  have hchanges : System.NumberedIn v T sid ct N N { σ with changes := σ.changes.erase sid } :=
    ⟨⟨h.base, h.known, h.count, h.sub, h.told, h.left⟩, h.indexed⟩
  have hagain : (∃ N : Nat, σ'.Numbered sid ct N N) → σ'.NumberedAgain sid ct := by
    rintro ⟨N, h⟩
    exact ⟨_, _, N, h.in_⟩
  unfold changes at hr
  simp only at hr
  split at hr
  · rename_i Pids s hfind
    split at hr
    · cases hr
    · rename_i L hL
      have hst := hs rfl Pids s L hfind hL
      simp only at hst
      split at hr
      · cases hr
        exact ⟨v, T, N, hchanges⟩
      · rename_i h0
        obtain ⟨hp, hinc, hdec⟩ := hst.resolve_left h0
        split at hr
        · rename_i hpos
          have hwhole : Whole sid { σ with changes := σ.changes.erase sid } := hchanges.whole_of_stay fun P t hP =>
            (hinc hpos).1 P ((h.base.holds.mem_find1 hfind P).mpr ⟨t, hP⟩)
          exact hagain (numbered_pidsIncrease (hchanges.whole hwhole) hf ht hfind hp (hinc hpos).1 (hinc hpos).2 hr)
        · obtain ⟨hwhole, hle⟩ := hdec (by omega)
          refine hagain (numbered_pidsDecrease (hchanges.whole hwhole) hfind hp (fun P t hP hn => ?_) hr)
          have := hle P t hP hn
          omega
  · cases hr
    exact ⟨v, T, N, hchanges⟩

/-! ## Every run -/

/-- A message that meets `Event.Steady` keeps the processes numbered. -/
theorem Event.numbered (h : σ.NumberedIn v T sid ct N N) (hf : Fresh f σ) {e : Event ServiceId Pid Start Change}
    (ht : e.about σ = some sid → Threaded ct f) (hs : e.Steady rt f sid σ) (hr : e.apply rt f σ = .ok σ') :
    σ'.NumberedAgain sid ct := by
  by_cases hk : e.about σ = some sid
  · have hct := ht hk
    cases e with
    | monitor k s =>
      cases hk
      exact absurd rfl hs
    | shutdown k =>
      cases hk
      cases hx : Monitor.shutdown sid σ with
      | error e =>
        rw [Event.apply, hx] at hr
        cases hr
      | ok r =>
        rw [Event.apply, hx] at hr
        cases hr
        exact numbered_shutdown h hs hx
    | update L F ok => cases hk
    | change P Entry => cases hk
    | changes k =>
      cases hk
      exact numbered_changes h hf.from hct hs (mapError_eq_ok hr)
    | down P Reason =>
      obtain ⟨x, hx, he⟩ := Option.map_eq_some_iff.mp hk
      obtain ⟨k, s⟩ := x
      obtain rfl : k = sid := he
      exact numbered_down h hf.from hct hx hs hr
    | restart i =>
      obtain ⟨m, hm, he⟩ := Option.map_eq_some_iff.mp hk
      exact numbered_restart h hf.from hct hm he hs hr
  · exact ⟨v, T, N, h.other (Event.only h.base hf hr) hk⟩

/-- The processes of a service are started: the first `n` of `N`. -/
inductive Adding (rt : Runtime Change) (sid : ServiceId) (ct N : Nat) : Nat → System ServiceId Pid Start Change → Prop
  | first {σ : System ServiceId Pid Start Change} : Reachable rt σ → Stopped sid σ → Adding rt sid ct N 0 σ
  | monitor {n : Nat} {σ : System ServiceId Pid Start Change} (s : Service Pid Start) (f : Nat → StartResult Pid) :
      Adding rt sid ct N n σ → n < N → s.processIndex = n → s.countProcess = N → s.countThread = ct → Fresh f σ →
      Threaded ct f → (f 0).pids ≠ [] → Adding rt sid ct N (n + 1) (monitor f sid s σ)
  | other {n : Nat} {σ σ' : System ServiceId Pid Start Change} (e : Event ServiceId Pid Start Change)
      (f : Nat → StartResult Pid) :
      Adding rt sid ct N n σ → e.Enabled σ → Fresh f σ → e.about σ ≠ some sid → e.apply rt f σ = .ok σ' →
      Adding rt sid ct N n σ'

/-- The states of the runs of a service with `ct` threads in each process,
after its processes were started, in which the messages meet a condition. -/
inductive Served (rt : Runtime Change) (sid : ServiceId) (ct : Nat)
    (Cond : (Nat → StartResult Pid) → System ServiceId Pid Start Change → Event ServiceId Pid Start Change → Prop) :
    System ServiceId Pid Start Change → Prop
  | added {N : Nat} {σ : System ServiceId Pid Start Change} : Adding rt sid ct N N σ → Served rt sid ct Cond σ
  | step {σ σ' : System ServiceId Pid Start Change} (e : Event ServiceId Pid Start Change) (f : Nat → StartResult Pid) :
      Served rt sid ct Cond σ → e.Enabled σ → Fresh f σ → (e.about σ = some sid → Threaded ct f) → Cond f σ e →
      e.apply rt f σ = .ok σ' → Served rt sid ct Cond σ'

/-- A process that is stored and was not told to terminate. -/
def Running (sid : ServiceId) (σ : System ServiceId Pid Start Change) (P : Pid) (s : Service Pid Start) : Prop :=
  σ.services.find2 P = some ([sid], s) ∧ P ∉ σ.told

/-- The indexes of the processes that run or wait for a restart are those
below their number, which is the count recorded for each. -/
def IndexesBelowCount (sid : ServiceId) (σ : System ServiceId Pid Start Change) : Prop :=
  ∃ N : Nat, (∀ P s, Running sid σ P s → s.processIndex < N ∧ s.countProcess = N) ∧
    (∀ m ∈ σ.pending sid, m.service.processIndex < N ∧ m.service.countProcess = N) ∧
    (∀ i < N, (∃ P s, Running sid σ P s ∧ s.processIndex = i) ∨ ∃ m ∈ σ.pending sid, m.service.processIndex = i) ∧
    (∀ P Q s t, Running sid σ P s → Running sid σ Q t → s.processIndex = t.processIndex → s.pids = t.pids) ∧
    (∀ P s, Running sid σ P s → ∀ m ∈ σ.pending sid, s.processIndex ≠ m.service.processIndex) ∧
    ((σ.pending sid).map fun m => m.service.processIndex).Nodup

theorem monitor_eq_pidsIncreaseLoop (s : Service Pid Start) :
    monitor f sid s σ = pidsIncreaseLoop f sid s 1 0 s.processIndex σ := by
  rw [monitor, pidsIncreaseLoop]
  cases f 0 <;> rfl

theorem Adding.numbered {n : Nat} (h : Adding rt sid ct N n σ) :
    σ.Numbered sid ct n N ∧ ∀ P t, view sid (registry σ.services) P = some t → P ∉ σ.told := by
  induction h with
  | @first σ hr hs =>
    have hempty : view sid (registry σ.services) = fun _ => none := by
      funext P
      cases hv : view sid (registry σ.services) P with
      | none => rfl
      | some t =>
        obtain ⟨u, hu, -⟩ := view_eq_some.mp hv
        exact absurd hu (hs.stored P u)
    have hpend : σ.pending sid = [] := by
      refine List.eq_nil_iff_forall_not_mem.mpr fun m hm => ?_
      exact hs.restarts m (mem_pending.mp hm).1 (mem_pending.mp hm).2
    refine ⟨⟨hr.base, hr.known.2, ?_, fun c hc => ?_⟩, fun P t hv => ?_⟩
    · rw [hempty, hpend]
      exact Indexed.empty _ _ _
    · rw [threadCount, (find1_none hr.base).mpr hs.stored] at hc
      cases hc
    · rw [hempty] at hv
      cases hv
  | @monitor n σ s f _ hn hi hc hct hf ht hok ih =>
    obtain ⟨h, hstay⟩ := ih
    rw [monitor_eq_pidsIncreaseLoop]
    refine numbered_pidsIncreaseLoop h.base h hi hc hct hf.from ht (fun k _ (hk : k < 0 + 1) => ?_) hstay
    obtain rfl : k = 0 := by omega
    exact hok
  | @other n σ σ' e f _ he hf hk hr ih =>
    have ho := Event.only ih.1.base hf hr
    refine ⟨ih.1.other ho hk, fun P t hv => ?_⟩
    rw [ho.view sid hk] at hv
    intro hP
    refine ih.2 P t hv ((ho.told sid hk P ?_).mp hP)
    rw [hv]
    exact Option.some_ne_none _

theorem Served.numbered (h : Served rt sid ct (fun f σ e => e.Steady rt f sid σ) σ) : σ.NumberedAgain sid ct := by
  induction h with
  | added ha => exact ⟨_, _, _, ha.numbered.1.in_⟩
  | step e f _ _ hf ht hs hr ih =>
    obtain ⟨v, T, N, h⟩ := ih
    exact Event.numbered h hf ht hs hr

/-- While the messages meet `Event.Steady`, the processes of a service that
run or wait for a restart have the indexes below their count. -/
theorem process_indexes (h : Served rt sid ct (fun f σ e => e.Steady rt f sid σ) σ) : IndexesBelowCount sid σ := by
  obtain ⟨v, T, N, h⟩ := h.numbered
  have hi := h.indexed
  have hrun : ∀ {P s}, Running sid σ P s → v P = some s.shape ∧ P ∉ T := fun hP => by
    have hv : view sid (registry σ.services) _ = some _ := view_eq_some.mpr ⟨_, h.base.holds.find2_eq.mp hP.1, rfl⟩
    exact ⟨h.sub hv, fun hPT => hP.2 ((h.told hv).mpr hPT)⟩
  have hslot : ∀ {m}, m ∈ σ.pending sid → m.service.slot ∈ (σ.pending sid).map fun m => m.service.slot :=
    fun hm => List.mem_map.mpr ⟨_, hm, rfl⟩
  refine ⟨N, fun P s hP => hi.live (hrun hP).1 (hrun hP).2, fun m hm => ?_, fun i hiN => ?_, fun P Q s t hP hQ he => ?_,
    fun P s hP m hm => hi.apart _ (hslot hm) (hrun hP).1, ?_⟩
  · obtain ⟨h1, h2, -⟩ := hi.pending _ (hslot hm)
    exact ⟨h1, h2⟩
  · rcases hi.all i hiN with ⟨P, t, hv, he⟩ | ⟨x, hx, he⟩
    · have hn : P ∉ T := fun hP => absurd (hi.leaving hv hP) (by omega)
      obtain ⟨s, hs, rfl⟩ := view_eq_some.mp (h.stored hv hn)
      exact Or.inl ⟨P, s, ⟨h.base.holds.find2_eq.mpr hs, fun hPt => hn ((h.told (h.stored hv hn)).mp hPt)⟩, he⟩
    · obtain ⟨m, hm, rfl⟩ := List.mem_map.mp hx
      exact Or.inr ⟨m, hm, he⟩
  · have hsh := hi.distinct (hrun hP).1 (hrun hQ).1 he
    exact congrArg Shape.pids hsh
  · have hn := hi.pendingNodup
    rwa [List.map_map] at hn

/-! ## An increase while a process waits for a restart -/

theorem stopped_init (sid : ServiceId) : Stopped sid (System.init : System ServiceId Pid Start Change) where
  stored _ _ hP := absurd hP (Option.some_ne_none _).symm
  restarts _ hm := absurd hm List.not_mem_nil

theorem threaded_startOne (P : Pid) : Threaded 1 (startOne P) := by
  intro j hj
  cases j with
  | zero => rfl
  | succ j => exact absurd rfl hj

/-- `pids_increase/6` of a service with one process that is stored. -/
theorem pidsIncrease_single {Count C : Nat} (hf : σ.services.find2 P = some ([sid], s)) (hp : s.pids = [P]) :
    pidsIncrease f sid Count [P] C σ = .ok (pidsIncreaseLoop f sid (recount ((C : Int) + Count) s) Count 0
      (s.processIndex + 1)
      { σ with services := storePids sid (recount ((C : Int) + Count) s) s.pids σ.services }) := by
  have hs : serviceInstance sid σ.services [P] [] = .ok [s] := by
    rw [serviceInstance, hf]
    simp only [ne_eq, not_true_eq_false, if_false, if_pos hp]
    rw [serviceInstance]
    rfl
  rw [pidsIncrease, hs]
  rfl

/-- An increase of a service with one process of one thread that is stored. -/
theorem changes_single {s t : Service Pid Start} {L : List Change} {Count : Nat}
    (hf1 : σ.services.find1 sid = some ([P], t)) (hL : σ.changes sid = some L) (ht : t.countThread = 1)
    (hI : rt.pidsChange L 1 = Count) (hpos : 0 < Count) (hf2 : σ.services.find2 P = some ([sid], s))
    (hp : s.pids = [P]) :
    changes rt f sid σ = .ok (pidsIncreaseLoop f sid (recount (1 + Count) s) Count 0 (s.processIndex + 1)
      { σ with changes := σ.changes.erase sid, services :=
          storePids sid (recount (1 + Count) s) s.pids σ.services }) := by
  have hc : countProcessCurrent [P] 1 = 1 := by simp [countProcessCurrent]
  have h0 : ¬(Count : Int) = 0 := by omega
  have h1 : (Count : Int) > 0 := by omega
  rw [changes, hf1, hL]
  simp only [ht, hc, hI, if_neg h0, if_pos h1, Int.toNat_natCast]
  exact pidsIncrease_single (σ := { σ with changes := σ.changes.erase sid }) hf2 hp

/-- The messages of the changes of the count of processes, of exits and of restarts. -/
def Event.Dynamic : Event ServiceId Pid Start Change → Prop
  | change _ _ => True
  | changes _ => True
  | down _ _ => True
  | restart _ => True
  | _ => False

/-- The second of two processes waits for a delayed restart as one more process
is added: the new one gets the index of the one that waits. -/
theorem index_twice :
    ∃ (rt : Runtime Nat) (σ : System Nat Nat Nat Nat), Served rt 7 1 (fun _ _ e => e.Dynamic) σ ∧
      ¬IndexesBelowCount 7 σ := by
  let rt : Runtime Nat := ⟨fun i => i, fun _ _ => 1⟩
  let s : Nat → Service Nat Nat := fun i => {
    start := 0, processIndex := i, countProcess := 2, countThread := 1, pids := [],
    restartDelay := some ⟨.exponential, 1, 500, 0, by decide, by decide⟩, maxR := 1, maxT := 5 }
  obtain ⟨σ, h, hf1, hf2, hnew, hch, hmon, htold, hm⟩ : ∃ σ : System Nat Nat Nat Nat,
      Served rt 7 1 (fun _ _ e => e.Dynamic) σ ∧ σ.services.find1 7 = some ([1], { s 1 with pids := [2] }) ∧
      σ.services.find2 1 = some ([7], { s 0 with pids := [1] }) ∧ σ.services.find2 3 = none ∧ σ.changes 7 = some [0] ∧
      σ.monitored = [2, 1] ∧ σ.told = [] ∧ σ.restarts = [⟨true, s 1, 7, 2⟩] := by
    have h₂ : Served rt 7 1 (fun _ _ e => e.Dynamic) _ := .added (.monitor (N := 2) (s 1) (startOne 2)
      (.monitor (N := 2) (s 0) (startOne 1) (.first .init (stopped_init 7))
        (by decide) rfl rfl rfl (fresh_startOne List.not_mem_nil) (threaded_startOne 1) (by decide))
      (by decide) rfl rfl rfl (fresh_startOne (by decide)) (threaded_startOne 2) (by decide))
    have h₃ := Served.step (.down 2 .info) (startOne 3) h₂ ⟨by decide, List.not_mem_nil⟩ (fresh_startOne (by decide))
      (fun _ => threaded_startOne 3) trivial rfl
    have h₄ := Served.step (.change 1 0) (startOne 3) h₃ trivial (fresh_startOne (by decide))
      (fun _ => threaded_startOne 3) trivial rfl
    have hL : umerge [1] [2] = [1, 2] := by decide +kernel
    have h1 : (monitor (startOne 2) 7 (s 1) (monitor (startOne 1) 7 (s 0)
        (.init : System Nat Nat Nat Nat))).services.lookup1
        7 = some ([1, 2], { s 1 with pids := [2] }) := by
      rw [← hL]
      rfl
    have h2 : (monitor (startOne 2) 7 (s 1) (monitor (startOne 1) 7 (s 0)
        (.init : System Nat Nat Nat Nat))).services.lookup2
        2 = some ([7], { s 1 with pids := [2] }) := rfl
    exact ⟨_, h₄, Key2Value.find1_erase_self h1 h2 (by decide), rfl, rfl, rfl, rfl, rfl, rfl⟩
  have hr := changes_single (f := startOne 3) hf1 hch rfl (show rt.pidsChange [0] 1 = (1 : Nat) from rfl)
    Nat.one_pos hf2 rfl
  have h₅ := Served.step (.changes 7) (startOne 3) h trivial (fresh_startOne (by rw [hmon]; decide))
    (fun _ => threaded_startOne 3) trivial (congrArg orHalt hr)
  refine ⟨rt, _, h₅, fun hi => ?_⟩
  obtain ⟨N, -, -, -, -, hapart, -⟩ := hi
  refine hapart 3 { s 0 with processIndex := 1, countProcess := 2, pids := [3] } ⟨?_, ?_⟩ ⟨true, s 1, 7, 2⟩ ?_ rfl
  · exact Key2Value.find2_store_new ((Key2Value.find2_store (by decide)).trans hnew)
  · show 3 ∉ σ.told
    rw [htold]
    decide
  · refine mem_pending.mpr ⟨?_, rfl⟩
    show _ ∈ σ.restarts
    rw [hm]
    exact List.mem_cons_self

/-- One process is added to one, and waits for its restart when it has crashed. -/
theorem process_indexes_two :
    ∃ σ : System Nat Nat Nat Nat, σ.monitored = [3, 1] ∧ (σ.pending 7).length = 1 ∧ σ.services.find2 1 ≠ none ∧
      IndexesBelowCount 7 σ := by
  let s : Service Nat Nat := {
    start := 0, processIndex := 0, countProcess := 1, countThread := 1, pids := [],
    restartDelay := some ⟨.exponential, 1, 500, 0, by decide, by decide⟩, maxR := 1, maxT := 5 }
  let rt : Runtime Nat := ⟨fun i => i, fun _ _ => 1⟩
  have h₁ : Served rt 7 1 (fun f σ e => e.Steady rt f 7 σ) _ := .added (.monitor (N := 1) s (startOne 1)
    (.first .init (stopped_init 7)) (by decide) rfl rfl rfl (fresh_startOne List.not_mem_nil) (threaded_startOne 1)
    (by decide))
  have h₂ := Served.step (.change 1 0) (startOne 3) h₁ trivial (fresh_startOne (by decide))
    (fun _ => threaded_startOne 3) trivial rfl
  have h₃ := Served.step (.changes 7) (startOne 3) h₂ trivial (fresh_startOne (by decide))
    (fun _ => threaded_startOne 3) (fun _ Pids t L _ _ => .inr ⟨rfl, fun _ => ⟨fun _ _ => List.not_mem_nil,
      fun j hj => by
        obtain rfl : j = 0 := Nat.lt_one_iff.mp hj
        exact List.cons_ne_nil 3 []⟩, fun hlt => absurd (show (1 : Int) < 0 from hlt) (by decide)⟩)
    (by exact congrArg orHalt (changes_single (P := 1) (t := { s with pids := [1] }) (s := { s with pids := [1] })
      (L := [0]) rfl rfl rfl rfl Nat.one_pos rfl rfl))
  have h₄ := Served.step (.down 3 .info) (startOne 4) h₃ ⟨by decide, List.not_mem_nil⟩ (fresh_startOne (by decide))
    (fun _ => threaded_startOne 4) (fun t ht r hstage => by
      cases ht
      cases hstage
      exact ⟨fun hg => (by cases hg), fun _ => List.not_mem_nil⟩) rfl
  exact ⟨_, rfl, rfl, (by rintro ⟨⟩), process_indexes h₄⟩

end CloudI.Monitor
