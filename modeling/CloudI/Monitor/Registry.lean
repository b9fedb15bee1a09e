import CloudI.Monitor.Server

/-!
# The registry of the monitor

The map that the store of the monitor stands for: the service and the record
of each process. `Base` says that there is one, of processes that are
monitored; `Base.step` that every message keeps it. The lemmas before it say
what each function of the monitor does to the map.
-/

namespace CloudI.Monitor

set_option linter.unusedSectionVars false

variable {ServiceId Pid Start Change : Type} [LinearOrder ServiceId] [LinearOrder Pid]

abbrev Registry (ServiceId Pid Start : Type) := Pid → Option (ServiceId × Service Pid Start)

namespace Registry

/-- The processes have one record. -/
def store (sid : ServiceId) (s : Service Pid Start) (Pids : List Pid) (m : Registry ServiceId Pid Start) :
    Registry ServiceId Pid Start := fun P => if P ∈ Pids then some (sid, s) else m P

/-- The processes are gone. -/
def erase (Pids : List Pid) (m : Registry ServiceId Pid Start) : Registry ServiceId Pid Start :=
  fun P => if P ∈ Pids then none else m P

/-- The processes are of one service, as far as they are stored. -/
def OfService (sid : ServiceId) (Pids : List Pid) (m : Registry ServiceId Pid Start) : Prop :=
  ∀ P ∈ Pids, ∀ k s, m P = some (k, s) → k = sid

variable {m : Registry ServiceId Pid Start} {sid : ServiceId} {s : Service Pid Start} {Pids : List Pid} {P : Pid}

theorem store_of_mem (h : P ∈ Pids) : m.store sid s Pids P = some (sid, s) := if_pos h

theorem store_of_not_mem (h : P ∉ Pids) : m.store sid s Pids P = m P := if_neg h

theorem store_some {k : ServiceId} {t : Service Pid Start} (h : m.store sid s Pids P = some (k, t)) :
    (P ∈ Pids ∧ k = sid ∧ t = s) ∨ (P ∉ Pids ∧ m P = some (k, t)) := by
  by_cases hP : P ∈ Pids
  · rw [store_of_mem hP] at h
    cases h
    exact Or.inl ⟨hP, rfl, rfl⟩
  · rw [store_of_not_mem hP] at h
    exact Or.inr ⟨hP, h⟩

theorem erase_some {k : ServiceId} {t : Service Pid Start} :
    m.erase Pids P = some (k, t) ↔ P ∉ Pids ∧ m P = some (k, t) := by
  by_cases hP : P ∈ Pids
  · rw [erase, if_pos hP]
    exact ⟨fun h => absurd h (Option.some_ne_none _).symm, fun h => absurd hP h.1⟩
  · rw [erase, if_neg hP]
    exact ⟨fun h => ⟨hP, h⟩, fun h => h.2⟩

end Registry

open Registry

/-! ## The records of one service -/

/-- The place of a process among those of its service. -/
structure Slot where
  processIndex : Nat
  countProcess : Int
  countThread : Nat

/-- What the count of processes is about in a record. -/
structure Shape (Pid : Type) extends Slot where
  pids : List Pid

def Service.slot (s : Service Pid Start) : Slot := ⟨s.processIndex, s.countProcess, s.countThread⟩

def Service.shape (s : Service Pid Start) : Shape Pid := ⟨s.slot, s.pids⟩

/-- The records of a service. -/
def view (j : ServiceId) (m : Registry ServiceId Pid Start) : Pid → Option (Shape Pid) := fun P =>
  (m P).bind fun x => if x.1 = j then some x.2.shape else none

theorem view_eq_some {j : ServiceId} {m : Registry ServiceId Pid Start} {P : Pid} {v : Shape Pid} :
    view j m P = some v ↔ ∃ s, m P = some (j, s) ∧ s.shape = v := by
  rw [view]
  cases m P with
  | none => simp
  | some x =>
    obtain ⟨k, s⟩ := x
    by_cases hk : k = j <;> simp [hk]

theorem view_of_ne {k j : ServiceId} {m : Registry ServiceId Pid Start} {P : Pid} {s : Service Pid Start}
    (hP : m P = some (k, s)) (hj : k ≠ j) : view j m P = none := by
  rw [view, hP]
  exact if_neg hj

theorem view_of_none {j : ServiceId} {m : Registry ServiceId Pid Start} {P : Pid} (hP : m P = none) :
    view j m P = none := by
  rw [view, hP]
  rfl

/-- Processes of another service are not seen. -/
theorem view_of_ofService {k j : ServiceId} {m : Registry ServiceId Pid Start} {Pids : List Pid} {P : Pid}
    (ho : OfService k Pids m) (hP : P ∈ Pids) (hj : k ≠ j) : view j m P = none := by
  cases hm : m P with
  | none => exact view_of_none hm
  | some x => exact view_of_ne hm fun he => hj ((ho P hP _ _ hm).symm.trans he)

theorem view_store {k j : ServiceId} {m : Registry ServiceId Pid Start} {Pids : List Pid} {s : Service Pid Start}
    (ho : OfService k Pids m) (hj : k ≠ j) : view j (m.store k s Pids) = view j m := by
  funext P
  by_cases hP : P ∈ Pids
  · rw [view_of_ofService ho hP hj]
    exact view_of_ne (store_of_mem hP) hj
  · rw [view, store_of_not_mem hP, view]

theorem view_erase {k j : ServiceId} {m : Registry ServiceId Pid Start} {Pids : List Pid}
    (ho : OfService k Pids m) (hj : k ≠ j) : view j (m.erase Pids) = view j m := by
  funext P
  by_cases hP : P ∈ Pids
  · rw [view_of_ofService ho hP hj]
    exact view_of_none (if_pos hP)
  · rw [view, Registry.erase, if_neg hP, view]

/-! ## The store -/

theorem holds_storePids {D : Services ServiceId Pid Start} {m : Registry ServiceId Pid Start} {sid : ServiceId}
    {Pids : List Pid} (s : Service Pid Start) (h : D.Holds m) (hs : OfService sid Pids m) :
    (storePids sid s Pids D).Holds (m.store sid s Pids) := by
  induction Pids generalizing D m with
  | nil =>
    have hm : m.store sid s [] = m := funext fun P => store_of_not_mem List.not_mem_nil
    rw [hm]
    exact h
  | cons P Pids ih =>
    have hstore := Key2Value.holds_store h s (hs P List.mem_cons_self)
    have hs' : OfService sid Pids (Function.update m P (some (sid, s))) := by
      intro Q hQ k t hm
      by_cases hQP : Q = P
      · subst hQP
        rw [Function.update_self] at hm
        cases hm
        rfl
      · rw [Function.update_of_ne hQP] at hm
        exact hs Q (List.mem_cons_of_mem P hQ) k t hm
    have hm : Registry.store sid s Pids (Function.update m P (some (sid, s))) = m.store sid s (P :: Pids) := by
      funext Q
      simp only [Registry.store, List.mem_cons, Function.update_apply]
      by_cases hQ : Q ∈ Pids <;> by_cases hQP : Q = P <;> simp [hQ, hQP]
    rw [← hm]
    exact ih hstore hs'

theorem holds_terminateServicePids {D : Services ServiceId Pid Start} {m : Registry ServiceId Pid Start}
    {sid : ServiceId} {Pids : List Pid} (h : D.Holds m) (hs : OfService sid Pids m) :
    (terminateServicePids sid Pids D).Holds (m.erase Pids) := by
  induction Pids generalizing D m with
  | nil =>
    have hm : m.erase [] = m := funext fun P => if_neg List.not_mem_nil
    rw [hm]
    exact h
  | cons P Pids ih =>
    have herase := Key2Value.holds_erase h (hs P List.mem_cons_self)
    have hs' : OfService sid Pids (Function.update m P none) := by
      intro Q hQ k t hm
      by_cases hQP : Q = P
      · subst hQP
        rw [Function.update_self] at hm
        cases hm
      · rw [Function.update_of_ne hQP] at hm
        exact hs Q (List.mem_cons_of_mem P hQ) k t hm
    have hm : Registry.erase Pids (Function.update m P none) = m.erase (P :: Pids) := by
      funext Q
      simp only [Registry.erase, List.mem_cons, Function.update_apply]
      by_cases hQ : Q ∈ Pids <;> by_cases hQP : Q = P <;> simp [hQ, hQP]
    rw [← hm]
    exact ih herase hs'

theorem find1_storePids {D : Services ServiceId Pid Start} {sid j : ServiceId} {Pids : List Pid}
    (s : Service Pid Start) (hj : sid ≠ j) : (storePids sid s Pids D).find1 j = D.find1 j := by
  induction Pids generalizing D with
  | nil => rfl
  | cons P Pids ih => exact ih.trans (Key2Value.find1_store hj)

theorem find1_terminateServicePids {D : Services ServiceId Pid Start} {sid j : ServiceId} {Pids : List Pid}
    (hj : sid ≠ j) : (terminateServicePids sid Pids D).find1 j = D.find1 j := by
  induction Pids generalizing D with
  | nil => rfl
  | cons P Pids ih => exact ih.trans (Key2Value.find1_erase hj)

/-! ## Waiting for the processes -/

theorem terminateServiceWait_ok {OldPid : Option Pid} {Pids Down Down' : List Pid}
    (h : terminateServiceWait OldPid Pids Down = .ok Down') (P : Pid) :
    P ∈ Down' ↔ P ∈ Down ∨ (P ∈ Pids ∧ OldPid ≠ some P) := by
  induction Pids generalizing Down with
  | nil =>
    cases h
    simp
  | cons Q Pids ih =>
    rw [terminateServiceWait] at h
    split at h
    · rename_i hQ
      rw [ih h, List.mem_cons]
      constructor
      · rintro (hd | ⟨hp, hne⟩)
        · exact Or.inl hd
        · exact Or.inr ⟨Or.inr hp, hne⟩
      · rintro (hd | ⟨rfl | hp, hne⟩)
        · exact Or.inl hd
        · exact absurd hQ hne
        · exact Or.inr ⟨hp, hne⟩
    · rename_i hQ
      split at h
      · cases h
      · rw [ih h, List.mem_cons, List.mem_cons]
        constructor
        · rintro ((rfl | hd) | ⟨hp, hne⟩)
          · exact Or.inr ⟨Or.inl rfl, hQ⟩
          · exact Or.inl hd
          · exact Or.inr ⟨Or.inr hp, hne⟩
        · rintro (hd | ⟨rfl | hp, hne⟩)
          · exact Or.inl (Or.inr hd)
          · exact Or.inl (Or.inl rfl)
          · exact Or.inr ⟨hp, hne⟩

/-- It never waits for the processes whose message is still to come. -/
theorem terminateServiceWait_total {OldPid : Option Pid} {Pids Down : List Pid} (hn : Pids.Nodup)
    (h : ∀ P ∈ Pids, OldPid ≠ some P → P ∉ Down) : ∃ Down', terminateServiceWait OldPid Pids Down = .ok Down' := by
  induction Pids generalizing Down with
  | nil => exact ⟨Down, rfl⟩
  | cons Q Pids ih =>
    obtain ⟨hQ, hn⟩ := List.nodup_cons.mp hn
    rw [terminateServiceWait]
    split
    · exact ih hn fun P hP => h P (List.mem_cons_of_mem Q hP)
    · rename_i hne
      rw [if_neg (h Q List.mem_cons_self hne)]
      refine ih hn fun P hP hPo => ?_
      rw [List.mem_cons, not_or]
      exact ⟨fun he => hQ (he ▸ hP), h P (List.mem_cons_of_mem Q hP) hPo⟩

/-! ## The registry of a state -/

/-- The map that a store stands for, if it stands for one. -/
def registry (D : Services ServiceId Pid Start) : Registry ServiceId Pid Start := fun P =>
  match D.find2 P with
  | some ([k], s) => some (k, s)
  | _ => none

theorem registry_eq {D : Services ServiceId Pid Start} {m : Registry ServiceId Pid Start} (h : D.Holds m) :
    registry D = m := by
  funext P
  rw [registry, Key2Value.find2, h.find2]
  cases m P <;> rfl

/-- The records of the processes stored, among the processes `M` that are monitored. -/
structure Consistent (m : Registry ServiceId Pid Start) (M : List Pid) : Prop where
  mem : ∀ {P k s}, m P = some (k, s) → P ∈ s.pids
  monitored : ∀ {P k s Q}, m P = some (k, s) → Q ∈ s.pids → Q ∈ M
  service : ∀ {P k s P' k' s' Q}, m P = some (k, s) → m P' = some (k', s') → Q ∈ s.pids → Q ∈ s'.pids → k = k'

/-- The processes are monitored, and in the records of one service only. -/
def Owned (m : Registry ServiceId Pid Start) (M : List Pid) (sid : ServiceId) (Pids : List Pid) : Prop :=
  ∀ Q ∈ Pids, Q ∈ M ∧ ∀ {P k t}, m P = some (k, t) → Q ∈ t.pids → k = sid

theorem Owned.store {m : Registry ServiceId Pid Start} {M : List Pid} {sid : ServiceId} {Pids : List Pid}
    (h : Owned m M sid Pids) (s : Service Pid Start) (Pids' : List Pid) : Owned (m.store sid s Pids') M sid Pids :=
  fun Q hQ => ⟨(h Q hQ).1, fun hm hQt => by
    rcases store_some hm with ⟨-, rfl, -⟩ | ⟨-, hm⟩
    · rfl
    · exact (h Q hQ).2 hm hQt⟩

namespace Consistent

variable {m : Registry ServiceId Pid Start} {M : List Pid} {sid : ServiceId} {s : Service Pid Start}

theorem owned (h : Consistent m M) {P : Pid} (hP : m P = some (sid, s)) : Owned m M sid s.pids :=
  fun _ hQ => ⟨h.monitored hP hQ, fun hm hQt => h.service hm hP hQt hQ⟩

theorem ofService_owned (h : Consistent m M) {Pids : List Pid} (ho : Owned m M sid Pids) : OfService sid Pids m :=
  fun Q hQ _ _ hm => (ho Q hQ).2 hm (h.mem hm)

theorem ofService (h : Consistent m M) {P : Pid} (hP : m P = some (sid, s)) : OfService sid s.pids m :=
  fun _ hQ _ _ hm => h.service hm hP (h.mem hm) hQ

/-- Processes that are not monitored yet. -/
theorem ofService_fresh (h : Consistent m M) {Pids : List Pid} (hf : ∀ P ∈ Pids, P ∉ M) : OfService sid Pids m :=
  fun _ hP _ _ hm => absurd (h.monitored hm (h.mem hm)) (hf _ hP)

theorem start (h : Consistent m M) (hf : ∀ P ∈ s.pids, P ∉ M) : Consistent (m.store sid s s.pids) (s.pids ++ M) where
  mem hP := by
    rcases store_some hP with ⟨hm, -, rfl⟩ | ⟨-, hm⟩
    · exact hm
    · exact h.mem hm
  monitored hP hQ := by
    rcases store_some hP with ⟨-, -, rfl⟩ | ⟨-, hm⟩
    · exact List.mem_append_left _ hQ
    · exact List.mem_append_right _ (h.monitored hm hQ)
  service hP hP' hQ hQ' := by
    rcases store_some hP with ⟨-, rfl, rfl⟩ | ⟨-, hm⟩ <;> rcases store_some hP' with ⟨-, rfl, rfl⟩ | ⟨-, hm'⟩
    · rfl
    · exact absurd (h.monitored hm' hQ') (hf _ hQ)
    · exact absurd (h.monitored hm hQ) (hf _ hQ')
    · exact h.service hm hm' hQ hQ'

/-- A record of processes of the service. -/
theorem again (h : Consistent m M) (ho : Owned m M sid s.pids) : Consistent (m.store sid s s.pids) M where
  mem hQ := by
    rcases store_some hQ with ⟨hm, -, rfl⟩ | ⟨-, hm⟩
    · exact hm
    · exact h.mem hm
  monitored hQ hR := by
    rcases store_some hQ with ⟨-, -, rfl⟩ | ⟨-, hm⟩
    · exact (ho _ hR).1
    · exact h.monitored hm hR
  service hQ hQ' hR hR' := by
    rcases store_some hQ with ⟨-, rfl, rfl⟩ | ⟨-, hm⟩ <;> rcases store_some hQ' with ⟨-, rfl, rfl⟩ | ⟨-, hm'⟩
    · rfl
    · exact ((ho _ hR).2 hm' hR').symm
    · exact (ho _ hR').2 hm hR
    · exact h.service hm hm' hR hR'

theorem erase (h : Consistent m M) (Pids : List Pid) : Consistent (m.erase Pids) M where
  mem hP := h.mem (erase_some.mp hP).2
  monitored hP := h.monitored (erase_some.mp hP).2
  service hP hP' := h.service (erase_some.mp hP).2 (erase_some.mp hP').2

end Consistent

/-- The store stands for its registry, which is consistent. -/
structure Base (D : Services ServiceId Pid Start) (M : List Pid) : Prop where
  holds : D.Holds (registry D)
  consistent : Consistent (registry D) M

variable {D : Services ServiceId Pid Start} {M : List Pid} {sid : ServiceId} {s : Service Pid Start}

theorem Base.of_holds {m : Registry ServiceId Pid Start} (h : D.Holds m) (hc : Consistent m M) :
    Base D M ∧ registry D = m := by
  have hm := registry_eq h
  refine ⟨⟨?_, ?_⟩, hm⟩
  · rwa [hm]
  · rwa [hm]

theorem base_new : Base (Key2Value.new : Services ServiceId Pid Start) [] ∧
    registry (Key2Value.new : Services ServiceId Pid Start) = fun _ => none :=
  Base.of_holds Key2Value.holds_new
    ⟨fun h => absurd h (Option.some_ne_none _).symm, fun h => absurd h (Option.some_ne_none _).symm,
      fun h => absurd h (Option.some_ne_none _).symm⟩

/-- New processes are stored. -/
theorem Base.start (sid : ServiceId) (h : Base D M) (hf : ∀ P ∈ s.pids, P ∉ M) :
    Base (storePids sid s s.pids D) (s.pids ++ M) ∧
      registry (storePids sid s s.pids D) = (registry D).store sid s s.pids :=
  Base.of_holds (holds_storePids s h.holds (h.consistent.ofService_fresh hf)) (h.consistent.start hf)

/-- Processes of the service are stored again. -/
theorem Base.again (h : Base D M) (ho : Owned (registry D) M sid s.pids) :
    Base (storePids sid s s.pids D) M ∧
      registry (storePids sid s s.pids D) = (registry D).store sid s s.pids :=
  Base.of_holds (holds_storePids s h.holds (h.consistent.ofService_owned ho)) (h.consistent.again ho)

/-- Processes of the service are erased. -/
theorem Base.erase (h : Base D M) {Pids : List Pid} (ho : OfService sid Pids (registry D)) :
    Base (terminateServicePids sid Pids D) M ∧
      registry (terminateServicePids sid Pids D) = (registry D).erase Pids :=
  Base.of_holds (holds_terminateServicePids h.holds ho) (h.consistent.erase Pids)

theorem Base.find2 (h : Base D M) {P : Pid} {L : List ServiceId} (hf : D.find2 P = some (L, s)) :
    ∃ k, L = [k] ∧ registry D P = some (k, s) := by
  rw [Key2Value.find2, h.holds.find2] at hf
  obtain ⟨⟨k, t⟩, hx, he⟩ := Option.map_eq_some_iff.mp hf
  cases he
  exact ⟨k, rfl, hx⟩

theorem Base.ofService_find1 (h : Base D M) {Pids : List Pid} (hf : D.find1 sid = some (Pids, s)) :
    OfService sid Pids (registry D) := by
  intro P hP j t hm
  obtain ⟨s', hs'⟩ := (h.holds.mem_find1 hf P).mp hP
  cases hs'.symm.trans hm
  rfl

/-! ## The functions -/

theorem mem_keymerge {s t : Service Pid Start} {Results : List (Service Pid Start)} :
    t ∈ keymerge s Results ↔ t = s ∨ t ∈ Results := by
  induction Results with
  | nil => simp [keymerge]
  | cons r Results ih =>
    rw [keymerge]
    split
    · rw [List.mem_cons, ih, List.mem_cons]
      tauto
    · rw [List.mem_cons]

/-- The records found are those of processes stored. -/
theorem mem_serviceInstance {Pids : List Pid} {Results ServiceL : List (Service Pid Start)}
    (h : serviceInstance sid D Pids Results = .ok ServiceL) {s : Service Pid Start} (hs : s ∈ ServiceL) :
    s ∈ Results ∨ ∃ P ∈ Pids, D.find2 P = some ([sid], s) := by
  fun_induction serviceInstance sid D Pids Results with
  | case1 Results =>
    cases h
    exact Or.inl hs
  | case2 Results P Pids k t hk hf => cases h
  | case3 Results P Pids k t hf hk hp ih =>
    obtain rfl := not_not.mp hk
    rcases ih h with hm | ⟨Q, hQ, hf'⟩
    · rcases mem_keymerge.mp hm with rfl | hm
      · exact Or.inr ⟨P, List.mem_cons_self, hf⟩
      · exact Or.inl hm
    · exact Or.inr ⟨Q, List.mem_cons_of_mem P hQ, hf'⟩
  | case4 Results P Pids k t hf hk hp ih =>
    obtain rfl := not_not.mp hk
    rcases ih h with hm | ⟨Q, hQ, hf'⟩
    · rcases mem_keymerge.mp hm with rfl | hm
      · exact Or.inr ⟨P, List.mem_cons_self, hf⟩
      · exact Or.inl hm
    · exact Or.inr ⟨Q, List.mem_cons_of_mem P ((List.diff_sublist Pids t.pids).subset hQ), hf'⟩
  | case5 => cases h

theorem Base.mem_serviceInstance (h : Base D M) {Pids : List Pid} {ServiceL : List (Service Pid Start)}
    (hr : serviceInstance sid D Pids [] = .ok ServiceL) {s : Service Pid Start} (hs : s ∈ ServiceL) :
    ∃ P ∈ Pids, registry D P = some (sid, s) := by
  rcases Monitor.mem_serviceInstance hr hs with hm | ⟨P, hP, hf⟩
  · cases hm
  · obtain ⟨k, hk, hreg⟩ := h.find2 hf
    cases hk
    exact ⟨P, hP, hreg⟩

/-- The records of a list, with another count of processes. -/
def recount (CountProcess : Int) (s : Service Pid Start) : Service Pid Start := { s with countProcess := CountProcess }

theorem pidsUpdate_fst (CountProcess : Int) (ServiceL Output : List (Service Pid Start)) :
    (pidsUpdate sid CountProcess ServiceL Output D).1 = (ServiceL.map (recount CountProcess)).reverse ++ Output := by
  induction ServiceL generalizing Output D with
  | nil => rfl
  | cons s ServiceL ih =>
    rw [pidsUpdate, ih, List.map_cons, List.reverse_cons, List.append_assoc]
    rfl

/-- The processes of the records have one of them, with the new count, and the others are as before. -/
def Recounted (sid : ServiceId) (CountProcess : Int) (ServiceL : List (Service Pid Start))
    (m m' : Registry ServiceId Pid Start) : Prop :=
  ∀ P, ((∀ s ∈ ServiceL, P ∉ s.pids) ∧ m' P = m P) ∨
    ∃ s ∈ ServiceL, P ∈ s.pids ∧ m' P = some (sid, recount CountProcess s)

theorem Base.pidsUpdate (h : Base D M) (CountProcess : Int) {ServiceL : List (Service Pid Start)}
    (ho : ∀ s ∈ ServiceL, Owned (registry D) M sid s.pids) (Output : List (Service Pid Start)) :
    Base (pidsUpdate sid CountProcess ServiceL Output D).2 M ∧
      Recounted sid CountProcess ServiceL (registry D) (registry
          (pidsUpdate sid CountProcess ServiceL Output D).2) := by
  induction ServiceL generalizing Output D with
  | nil => exact ⟨h, fun P => Or.inl ⟨fun s hs => absurd hs List.not_mem_nil, rfl⟩⟩
  | cons s ServiceL ih =>
    obtain ⟨h₁, hreg⟩ := @Base.again _ _ _ _ _ D M sid (recount CountProcess s) h (ho s List.mem_cons_self)
    have ho₁ : ∀ t ∈ ServiceL, Owned (registry (storePids sid (recount CountProcess s) s.pids D)) M sid t.pids := by
      intro t ht
      rw [show registry (storePids sid (recount CountProcess s) s.pids D) = _ from hreg]
      exact (ho t (List.mem_cons_of_mem s ht)).store _ _
    obtain ⟨h₂, hrec⟩ := ih h₁ ho₁ (recount CountProcess s :: Output)
    refine ⟨h₂, fun P => ?_⟩
    rcases hrec P with ⟨hnot, hP⟩ | ⟨t, ht, hPt, hP⟩
    · rw [hreg] at hP
      by_cases hPs : P ∈ s.pids
      · exact Or.inr ⟨s, List.mem_cons_self, hPs, hP.trans (store_of_mem hPs)⟩
      · refine Or.inl ⟨fun t ht => ?_, hP.trans (store_of_not_mem hPs)⟩
        rcases List.mem_cons.mp ht with rfl | ht
        · exact hPs
        · exact hnot t ht
    · exact Or.inr ⟨t, List.mem_cons_of_mem s ht, hPt, hP⟩

/-! ## The messages -/

section

variable {rt : Runtime Change} {f : Nat → StartResult Pid} {k : ServiceId}
  {σ σ' σ'' : System ServiceId Pid Start Change}

/-- The count of threads that is found with a service. -/
def threadCount (j : ServiceId) (D : Services ServiceId Pid Start) : Option Nat :=
  (D.find1 j).map fun x => x.2.countThread

/-- The restarts of a service that are on their way. -/
def System.pending (j : ServiceId) (σ : System ServiceId Pid Start Change) : List (Restart ServiceId Pid Start) :=
  σ.restarts.filter fun m => m.serviceId = j

theorem mem_pending {j : ServiceId} {m : Restart ServiceId Pid Start} :
    m ∈ σ.pending j ↔ m ∈ σ.restarts ∧ m.serviceId = j := by
  rw [System.pending, List.mem_filter, decide_eq_true_eq]

/-- Only the service `k` is touched. -/
structure Only (k : Option ServiceId) (σ σ' : System ServiceId Pid Start Change) : Prop where
  base : Base σ'.services σ'.monitored
  monitored : ∀ P ∈ σ.monitored, P ∈ σ'.monitored
  view : ∀ j, k ≠ some j → view j (registry σ'.services) = view j (registry σ.services)
  threadCount : ∀ j, k ≠ some j → threadCount j σ'.services = threadCount j σ.services
  pending : ∀ j, k ≠ some j → σ'.pending j = σ.pending j
  starts : ∀ j, k ≠ some j → σ'.starts.count j = σ.starts.count j
  told : ∀ j, k ≠ some j → ∀ P, Monitor.view j (registry σ.services) P ≠ none → (P ∈ σ'.told ↔ P ∈ σ.told)
  known : (∀ P ∈ σ.told, P ∈ σ.monitored) → ∀ P ∈ σ'.told, P ∈ σ'.monitored

theorem Only.refl (h : Base σ.services σ.monitored) (k : Option ServiceId) : Only k σ σ :=
  ⟨h, fun _ h => h, fun _ _ => rfl, fun _ _ => rfl, fun _ _ => rfl, fun _ _ => rfl, fun _ _ _ _ => Iff.rfl,
    fun h => h⟩

theorem Only.trans {k : Option ServiceId} (h : Only k σ σ') (h' : Only k σ' σ'') : Only k σ σ'' where
  base := h'.base
  monitored P hP := h'.monitored P (h.monitored P hP)
  view j hj := (h'.view j hj).trans (h.view j hj)
  threadCount j hj := (h'.threadCount j hj).trans (h.threadCount j hj)
  pending j hj := (h'.pending j hj).trans (h.pending j hj)
  starts j hj := (h'.starts j hj).trans (h.starts j hj)
  told j hj P hP := (h'.told j hj P (by rwa [h.view j hj])).trans (h.told j hj P hP)
  known hk := h'.known (h.known hk)

/-- The restarts on their way are those before, but for those of the service. -/
def SamePending (k : ServiceId) (σ σ' : System ServiceId Pid Start Change) : Prop :=
  ∀ j, k ≠ j → σ'.pending j = σ.pending j

theorem SamePending.of_eq (h : σ'.restarts = σ.restarts) : SamePending k σ σ' := by
  intro j _
  rw [System.pending, System.pending, h]

theorem SamePending.cons {m : Restart ServiceId Pid Start} (h : σ'.restarts = m :: σ.restarts) (hm : m.serviceId = k) :
    SamePending k σ σ' := by
  intro j hj
  rw [System.pending, System.pending, h, List.filter_cons_of_neg]
  rw [hm, decide_eq_true_eq]
  exact hj

theorem filter_eraseIdx {α : Type} {p : α → Bool} {l : List α} {i : Nat} {a : α} (hi : l[i]? = some a)
    (ha : p a = false) : (l.eraseIdx i).filter p = l.filter p := by
  induction l generalizing i with
  | nil => cases hi
  | cons b l ih =>
    cases i with
    | zero =>
      cases hi
      rw [List.eraseIdx_cons_zero, List.filter_cons_of_neg]
      rw [ha]
      exact Bool.false_ne_true
    | succ i =>
      rw [List.eraseIdx_cons_succ, List.filter_cons, List.filter_cons, ih hi]

theorem SamePending.eraseIdx {i : Nat} {m : Restart ServiceId Pid Start} (hi : σ.restarts[i]? = some m)
    (h : σ'.restarts = σ.restarts.eraseIdx i) (hm : m.serviceId = k) : SamePending k σ σ' := by
  intro j hj
  rw [System.pending, System.pending, h]
  refine filter_eraseIdx hi ?_
  rw [hm]
  exact decide_eq_false hj

/-- New processes of the service are stored. -/
theorem Only.start (h : Base σ.services σ.monitored) {s : Service Pid Start} (hf : ∀ P ∈ s.pids, P ∉ σ.monitored)
    (hserv : σ'.services = storePids k s s.pids σ.services) (hmon : σ'.monitored = s.pids ++ σ.monitored)
    (hrest : SamePending k σ σ') (hst : σ'.starts = k :: σ.starts) (htold : σ'.told = σ.told) :
    Only (some k) σ σ' := by
  have ho : OfService k s.pids (registry σ.services) := h.consistent.ofService_fresh hf
  obtain ⟨hb, hreg⟩ := Base.start k h hf
  rw [← hserv] at hreg
  have hne : ∀ {j}, some k ≠ some j → k ≠ j := fun hj he => hj (congrArg some he)
  refine ⟨?_, fun P hP => ?_, fun j hj => ?_, fun j hj => ?_, fun j hj => hrest j (hne hj), fun j hj => ?_,
    fun j hj P _ => ?_, fun hk P hP => ?_⟩
  · rw [hserv, hmon]
    exact hb
  · rw [hmon]
    exact List.mem_append_right _ hP
  · rw [hreg]
    exact view_store ho (hne hj)
  · show Option.map _ (σ'.services.find1 j) = Option.map _ (σ.services.find1 j)
    rw [hserv, find1_storePids s (hne hj)]
  · rw [hst, List.count_cons_of_ne (hne hj)]
  · rw [htold]
  · rw [hmon]
    rw [htold] at hP
    exact List.mem_append_right _ (hk P hP)

/-- A call of the start function failed, or none was made. -/
theorem Only.failed (h : Base σ.services σ.monitored) (hserv : σ'.services = σ.services)
    (hmon : σ'.monitored = σ.monitored) (hrest : SamePending k σ σ')
    (hst : σ'.starts = σ.starts ∨ σ'.starts = k :: σ.starts) (htold : σ'.told = σ.told) : Only (some k) σ σ' := by
  have hne : ∀ {j}, some k ≠ some j → k ≠ j := fun hj he => hj (congrArg some he)
  refine ⟨?_, fun P hP => ?_, fun j hj => ?_, fun j hj => ?_, fun j hj => hrest j (hne hj), fun j hj => ?_,
    fun j hj P _ => ?_, fun hk P hP => ?_⟩
  · rw [hserv, hmon]
    exact h
  · rwa [hmon]
  · rw [hserv]
  · rw [hserv]
  · rcases hst with hst | hst
    · rw [hst]
    · rw [hst, List.count_cons_of_ne (hne hj)]
  · rw [htold]
  · rw [hmon]
    rw [htold] at hP
    exact hk P hP

/-- Processes of the service are erased. -/
theorem Only.erase (h : Base σ.services σ.monitored) {Pids : List Pid} (ho : OfService k Pids (registry σ.services))
    (hserv : σ'.services = terminateServicePids k Pids σ.services) (hmon : σ'.monitored = σ.monitored)
    (hrest : σ'.restarts = σ.restarts) (hst : σ'.starts = σ.starts) (htold : σ'.told = σ.told) :
    Only (some k) σ σ' := by
  obtain ⟨hb, hreg⟩ := h.erase ho
  rw [← hserv] at hreg hb
  have hne : ∀ {j}, some k ≠ some j → k ≠ j := fun hj he => hj (congrArg some he)
  refine ⟨?_, fun P hP => ?_, fun j hj => ?_, fun j hj => ?_, fun j hj => SamePending.of_eq hrest j (hne hj),
    fun j hj => ?_, fun j hj P _ => ?_, fun hk P hP => ?_⟩
  · rw [hmon]
    exact hb
  · rwa [hmon]
  · rw [hreg]
    exact view_erase ho (hne hj)
  · show Option.map _ (σ'.services.find1 j) = Option.map _ (σ.services.find1 j)
    rw [hserv, find1_terminateServicePids (hne hj)]
  · rw [hst]
  · rw [htold]
  · rw [hmon]
    rw [htold] at hP
    exact hk P hP

theorem terminateService_ok {Pids : List Pid} {OldPid : Option Pid}
    (hr : terminateService k Pids OldPid σ = .ok σ') :
    ∃ Down, terminateServiceWait OldPid Pids σ.down = .ok Down ∧
      σ' = { σ with services := terminateServicePids k Pids σ.services, down := Down } := by
  obtain ⟨Down, hw, hr⟩ := bind_eq_ok hr
  cases hr
  exact ⟨Down, hw, rfl⟩

theorem terminateService_only (h : Base σ.services σ.monitored) {Pids : List Pid} {OldPid : Option Pid}
    (ho : OfService k Pids (registry σ.services)) (hr : terminateService k Pids OldPid σ = .ok σ') :
    Only (some k) σ σ' := by
  obtain ⟨Down, -, rfl⟩ := terminateService_ok hr
  exact Only.erase h ho rfl rfl rfl rfl rfl

/-- The calls of the start function from the `j`-th on return new processes. -/
structure FreshFrom (f : Nat → StartResult Pid) (j : Nat) (M : List Pid) : Prop where
  nodup : ∀ i, (f i).pids.Nodup
  new : ∀ i, j ≤ i → ∀ P ∈ (f i).pids, P ∉ M
  apart : ∀ i i', i ≠ i' → ∀ P ∈ (f i).pids, P ∉ (f i').pids

theorem Fresh.from (h : Fresh f σ) : FreshFrom f 0 σ.monitored := ⟨h.nodup, fun i _ => h.new i, h.apart⟩

theorem FreshFrom.next {j : Nat} {M : List Pid} (h : FreshFrom f j M) : FreshFrom f (j + 1) ((f j).pids ++ M) where
  nodup := h.nodup
  new i hi P hP hm := by
    rcases List.mem_append.mp hm with hm | hm
    · exact h.apart i j (by omega) P hP hm
    · exact h.new i (by omega) P hP hm
  apart := h.apart

theorem FreshFrom.skip {j : Nat} {M : List Pid} (h : FreshFrom f j M) : FreshFrom f (j + 1) M where
  nodup := h.nodup
  new i hi := h.new i (by omega)
  apart := h.apart

theorem monitor_only (h : Base σ.services σ.monitored) (hf : FreshFrom f 0 σ.monitored) (s : Service Pid Start) :
    Only (some k) σ (monitor f k s σ) := by
  have hnew := hf.new 0 le_rfl
  unfold monitor
  split
  · rename_i Pid Pids he
    rw [he] at hnew
    refine Only.start h ?_ rfl rfl (.of_eq rfl) rfl rfl
    exact hnew
  · exact Only.failed h rfl rfl (.of_eq rfl) (Or.inr rfl) rfl

theorem pidsIncreaseLoop_only (s : Service Pid Start) {Count j ProcessIndex : Nat}
    (h : Base σ.services σ.monitored) (hf : FreshFrom f j σ.monitored) :
    Only (some k) σ (pidsIncreaseLoop f k s Count j ProcessIndex σ) := by
  induction Count generalizing j ProcessIndex σ with
  | zero => exact Only.refl h _
  | succ Count ih =>
    have hnew := hf.new j le_rfl
    have hnext := hf.next
    rw [pidsIncreaseLoop]
    cases he : f j with
    | ok Pid Pids =>
      rw [he] at hnew hnext
      have ho : Only (some k) σ { σ with
          services := storePids k { s with processIndex := ProcessIndex, pids := Pid :: Pids,
                                           restartCount := 0, restartTimes := [] } (Pid :: Pids) σ.services
          monitored := Pid :: Pids ++ σ.monitored
          starts := k :: σ.starts } :=
        Only.start (s := { s with processIndex := ProcessIndex, pids := Pid :: Pids, restartCount := 0,
                                  restartTimes := [] }) h hnew rfl rfl (.of_eq rfl) rfl rfl
      exact ho.trans (ih ho.base hnext)
    | error =>
      have ho : Only (some k) σ { σ with starts := k :: σ.starts } :=
          Only.failed h rfl rfl (.of_eq rfl) (Or.inr rfl) rfl
      exact ho.trans (ih h hf.skip)

theorem pidsDecreaseLoop_suffix {Count : Nat} {ServiceL ServiceL' : List (Service Pid Start)} {Told Told' : List Pid}
    (hr : pidsDecreaseLoop Count ServiceL Told = .ok (ServiceL', Told')) :
    ServiceL' = ServiceL.drop Count ∧ Told' = ((ServiceL.take Count).reverse.map Service.pids).flatten ++ Told ∧
      Count ≤ ServiceL.length := by
  induction Count generalizing ServiceL Told with
  | zero =>
    cases hr
    exact ⟨rfl, rfl, Nat.zero_le _⟩
  | succ Count ih =>
    cases ServiceL with
    | nil => cases hr
    | cons s ServiceL =>
      obtain ⟨h1, h2, h3⟩ := ih hr
      refine ⟨h1, ?_, Nat.succ_le_succ h3⟩
      rw [h2, List.take_succ_cons, List.reverse_cons, List.map_append, List.flatten_append, List.append_assoc]
      simp

theorem Base.owned_serviceInstance (h : Base D M) {Pids : List Pid} {ServiceL : List (Service Pid Start)}
    (hr : serviceInstance sid D Pids [] = .ok ServiceL) : ∀ s ∈ ServiceL, Owned (registry D) M sid s.pids := by
  intro s hs
  obtain ⟨P, -, hP⟩ := h.mem_serviceInstance hr hs
  exact h.consistent.owned hP

theorem view_recounted {m m' : Registry ServiceId Pid Start} {C : Int} {ServiceL : List (Service Pid Start)}
    {j : ServiceId} (hr : Recounted k C ServiceL m m') (ho : ∀ s ∈ ServiceL, OfService k s.pids m) (hj : k ≠ j) :
    view j m' = view j m := by
  funext P
  rcases hr P with ⟨-, he⟩ | ⟨s, hs, hP, he⟩
  · rw [view, he, view]
  · rw [view_of_ofService (ho s hs) hP hj]
    exact view_of_ne he hj

theorem find1_pidsUpdate {j : ServiceId} (hj : k ≠ j) (C : Int) (ServiceL Output : List (Service Pid Start)) :
    (pidsUpdate k C ServiceL Output D).2.find1 j = D.find1 j := by
  induction ServiceL generalizing D Output with
  | nil => rfl
  | cons s ServiceL ih => exact (ih _).trans (find1_storePids _ hj)

/-- `pids_update/4` touches the service only, and its processes are told to terminate. -/
theorem Only.recount (h : Base σ.services σ.monitored) (C : Int) {ServiceL : List (Service Pid Start)}
    (ho : ∀ s ∈ ServiceL, Owned (registry σ.services) σ.monitored k s.pids)
    (hserv : σ'.services = (pidsUpdate k C ServiceL [] σ.services).2) (hmon : σ'.monitored = σ.monitored)
    (hrest : σ'.restarts = σ.restarts) (hst : σ'.starts = σ.starts) {Told : List Pid}
    (htold : σ'.told = Told ++ σ.told) (hown : Owned (registry σ.services) σ.monitored k Told) :
    Only (some k) σ σ' := by
  obtain ⟨hb, hrec⟩ := h.pidsUpdate C ho []
  rw [← hserv] at hb hrec
  have hne : ∀ {j}, some k ≠ some j → k ≠ j := fun hj he => hj (congrArg some he)
  refine ⟨?_, fun P hP => ?_, fun j hj => ?_, fun j hj => ?_, fun j hj => SamePending.of_eq hrest j (hne hj),
    fun j hj => ?_, fun j hj P hP => ?_, fun hk P hP => ?_⟩
  · rw [hmon]
    exact hb
  · rwa [hmon]
  · exact view_recounted hrec (fun s hs => h.consistent.ofService_owned (ho s hs)) (hne hj)
  · show Option.map _ (σ'.services.find1 j) = Option.map _ (σ.services.find1 j)
    rw [hserv, find1_pidsUpdate (hne hj)]
  · rw [hst]
  · rw [htold, List.mem_append, or_iff_right]
    exact fun hT => hP (view_of_ofService (h.consistent.ofService_owned hown) hT (hne hj))
  · rw [hmon]
    rw [htold] at hP
    exact (List.mem_append.mp hP).elim (fun hT => (hown P hT).1) (hk P)

theorem pidsIncrease_only (h : Base σ.services σ.monitored) (hf : FreshFrom f 0 σ.monitored) {Count C : Nat}
    {OldPids : List Pid} (hr : pidsIncrease f k Count OldPids C σ = .ok σ') : Only (some k) σ σ' := by
  obtain ⟨ServiceL, hs, hr⟩ := bind_eq_ok hr
  have ho := h.owned_serviceInstance hs
  have hfst := @pidsUpdate_fst _ _ _ _ _ σ.services k ((C : Int) + Count) ServiceL []
  obtain ⟨hb, -⟩ := h.pidsUpdate ((C : Int) + Count) ho []
  have honly : Only (some k) σ { σ with services := (pidsUpdate k ((C : Int) + Count) ServiceL [] σ.services).2 } :=
    Only.recount h _ ho rfl rfl rfl rfl (List.nil_append _).symm fun Q hQ => absurd hQ List.not_mem_nil
  cases hp : pidsUpdate k ((C : Int) + Count) ServiceL [] σ.services with
  | mk NewServiceL NewServices =>
    rw [hp] at hr honly
    cases NewServiceL with
    | nil => cases hr
    | cons s NewServiceL =>
      cases hr
      exact honly.trans (pidsIncreaseLoop_only s honly.base hf)

theorem pidsDecrease_only (h : Base σ.services σ.monitored) {Count C : Nat} {OldPids : List Pid}
    (hr : pidsDecrease k Count OldPids C σ = .ok σ') : Only (some k) σ σ' := by
  obtain ⟨ServiceL, hs, hr⟩ := bind_eq_ok hr
  obtain ⟨⟨NewServiceL, Told⟩, hd, hr⟩ := bind_eq_ok hr
  obtain ⟨rfl, rfl, -⟩ := pidsDecreaseLoop_suffix hd
  have ho := h.owned_serviceInstance hs
  cases hr
  refine Only.recount h ((C : Int) - Count) (fun s hs' => ho s ?_) rfl rfl rfl rfl rfl fun Q hQ => ?_
  · exact List.mem_reverse.mp (List.mem_of_mem_drop hs')
  · obtain ⟨L, hL, hQ⟩ := List.mem_flatten.mp hQ
    obtain ⟨s, hs', rfl⟩ := List.mem_map.mp hL
    exact ho s (List.mem_reverse.mp (List.mem_of_mem_take (List.mem_reverse.mp hs'))) Q hQ

theorem changes_only (h : Base σ.services σ.monitored) (hf : FreshFrom f 0 σ.monitored)
    (hr : changes rt f k σ = .ok σ') : Only (some k) σ σ' := by
  have herase : Only (some k) σ { σ with changes := σ.changes.erase k } :=
    Only.failed h rfl rfl (.of_eq rfl) (Or.inl rfl) rfl
  unfold changes at hr
  simp only at hr
  split at hr
  · split at hr
    · cases hr
    · split at hr
      · cases hr
        exact herase
      · split at hr
        · exact herase.trans (pidsIncrease_only herase.base hf hr)
        · exact herase.trans (pidsDecrease_only herase.base hr)
  · cases hr
    exact herase

theorem shutdown_only (h : Base σ.services σ.monitored) {r : Option (List Pid) × System ServiceId Pid Start Change}
    (hr : shutdown k σ = .ok r) : Only (some k) σ r.2 := by
  unfold shutdown at hr
  split at hr
  · rename_i Pids s hf
    obtain ⟨σ', ht, hr⟩ := bind_eq_ok hr
    cases hr
    exact terminateService_only h (h.ofService_find1 hf) ht
  · cases hr
    exact Only.refl h _

theorem restartDone_only (h : Base σ.services σ.monitored) (hf : FreshFrom f 0 σ.monitored) (P : Pid)
    (r : Nat × Outcome Pid Start) : Only (some k) σ (restartDone f k P r σ) := by
  have hnew := hf.new 0 le_rfl
  obtain ⟨j, o⟩ := r
  cases o with
  | apply t s =>
    unfold restartDone
    simp only
    split
    · rename_i Pid Pids he
      rw [he] at hnew
      exact Only.start (s := { s with pids := Pid :: Pids }) h hnew rfl rfl (.of_eq rfl) rfl rfl
    · exact Only.failed h rfl rfl (.cons rfl rfl) (Or.inr rfl) rfl
  | stage3Async d s => exact Only.failed h rfl rfl (.cons rfl rfl) (Or.inl rfl) rfl
  | maxRestarts => exact Only.failed h rfl rfl (.of_eq rfl) (Or.inl rfl) rfl

/-- The registry after a change of the records that leaves the processes in them as they are. -/
structure Changed (m m' : Registry ServiceId Pid Start) : Prop where
  some : ∀ {P k s'}, m' P = some (k, s') → ∃ s, m P = some (k, s) ∧ s' = { s with start := s'.start }
  none : ∀ {P}, m' P = none → m P = none

theorem Changed.refl (m : Registry ServiceId Pid Start) : Changed m m := ⟨fun h => ⟨_, h, rfl⟩, fun h => h⟩

theorem Changed.trans {m m' m'' : Registry ServiceId Pid Start} (h : Changed m m') (h' : Changed m' m'') :
    Changed m m'' where
  some hP := by
    obtain ⟨s', hs', he⟩ := h'.some hP
    obtain ⟨s, hs, he'⟩ := h.some hs'
    refine ⟨s, hs, ?_⟩
    rw [he, he']
  none hP := h.none (h'.none hP)

theorem Changed.consistent {m m' : Registry ServiceId Pid Start} (h : Changed m m') {M : List Pid}
    (hc : Consistent m M) : Consistent m' M where
  mem hP := by
    obtain ⟨s, hs, he⟩ := h.some hP
    rw [he]
    exact hc.mem (s := s) hs
  monitored hP hQ := by
    obtain ⟨s, hs, he⟩ := h.some hP
    rw [he] at hQ
    exact hc.monitored hs hQ
  service hP hP' hQ hQ' := by
    obtain ⟨s, hs, he⟩ := h.some hP
    obtain ⟨s', hs', he'⟩ := h.some hP'
    rw [he] at hQ
    rw [he'] at hQ'
    exact hc.service hs hs' hQ hQ'

theorem Changed.view {m m' : Registry ServiceId Pid Start} (h : Changed m m') (j : ServiceId) :
    view j m' = view j m := by
  funext P
  cases hm' : m' P with
  | none => rw [Monitor.view, Monitor.view, hm', h.none hm']
  | some x =>
    obtain ⟨k, s'⟩ := x
    obtain ⟨s, hs, he⟩ := h.some hm'
    rw [Monitor.view, Monitor.view, hm', hs, he]
    rfl

theorem foldlM_update1 {F : Start → Start} {L : List ServiceId} {D D' : Services ServiceId Pid Start} {M : List Pid}
    (h : Base D M) (hr : L.foldlM (fun D k => D.update1 k fun s => { s with start := F s.start }) D = .ok D') :
    Base D' M ∧ Changed (registry D) (registry D') ∧ ∀ j, threadCount j D' = threadCount j D := by
  induction L generalizing D with
  | nil =>
    cases hr
    exact ⟨h, .refl _, fun _ => rfl⟩
  | cons k L ih =>
    rw [List.foldlM_cons] at hr
    obtain ⟨D₁, h₁, hr⟩ := bind_eq_ok hr
    have hholds := Key2Value.holds_update1 h.holds h₁
    have hch : Changed (registry D) fun P => (registry D P).map fun x =>
        (x.1, if x.1 = k then { x.2 with start := F x.2.start } else x.2) := by
      refine ⟨fun {P j s'} hP => ?_, fun {P} hP => Option.map_eq_none_iff.mp hP⟩
      obtain ⟨⟨j', s⟩, hs, he⟩ := Option.map_eq_some_iff.mp hP
      cases he
      refine ⟨s, hs, ?_⟩
      split <;> rfl
    obtain ⟨hb, hreg⟩ := Base.of_holds hholds (hch.consistent h.consistent)
    obtain ⟨hb', hch', ht⟩ := ih hb hr
    rw [hreg] at hch'
    exact ⟨hb', hch.trans hch', fun j => (ht j).trans (Key2Value.find1_update1 h₁ Service.countThread (fun _ => rfl) j)⟩

/-- An update changes what the processes are started with the next time. -/
theorem update_spec (h : Base σ.services σ.monitored) {L : List ServiceId} {F : Start → Start} {ok : Bool}
    (hr : update L F ok σ = .ok σ') : Base σ'.services σ'.monitored ∧
      Changed (registry σ.services) (registry σ'.services) ∧
      (∀ j, threadCount j σ'.services = threadCount j σ.services) ∧ ∃ D, σ' = { σ with services := D } := by
  unfold update at hr
  split at hr
  · obtain ⟨D, hD, hr⟩ := bind_eq_ok hr
    cases hr
    obtain ⟨hb, hch, ht⟩ := foldlM_update1 h hD
    exact ⟨hb, hch, ht, D, rfl⟩
  · cases hr
    exact ⟨h, .refl _, fun _ => rfl, _, rfl⟩

theorem change_spec {P : Pid} {Entry : Change} (hr : change P Entry σ = .ok σ') :
    ∃ Changes, σ' = { σ with changes := Changes } := by
  unfold change at hr
  split at hr
  · cases hr
    exact ⟨_, rfl⟩
  · cases hr
  · cases hr
    exact ⟨σ.changes, rfl⟩

theorem downInfo_only (h : Base σ.services σ.monitored) (hf : FreshFrom f 0 σ.monitored) {P : Pid} {Reason : ExitReason}
    (hr : downInfo rt f P Reason σ = .ok σ') :
    (registry σ.services P = none ∧ σ' = { σ with down := P :: σ.down }) ∨
    ∃ k s, registry σ.services P = some (k, s) ∧ Only (some k) σ σ' := by
  unfold downInfo at hr
  simp only at hr
  split at hr
  · rename_i k s hfind
    obtain ⟨k', hk, hreg⟩ := h.find2 hfind
    cases hk
    refine Or.inr ⟨k, s, hreg, ?_⟩
    have hdown : Only (some k) σ { σ with down := P :: σ.down } := Only.failed h rfl rfl (.of_eq rfl) (Or.inl rfl) rfl
    have ho := h.consistent.ofService hreg
    have hdead : ∀ σ₁ : System ServiceId Pid Start Change, Only (some k) σ σ₁ →
        Only (some k) σ { σ₁ with dead := k :: σ₁.dead } :=
      fun σ₁ h₁ => h₁.trans (Only.failed h₁.base rfl rfl (.of_eq rfl) (Or.inl rfl) rfl)
    split at hr
    · obtain ⟨σ₁, ht, hr⟩ := bind_eq_ok hr
      cases hr
      exact hdead σ₁ (hdown.trans (terminateService_only hdown.base ho ht))
    · obtain ⟨σ₁, ht, hr⟩ := bind_eq_ok hr
      cases hr
      exact hdead σ₁ (hdown.trans (terminateService_only hdown.base ho ht))
    · cases hr
      have herase : OfService k [P] (registry σ.services) := fun Q hQ j t hm => by
        obtain rfl := List.mem_singleton.mp hQ
        cases hreg.symm.trans hm
        rfl
      exact Only.erase h herase rfl rfl rfl rfl rfl
    · obtain ⟨σ₁, ht, hr⟩ := bind_eq_ok hr
      obtain ⟨r, -, hr⟩ := bind_eq_ok hr
      cases hr
      have h₁ := hdown.trans (terminateService_only hdown.base ho ht)
      obtain ⟨Down, -, rfl⟩ := terminateService_ok ht
      exact h₁.trans (restartDone_only h₁.base hf P r)
  · cases hr
  · rename_i hfind
    cases hr
    refine Or.inl ⟨?_, rfl⟩
    exact h.holds.find2_none.mp hfind

theorem restartInfo_only (h : Base σ.services σ.monitored) (hf : FreshFrom f 0 σ.monitored) {i : Nat}
    (hr : restartInfo rt f i σ = .ok σ') :
    (σ.restarts[i]? = none ∧ σ' = σ) ∨ ∃ m, σ.restarts[i]? = some m ∧ Only (some m.serviceId) σ σ' := by
  unfold restartInfo at hr
  split at hr
  · rename_i hi
    cases hr
    exact Or.inl ⟨hi, rfl⟩
  · rename_i m hi
    obtain ⟨r, -, hr⟩ := bind_eq_ok hr
    cases hr
    refine Or.inr ⟨m, hi, ?_⟩
    have h₁ : Only (some m.serviceId) σ { σ with restarts := σ.restarts.eraseIdx i } :=
      Only.failed h rfl rfl (.eraseIdx hi rfl rfl) (Or.inl rfl) rfl
    exact h₁.trans (restartDone_only h₁.base hf m.oldPid r)

/-- The service that a message is about. -/
def Event.about (σ : System ServiceId Pid Start Change) : Event ServiceId Pid Start Change → Option ServiceId
  | monitor sid _ => some sid
  | shutdown sid => some sid
  | changes sid => some sid
  | down P _ => (registry σ.services P).map Prod.fst
  | restart i => σ.restarts[i]?.map Restart.serviceId
  | update _ _ _ => none
  | change _ _ => none

/-- A message touches the service it is about only. -/
theorem Event.only (h : Base σ.services σ.monitored) (hf : Fresh f σ) {e : Event ServiceId Pid Start Change}
    (hr : e.apply rt f σ = .ok σ') : Only (e.about σ) σ σ' := by
  cases e with
  | monitor sid s =>
    cases hr
    exact monitor_only h hf.from s
  | shutdown sid =>
    cases hs : Monitor.shutdown sid σ with
    | error e =>
      rw [Event.apply, hs] at hr
      cases hr
    | ok r =>
      rw [Event.apply, hs] at hr
      cases hr
      exact shutdown_only h hs
  | update L F ok =>
    obtain ⟨hb, hch, ht, D, rfl⟩ := update_spec h (mapError_eq_ok hr)
    exact ⟨hb, fun _ hP => hP, fun j _ => hch.view j, fun j _ => ht j, fun _ _ => rfl, fun _ _ => rfl,
      fun _ _ _ _ => Iff.rfl, fun h => h⟩
  | change P Entry =>
    obtain ⟨Changes, rfl⟩ := change_spec (mapError_eq_ok hr)
    exact ⟨h, fun _ hP => hP, fun _ _ => rfl, fun _ _ => rfl, fun _ _ => rfl, fun _ _ => rfl,
      fun _ _ _ _ => Iff.rfl, fun h => h⟩
  | changes sid => exact changes_only h hf.from (mapError_eq_ok hr)
  | down P Reason =>
    rcases downInfo_only h hf.from hr with ⟨hP, rfl⟩ | ⟨j, s, hP, ho⟩
    · exact ⟨h, fun _ hP => hP, fun _ _ => rfl, fun _ _ => rfl, fun _ _ => rfl, fun _ _ => rfl,
        fun _ _ _ _ => Iff.rfl, fun h => h⟩
    · rw [Event.about, hP]
      exact ho
  | restart i =>
    rcases restartInfo_only h hf.from hr with ⟨-, rfl⟩ | ⟨m, hm, ho⟩
    · exact Only.refl h _
    · rw [Event.about, hm]
      exact ho

end

/-- In every state reached the processes told to terminate have been monitored. -/
theorem Reachable.known {rt : Runtime Change} {σ : System ServiceId Pid Start Change}
    (h : Reachable rt σ) : Base σ.services σ.monitored ∧ ∀ P ∈ σ.told, P ∈ σ.monitored := by
  induction h with
  | init => exact ⟨base_new.1, fun P hP => absurd hP List.not_mem_nil⟩
  | step _ hs ih =>
    cases hs with
    | event e f he hf hr =>
      have ho := Event.only ih.1 hf hr
      exact ⟨ho.base, ho.known ih.2⟩

/-- In every state reached the store stands for a consistent registry. -/
theorem Reachable.base {rt : Runtime Change} {σ : System ServiceId Pid Start Change}
    (h : Reachable rt σ) : Base σ.services σ.monitored := h.known.1

end CloudI.Monitor
