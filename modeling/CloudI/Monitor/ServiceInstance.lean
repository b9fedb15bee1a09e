import CloudI.Monitor.Indexed

/-!
# The records of a service

`service_instance/3` gives the records of the processes of a service, one for
each process and in the order of their indexes, when the processes are
numbered (`serviceInstance_spec`): there are as many as `round` makes of the
threads (`countProcessCurrent_eq`), and those below `N` come first
(`indexes_eq`).
-/

namespace CloudI.Monitor

set_option linter.unusedSectionVars false

open Registry

variable {ServiceId Pid Start Change : Type} [LinearOrder ServiceId] [LinearOrder Pid] {sid : ServiceId}
  {D : Services ServiceId Pid Start} {M : List Pid}

/-- In the order of the indexes, each once. -/
def InOrder (L : List (Service Pid Start)) : Prop := L.Pairwise fun s t => s.processIndex < t.processIndex

theorem inOrder_keymerge {s : Service Pid Start} {Results : List (Service Pid Start)} (h : InOrder Results)
    (hs : ∀ r ∈ Results, r.processIndex ≠ s.processIndex) : InOrder (keymerge s Results) := by
  induction Results with
  | nil => exact List.pairwise_singleton _ s
  | cons r Results ih =>
    obtain ⟨hr, h⟩ := List.pairwise_cons.mp h
    rw [keymerge]
    split
    · rename_i hle
      refine List.pairwise_cons.mpr ⟨fun t ht => ?_, ih h fun t ht => hs t (List.mem_cons_of_mem r ht)⟩
      rcases mem_keymerge.mp ht with rfl | ht
      · exact Nat.lt_of_le_of_ne hle (hs r List.mem_cons_self)
      · exact hr t ht
    · rename_i hlt
      refine List.pairwise_cons.mpr ⟨fun t ht => ?_, List.pairwise_cons.mpr ⟨hr, h⟩⟩
      rcases List.mem_cons.mp ht with rfl | ht
      · omega
      · have := hr t ht
        omega

theorem length_keymerge (s : Service Pid Start) (Results : List (Service Pid Start)) :
    (keymerge s Results).length = Results.length + 1 := by
  induction Results with
  | nil => rfl
  | cons r Results ih =>
    rw [keymerge]
    split
    · rw [List.length_cons, ih, List.length_cons]
    · rfl

/-- Both clauses for a process that is found take its threads out of the others. -/
theorem serviceInstance_cons {P : Pid} {Pids : List Pid} {Results : List (Service Pid Start)} {s : Service Pid Start}
    (hf : D.find2 P = some ([sid], s)) (hP : P ∉ Pids) :
    serviceInstance sid D (P :: Pids) Results = serviceInstance sid D (Pids.diff s.pids) (keymerge s Results) := by
  rw [serviceInstance, hf]
  simp only [ne_eq, not_true_eq_false, if_false]
  split
  · rename_i hs
    rw [hs, List.diff_cons, List.diff_nil, List.erase_of_not_mem hP]
  · rfl

/-- What `service_instance/4` adds to the results. -/
theorem serviceInstance_spec (hb : Base D M) {told : List Pid} {pend : List Slot} {ct N : Nat} {C : Int}
    (h : Indexed (view sid (registry D)) told pend ct N C) {Pids : List Pid}
    {Results ServiceL : List (Service Pid Start)}
    (hn : Pids.Nodup) (hP : ∀ P ∈ Pids, ∃ s, registry D P = some (sid, s))
    (hw : ∀ P ∈ Pids, ∀ s, registry D P = some (sid, s) → ∀ Q ∈ s.pids, Q ∈ Pids)
    (ho : InOrder Results) (hres : ∀ r ∈ Results, ∃ Q, registry D Q = some (sid, r))
    (hd : ∀ r ∈ Results, ∀ P ∈ Pids, P ∉ r.pids) (hr : serviceInstance sid D Pids Results = .ok ServiceL) :
    InOrder ServiceL ∧ (∀ P ∈ Pids, ∃ s ∈ ServiceL, P ∈ s.pids) ∧ (∀ r ∈ Results, r ∈ ServiceL) ∧
      ServiceL.length * ct = Results.length * ct + Pids.length := by
  induction hlen : Pids.length using Nat.strong_induction_on generalizing Pids Results with
  | _ n ih =>
    cases Pids with
    | nil =>
      rw [serviceInstance] at hr
      cases hr
      refine ⟨ho, fun P hP => absurd hP List.not_mem_nil, fun r hr => hr, ?_⟩
      rw [← hlen]
      rfl
    | cons P Pids =>
      obtain ⟨hPn, hn⟩ := List.nodup_cons.mp hn
      obtain ⟨s, hs⟩ := hP P List.mem_cons_self
      rw [serviceInstance_cons (hb.holds.find2_eq.mpr hs) hPn] at hr
      have hv : view sid (registry D) P = some s.shape := view_eq_some.mpr ⟨s, hs, rfl⟩
      have hmem : ∀ Q, Q ∈ Pids.diff s.pids ↔ Q ∈ Pids ∧ Q ∉ s.pids := fun Q => hn.mem_sdiff_iff
      have hPs := hb.consistent.mem hs
      have hperm : (P :: Pids).Perm (s.pids ++ Pids.diff s.pids) := by
        refine (List.perm_ext_iff_of_nodup (List.nodup_cons.mpr ⟨hPn, hn⟩) ?_).mpr fun Q => ?_
        · exact List.nodup_append.mpr ⟨h.nodup hv, hn.diff, fun Q hQ R hR he => ((hmem R).mp hR).2 (he ▸ hQ)⟩
        · rw [List.mem_append, hmem]
          constructor
          · intro hQ
            by_cases hQs : Q ∈ s.pids
            · exact Or.inl hQs
            · rcases List.mem_cons.mp hQ with rfl | hQ
              · exact absurd hPs hQs
              · exact Or.inr ⟨hQ, hQs⟩
          · rintro (hQ | ⟨hQ, -⟩)
            · exact hw P List.mem_cons_self s hs Q hQ
            · exact List.mem_cons_of_mem P hQ
      have hlen' := hperm.length_eq
      have hct : s.pids.length = ct := (h.threads hv).2
      rw [List.length_append, hct] at hlen'
      -- a thread of both `P` and another process would give them one record
      have hsame : ∀ {Q t R}, registry D Q = some (sid, t) → R ∈ t.pids → R ∈ s.pids → Q ∈ s.pids := by
        intro Q t R hQ hR hRs
        have ht := h.whole (view_eq_some.mpr ⟨t, hQ, rfl⟩) R hR
        have he : t.shape = s.shape := Option.some.inj (ht.symm.trans (h.whole hv R hRs))
        have hp : t.pids = s.pids := congrArg Shape.pids he
        rw [← hp]
        exact hb.consistent.mem hQ
      have hlt : (Pids.diff s.pids).length < n := by
        rw [← hlen, hlen']
        have := List.length_pos_of_mem hPs
        omega
      have hw' : ∀ Q ∈ Pids.diff s.pids, ∀ t, registry D Q = some (sid, t) → ∀ R ∈ t.pids, R ∈ Pids.diff s.pids := by
        intro Q hQ t ht R hR
        obtain ⟨hQ, hQs⟩ := (hmem Q).mp hQ
        have hRs : R ∉ s.pids := fun hRs => hQs (hsame ht hR hRs)
        rcases List.mem_cons.mp (hw Q (List.mem_cons_of_mem P hQ) t ht R hR) with rfl | hRp
        · exact absurd hPs hRs
        · exact (hmem R).mpr ⟨hRp, hRs⟩
      have ho' : ∀ r ∈ Results, r.processIndex ≠ s.processIndex := by
        intro r hr' he
        obtain ⟨Q, hQ⟩ := hres r hr'
        have hsh : r.shape = s.shape := h.distinct (view_eq_some.mpr ⟨r, hQ, rfl⟩) hv he
        have hp : r.pids = s.pids := congrArg Shape.pids hsh
        exact hd r hr' P List.mem_cons_self (hp ▸ hPs)
      have hres' : ∀ r ∈ keymerge s Results, ∃ Q, registry D Q = some (sid, r) := by
        intro r hr'
        rcases mem_keymerge.mp hr' with rfl | hr'
        · exact ⟨P, hs⟩
        · exact hres r hr'
      have hd' : ∀ r ∈ keymerge s Results, ∀ Q ∈ Pids.diff s.pids, Q ∉ r.pids := by
        intro r hr' Q hQ
        obtain ⟨hQ, hQs⟩ := (hmem Q).mp hQ
        rcases mem_keymerge.mp hr' with rfl | hr'
        · exact hQs
        · exact hd r hr' Q (List.mem_cons_of_mem P hQ)
      obtain ⟨h1, h2, h3, h4⟩ := ih (Pids.diff s.pids).length hlt hn.diff
        (fun Q hQ => hP Q (List.mem_cons_of_mem P ((hmem Q).mp hQ).1)) hw' (inOrder_keymerge ho ho') hres' hd' hr rfl
      refine ⟨h1, fun Q hQ => ?_, fun r hr' => h3 r (mem_keymerge.mpr (Or.inr hr')), ?_⟩
      · by_cases hQs : Q ∈ s.pids
        · exact ⟨s, h3 s (mem_keymerge.mpr (Or.inl rfl)), hQs⟩
        · rcases List.mem_cons.mp hQ with rfl | hQ
          · exact absurd hPs hQs
          · exact h2 Q ((hmem Q).mpr ⟨hQ, hQs⟩)
      · rw [h4, length_keymerge, ← hlen, hlen', Nat.succ_mul, Nat.add_assoc]

/-- The records of all processes of a service. -/
theorem Base.serviceInstance_all (hb : Base D M) {told : List Pid} {pend : List Slot} {ct N : Nat} {C : Int}
    (h : Indexed (view sid (registry D)) told pend ct N C) {Pids : List Pid} {s : Service Pid Start}
    {ServiceL : List (Service Pid Start)} (hf : D.find1 sid = some (Pids, s))
    (hr : serviceInstance sid D Pids [] = .ok ServiceL) :
    InOrder ServiceL ∧ (∀ P t, registry D P = some (sid, t) → ∃ u ∈ ServiceL, P ∈ u.pids) ∧
      ServiceL.length * ct = Pids.length := by
  obtain ⟨hs, -, hmem⟩ := hb.holds.present sid Pids s hf
  have hw : ∀ P ∈ Pids, ∀ t, registry D P = some (sid, t) → ∀ Q ∈ t.pids, Q ∈ Pids := by
    intro P _ t ht Q hQ
    obtain ⟨u, hu, -⟩ := view_eq_some.mp (h.whole (view_eq_some.mpr ⟨t, ht, rfl⟩) Q hQ)
    exact (hmem Q).mpr ⟨u, hu⟩
  obtain ⟨h1, h2, -, h4⟩ := serviceInstance_spec hb h hs.nodup (fun P hP => (hmem P).mp hP) hw List.Pairwise.nil
    (fun r hr' => absurd hr' List.not_mem_nil) (fun r hr' => absurd hr' List.not_mem_nil) hr
  refine ⟨h1, fun P t ht => h2 P ((hmem P).mpr ⟨t, ht⟩), ?_⟩
  rw [h4, List.length_nil, Nat.zero_mul, Nat.zero_add]

theorem countProcessCurrent_eq {Pids : List Pid} {n ct : Nat} (hct : 0 < ct) (h : n * ct = Pids.length) :
    countProcessCurrent Pids ct = n := by
  have h1 : n * (2 * ct) = 2 * (n * ct) := Nat.mul_left_comm n 2 ct
  have h2 : (n + 1) * (2 * ct) = 2 * (n * ct) + 2 * ct := by rw [Nat.succ_mul, h1]
  rw [countProcessCurrent, ← h]
  refine Nat.div_eq_of_lt_le ?_ ?_
  · omega
  · omega

/-- A list in strict order is its part below a bound, and the rest. -/
theorem pairwise_split {L : List Nat} (h : L.Pairwise (· < ·)) (N : Nat) :
    L = L.filter (· < N) ++ L.filter (N ≤ ·) := by
  induction L with
  | nil => rfl
  | cons a L ih =>
    obtain ⟨ha, h⟩ := List.pairwise_cons.mp h
    by_cases haN : a < N
    · have hN : ¬N ≤ a := by omega
      rw [List.filter_cons, if_pos (decide_eq_true haN), List.filter_cons, if_neg (by simpa using hN),
        List.cons_append, ← ih h]
    · have hnone : L.filter (· < N) = [] := by
        refine List.filter_eq_nil_iff.mpr fun b hb => ?_
        have := ha b hb
        simp only [decide_eq_true_eq]
        omega
      have hall : L.filter (N ≤ ·) = L := by
        refine List.filter_eq_self.mpr fun b hb => ?_
        have := ha b hb
        simp only [decide_eq_true_eq]
        omega
      rw [List.filter_cons, if_neg (by simpa using haN), List.filter_cons, if_pos (by simpa using haN), hnone, hall,
        List.nil_append]

/-- When no process waits for a restart, the indexes are those below `N`, and then those of processes that leave. -/
theorem indexes_eq {told : List Pid} {ct N : Nat} {C : Int}
    (h : Indexed (view sid (registry D)) told [] ct N C) {ServiceL : List (Service Pid Start)} (ho : InOrder ServiceL)
    (hin : ∀ s ∈ ServiceL, ∃ P, registry D P = some (sid, s))
    (hall : ∀ P t, registry D P = some (sid, t) → ∃ u ∈ ServiceL, P ∈ u.pids) :
    ∃ rest, ServiceL.map Service.processIndex = List.range N ++ rest ∧ ∀ i ∈ rest, N ≤ i := by
  have hsorted : (ServiceL.map Service.processIndex).Pairwise (· < ·) := List.pairwise_map.mpr ho
  refine ⟨(ServiceL.map Service.processIndex).filter (N ≤ ·), ?_, fun i hi => ?_⟩
  · have hlow : (ServiceL.map Service.processIndex).filter (· < N) = List.range N := by
      refine (hsorted.filter _).eq_of_mem_iff List.pairwise_lt_range fun i => ?_
      rw [List.mem_filter, List.mem_range, decide_eq_true_eq]
      refine ⟨fun hi => hi.2, fun hi => ⟨?_, hi⟩⟩
      rcases h.all i hi with ⟨P, s, hP, he⟩ | ⟨x, hx, -⟩
      · obtain ⟨t, ht, rfl⟩ := view_eq_some.mp hP
        obtain ⟨u, hu, hPu⟩ := hall P t ht
        obtain ⟨Q, hQ⟩ := hin u hu
        have hsh : u.shape = t.shape :=
          Option.some.inj ((h.whole (view_eq_some.mpr ⟨u, hQ, rfl⟩) P hPu).symm.trans hP)
        have hi' : u.processIndex = t.processIndex := congrArg (fun s => s.processIndex) hsh
        exact List.mem_map.mpr ⟨u, hu, hi'.trans he⟩
      · cases hx
    rw [← hlow]
    exact pairwise_split hsorted N
  · simpa using (List.mem_filter.mp hi).2

end CloudI.Monitor
