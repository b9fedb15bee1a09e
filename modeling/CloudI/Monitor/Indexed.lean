import CloudI.Monitor.Registry

/-!
# Processes numbered from zero

What the monitor has of one service, as data: the record of each process, the
processes told to terminate, and the places of the processes that wait for a
restart. `Indexed` says that the processes not told to terminate have the
indexes below `N`, each once, and the rest of what keeps it so. A process may
be suspended (its place waits), and resumed with new threads
(`Indexed.suspend`, `Indexed.resume`).
-/

namespace CloudI.Monitor

set_option linter.unusedSectionVars false

variable {Pid : Type} [LinearOrder Pid]

/-- The records `v` that are stored and the places `pend` that wait for a
restart, among which those not told to terminate have the indexes below `N`,
the count of processes `C`, and `ct` threads. -/
structure Indexed (v : Pid → Option (Shape Pid)) (told : List Pid) (pend : List Slot) (ct N : Nat) (C : Int) :
    Prop where
  mem : ∀ {P s}, v P = some s → P ∈ s.pids
  whole : ∀ {P s}, v P = some s → ∀ Q ∈ s.pids, v Q = some s
  nodup : ∀ {P s}, v P = some s → s.pids.Nodup
  threads : ∀ {P s}, v P = some s → s.countThread = ct ∧ s.pids.length = ct
  together : ∀ {P s}, v P = some s → ∀ Q ∈ s.pids, P ∈ told → Q ∈ told
  distinct : ∀ {P Q s t}, v P = some s → v Q = some t → s.processIndex = t.processIndex → s = t
  live : ∀ {P s}, v P = some s → P ∉ told → s.processIndex < N ∧ s.countProcess = C
  leaving : ∀ {P s}, v P = some s → P ∈ told → N ≤ s.processIndex
  pending : ∀ x ∈ pend, x.processIndex < N ∧ x.countProcess = C ∧ x.countThread = ct
  apart : ∀ x ∈ pend, ∀ {P s}, v P = some s → s.processIndex ≠ x.processIndex
  pendingNodup : (pend.map Slot.processIndex).Nodup
  all : ∀ i < N, (∃ P s, v P = some s ∧ s.processIndex = i) ∨ ∃ x ∈ pend, x.processIndex = i

namespace Indexed

variable {v v' : Pid → Option (Shape Pid)} {told told' : List Pid} {pend pend' : List Slot} {ct N : Nat} {C : Int}
  {s t : Shape Pid} {x : Slot} {P : Pid}

theorem empty (told : List Pid) (ct : Nat) (C : Int) : Indexed (fun _ => none) told [] ct 0 C where
  mem h := absurd h (Option.some_ne_none _).symm
  whole h := absurd h (Option.some_ne_none _).symm
  nodup h := absurd h (Option.some_ne_none _).symm
  threads h := absurd h (Option.some_ne_none _).symm
  together h := absurd h (Option.some_ne_none _).symm
  distinct h := absurd h (Option.some_ne_none _).symm
  live h := absurd h (Option.some_ne_none _).symm
  leaving h := absurd h (Option.some_ne_none _).symm
  pending _ hx := absurd hx List.not_mem_nil
  apart _ hx := absurd hx List.not_mem_nil
  pendingNodup := List.nodup_nil
  all i hi := absurd hi (Nat.not_lt_zero i)

/-- Only the processes stored matter among those told to terminate. -/
theorem congr_told (h : Indexed v told pend ct N C) (ht : ∀ P, v P ≠ none → (P ∈ told' ↔ P ∈ told)) :
    Indexed v told' pend ct N C where
  mem := h.mem
  whole := h.whole
  nodup := h.nodup
  threads := h.threads
  together hP Q hQ hPt := by
    have hQv := h.whole hP Q hQ
    rw [ht Q (by rw [hQv]; exact Option.some_ne_none _)]
    exact h.together hP Q hQ ((ht _ (by rw [hP]; exact Option.some_ne_none _)).mp hPt)
  distinct := h.distinct
  live hP hn := h.live hP fun hPt => hn ((ht _ (by rw [hP]; exact Option.some_ne_none _)).mpr hPt)
  leaving hP hPt := h.leaving hP ((ht _ (by rw [hP]; exact Option.some_ne_none _)).mp hPt)
  pending := h.pending
  apart := h.apart
  pendingNodup := h.pendingNodup
  all := h.all

theorem congr_pending (h : Indexed v told pend ct N C) (hp : pend'.Perm pend) : Indexed v told pend' ct N C where
  mem := h.mem
  whole := h.whole
  nodup := h.nodup
  threads := h.threads
  together := h.together
  distinct := h.distinct
  live := h.live
  leaving := h.leaving
  pending x hx := h.pending x (hp.mem_iff.mp hx)
  apart x hx := h.apart x (hp.mem_iff.mp hx)
  pendingNodup := (hp.map _).nodup_iff.mpr h.pendingNodup
  all i hi := by
    refine (h.all i hi).imp id fun hx => ?_
    obtain ⟨x, hx, he⟩ := hx
    exact ⟨x, hp.mem_iff.mpr hx, he⟩

/-- Without processes any count will do. -/
theorem zero (h : Indexed v told pend ct 0 C) (C' : Int) : Indexed v told pend ct 0 C' where
  mem := h.mem
  whole := h.whole
  nodup := h.nodup
  threads := h.threads
  together := h.together
  distinct := h.distinct
  live hP hn := absurd (h.live hP hn).1 (Nat.not_lt_zero _)
  leaving := h.leaving
  pending x hx := absurd (h.pending x hx).1 (Nat.not_lt_zero _)
  apart := h.apart
  pendingNodup := h.pendingNodup
  all := h.all

/-- Whole processes are gone. -/
structure Gone (v v' : Pid → Option (Shape Pid)) : Prop where
  sub : ∀ {P s}, v' P = some s → v P = some s
  whole : ∀ {P s}, v' P = some s → ∀ Q ∈ s.pids, v Q = some s → v' Q = some s

theorem gone_erase (h : Indexed v told pend ct N C) {Pids : List Pid}
    (hw : ∀ {P s}, v P = some s → P ∈ Pids → ∀ Q ∈ s.pids, Q ∈ Pids) :
    Gone v fun P => if P ∈ Pids then none else v P where
  sub {P s} hP := by
    split at hP
    · cases hP
    · exact hP
  whole {P s} hP Q hQ hv := by
    split at hP
    · cases hP
    · rename_i hnot
      rw [if_neg fun hQp => hnot (hw hv hQp P (h.mem hP))]
      exact hv

/-- Processes that were told to terminate are gone. -/
theorem gone_told (h : Indexed v told pend ct N C) (hg : Gone v v')
    (ht : ∀ {P s}, v P = some s → P ∉ told → v' P = some s) : Indexed v' told pend ct N C where
  mem hP := h.mem (hg.sub hP)
  whole hP Q hQ := hg.whole hP Q hQ (h.whole (hg.sub hP) Q hQ)
  nodup hP := h.nodup (hg.sub hP)
  threads hP := h.threads (hg.sub hP)
  together hP := h.together (hg.sub hP)
  distinct hP hQ := h.distinct (hg.sub hP) (hg.sub hQ)
  live hP := h.live (hg.sub hP)
  leaving hP := h.leaving (hg.sub hP)
  pending := h.pending
  apart x hx _ _ hP := h.apart x hx (hg.sub hP)
  pendingNodup := h.pendingNodup
  all i hi := by
    refine (h.all i hi).imp (fun ho => ?_) id
    obtain ⟨P, s, hP, he⟩ := ho
    exact ⟨P, s, ht hP fun hPt => absurd (h.leaving hP hPt) (by omega), he⟩

/-- Every process that was not told to terminate is gone. -/
theorem gone_all (h : Indexed v told pend ct N C) (hg : Gone v v') (hp : pend' = [])
    (ht : ∀ {P s}, v' P = some s → P ∈ told) : Indexed v' told pend' ct 0 0 where
  mem hP := h.mem (hg.sub hP)
  whole hP Q hQ := hg.whole hP Q hQ (h.whole (hg.sub hP) Q hQ)
  nodup hP := h.nodup (hg.sub hP)
  threads hP := h.threads (hg.sub hP)
  together hP := h.together (hg.sub hP)
  distinct hP hQ := h.distinct (hg.sub hP) (hg.sub hQ)
  live hP hn := absurd (ht hP) hn
  leaving _ _ := Nat.zero_le _
  pending x hx := absurd (hp ▸ hx) List.not_mem_nil
  apart x hx := absurd (hp ▸ hx) List.not_mem_nil
  pendingNodup := by
    rw [hp]
    exact List.nodup_nil
  all i hi := absurd hi (Nat.not_lt_zero i)

/-- The record of a process that is gone waits for a restart. -/
theorem suspend (h : Indexed v told pend ct N C) (hP : v P = some s) (hn : P ∉ told) :
    Indexed (fun Q => if Q ∈ s.pids then none else v Q) told (s.toSlot :: pend) ct N C := by
  have hw : ∀ {Q t}, v Q = some t → Q ∈ s.pids → t = s := fun hQ hQs =>
      Option.some.inj (hQ.symm.trans (h.whole hP _ hQs))
  have hg : Gone v fun Q => if Q ∈ s.pids then none else v Q :=
    h.gone_erase fun hQ hQs R hR => hw hQ hQs ▸ hR
  have hne : ∀ {Q t}, (if Q ∈ s.pids then none else v Q) = some t → t.processIndex ≠ s.processIndex := by
    intro Q t hQ he
    split at hQ
    · cases hQ
    · rename_i hnot
      exact hnot (h.distinct hQ hP he ▸ h.mem hQ)
  refine ⟨fun hQ => h.mem (hg.sub hQ), fun hQ R hR => hg.whole hQ R hR (h.whole (hg.sub hQ) R hR),
    fun hQ => h.nodup (hg.sub hQ), fun hQ => h.threads (hg.sub hQ), fun hQ => h.together (hg.sub hQ),
    fun hQ hR => h.distinct (hg.sub hQ) (hg.sub hR), fun hQ => h.live (hg.sub hQ), fun hQ => h.leaving (hg.sub hQ),
    fun x hx => ?_, fun x hx => ?_, ?_, fun i hi => ?_⟩
  · rcases List.mem_cons.mp hx with rfl | hx
    · exact ⟨(h.live hP hn).1, (h.live hP hn).2, (h.threads hP).1⟩
    · exact h.pending x hx
  · intro Q t hQ
    rcases List.mem_cons.mp hx with rfl | hx
    · exact hne hQ
    · exact h.apart x hx (hg.sub hQ)
  · rw [List.map_cons, List.nodup_cons]
    refine ⟨fun hm => ?_, h.pendingNodup⟩
    obtain ⟨x, hx, he⟩ := List.mem_map.mp hm
    exact h.apart x hx hP he.symm
  · rcases h.all i hi with ⟨Q, t, hQ, he⟩ | ⟨x, hx, he⟩
    · by_cases hQs : Q ∈ s.pids
      · refine Or.inr ⟨s.toSlot, List.mem_cons_self, ?_⟩
        rw [← he, hw hQ hQs]
      · exact Or.inl ⟨Q, t, (if_neg hQs).trans hQ, he⟩
    · exact Or.inr ⟨x, List.mem_cons_of_mem _ hx, he⟩

/-- New processes, with an index that is not taken; those that waited for a restart may be fewer. -/
theorem place (h : Indexed v told pend ct N C) (hnew : ∀ Q ∈ t.pids, v Q = none ∧ Q ∉ told) (hne : t.pids ≠ [])
    (hn : t.pids.Nodup) (ht : t.countThread = ct ∧ t.pids.length = ct) (hc : t.countProcess = C) {N' : Nat}
    (hle : N ≤ N') (hlt : t.processIndex < N') (hleave : ∀ {P s}, v P = some s → P ∈ told → N' ≤ s.processIndex)
    (hfree : ∀ {P s}, v P = some s → s.processIndex ≠ t.processIndex) (hsub : ∀ x ∈ pend', x ∈ pend)
    (hnd : (pend'.map Slot.processIndex).Nodup) (hpend : ∀ x ∈ pend', x.processIndex ≠ t.processIndex)
    (hall : ∀ i < N', i ≠ t.processIndex → (∃ P s, v P = some s ∧ s.processIndex = i) ∨
      ∃ x ∈ pend', x.processIndex = i) :
    Indexed (fun Q => if Q ∈ t.pids then some t else v Q) told pend' ct N' C := by
  have hcases : ∀ {Q u}, (if Q ∈ t.pids then some t else v Q) = some u →
      (Q ∈ t.pids ∧ u = t) ∨ (Q ∉ t.pids ∧ v Q = some u) := by
    intro Q u hQ
    split at hQ
    · cases hQ
      exact Or.inl ⟨‹_›, rfl⟩
    · exact Or.inr ⟨‹_›, hQ⟩
  have hold : ∀ {Q u}, v Q = some u → Q ∉ t.pids := fun hQ hQt => by
    rw [(hnew _ hQt).1] at hQ
    cases hQ
  refine ⟨fun hQ => ?_, fun hQ R hR => ?_, fun hQ => ?_, fun hQ => ?_, fun hQ R hR hQt => ?_, fun hQ hR he => ?_,
    fun hQ hQn => ?_, fun hQ hQt => ?_, fun x hx => ?_, fun x hx {Q u} hQ => ?_, hnd, fun i hi => ?_⟩
  · rcases hcases hQ with ⟨hm, rfl⟩ | ⟨-, hv⟩
    · exact hm
    · exact h.mem hv
  · rcases hcases hQ with ⟨-, rfl⟩ | ⟨-, hv⟩
    · exact if_pos hR
    · have hRv := h.whole hv R hR
      rw [if_neg (hold hRv)]
      exact hRv
  · rcases hcases hQ with ⟨-, rfl⟩ | ⟨-, hv⟩
    · exact hn
    · exact h.nodup hv
  · rcases hcases hQ with ⟨-, rfl⟩ | ⟨-, hv⟩
    · exact ht
    · exact h.threads hv
  · rcases hcases hQ with ⟨hm, rfl⟩ | ⟨-, hv⟩
    · exact absurd hQt (hnew _ hm).2
    · exact h.together hv R hR hQt
  · rcases hcases hQ with ⟨-, rfl⟩ | ⟨-, hv⟩ <;> rcases hcases hR with ⟨-, rfl⟩ | ⟨-, hv'⟩
    · rfl
    · exact absurd he.symm (hfree hv')
    · exact absurd he (hfree hv)
    · exact h.distinct hv hv' he
  · rcases hcases hQ with ⟨-, rfl⟩ | ⟨-, hv⟩
    · exact ⟨hlt, hc⟩
    · exact ⟨(h.live hv hQn).1.trans_le hle, (h.live hv hQn).2⟩
  · rcases hcases hQ with ⟨hm, rfl⟩ | ⟨-, hv⟩
    · exact absurd hQt (hnew _ hm).2
    · exact hleave hv hQt
  · have hx := h.pending x (hsub x hx)
    exact ⟨hx.1.trans_le hle, hx.2⟩
  · rcases hcases hQ with ⟨-, rfl⟩ | ⟨-, hv⟩
    · exact (hpend x hx).symm
    · exact h.apart x (hsub x hx) hv
  · by_cases hit : i = t.processIndex
    · obtain ⟨Q, hQ⟩ := List.exists_mem_of_ne_nil _ hne
      exact Or.inl ⟨Q, t, if_pos hQ, hit.symm⟩
    · refine (hall i hi hit).imp (fun ho => ?_) id
      obtain ⟨Q, u, hQ, he⟩ := ho
      exact ⟨Q, u, (if_neg (hold hQ)).trans hQ, he⟩

/-- One more process, when none is told to terminate. -/
theorem add (h : Indexed v told pend ct N C) (hi : t.processIndex = N)
    (hnew : ∀ Q ∈ t.pids, v Q = none ∧ Q ∉ told) (hne : t.pids ≠ []) (hn : t.pids.Nodup)
    (ht : t.countThread = ct ∧ t.pids.length = ct) (hc : t.countProcess = C)
    (hstay : ∀ {P s}, v P = some s → P ∉ told) :
    Indexed (fun Q => if Q ∈ t.pids then some t else v Q) told pend ct (N + 1) C := by
  refine h.place hnew hne hn ht hc (Nat.le_succ N) (by omega) (fun hP hPt => absurd hPt (hstay hP)) (fun hP => ?_)
    (fun x hx => hx) h.pendingNodup (fun x hx => ?_) fun i hiN hit => ?_
  · have := (h.live hP (hstay hP)).1
    omega
  · have := (h.pending x hx).1
    omega
  · exact h.all i (by omega)

/-- A process that waited for a restart is started again. -/
theorem resume (h : Indexed v told (x :: pend) ct N C) (hx : t.toSlot = x)
    (hnew : ∀ Q ∈ t.pids, v Q = none ∧ Q ∉ told) (hne : t.pids ≠ []) (hn : t.pids.Nodup) (hl : t.pids.length = ct) :
    Indexed (fun Q => if Q ∈ t.pids then some t else v Q) told pend ct N C := by
  subst hx
  obtain ⟨hlt, hc, hct⟩ := h.pending _ List.mem_cons_self
  obtain ⟨hnot, hnodup⟩ := List.nodup_cons.mp h.pendingNodup
  refine h.place hnew hne hn ⟨hct, hl⟩ hc le_rfl hlt h.leaving (h.apart _ List.mem_cons_self)
    (fun y hy => List.mem_cons_of_mem _ hy) hnodup (fun y hy he => ?_) fun i hi hit => ?_
  · exact hnot (List.mem_map.mpr ⟨y, hy, he⟩)
  · refine (h.all i hi).imp id fun ho => ?_
    obtain ⟨y, hy, he⟩ := ho
    rcases List.mem_cons.mp hy with rfl | hy
    · exact absurd he.symm hit
    · exact ⟨y, hy, he⟩

/-- The counts of the first `K` processes are set, and the others are told to terminate. -/
theorem recount (h : Indexed v told [] ct N C) {g : Shape Pid → Int} {K : Nat} {C' : Int} (hK : K ≤ N)
    (hg : ∀ {P s}, v P = some s → s.processIndex < K → g s = C')
    (ht : ∀ {P s}, v P = some s → (P ∈ told' ↔ P ∈ told ∨ K ≤ s.processIndex)) :
    Indexed (fun P => (v P).map fun s => { s with countProcess := g s }) told' [] ct K C' := by
  have hv : ∀ {P u}, (v P).map (fun s : Shape Pid => { s with countProcess := g s }) = some u →
      ∃ s, v P = some s ∧ u = { s with countProcess := g s } := by
    intro P u hP
    obtain ⟨s, hs, rfl⟩ := Option.map_eq_some_iff.mp hP
    exact ⟨s, hs, rfl⟩
  refine ⟨fun hP => ?_, fun hP Q hQ => ?_, fun hP => ?_, fun hP => ?_, fun hP Q hQ hPt => ?_, fun hP hQ he => ?_,
    fun hP hn => ?_, fun hP hPt => ?_, fun x hx => absurd hx List.not_mem_nil, fun x hx => absurd hx List.not_mem_nil,
    List.nodup_nil, fun i hi => ?_⟩
  · obtain ⟨s, hs, rfl⟩ := hv hP
    exact h.mem (s := s) hs
  · obtain ⟨s, hs, rfl⟩ := hv hP
    rw [h.whole hs Q hQ]
    rfl
  · obtain ⟨s, hs, rfl⟩ := hv hP
    exact h.nodup (s := s) hs
  · obtain ⟨s, hs, rfl⟩ := hv hP
    exact h.threads (s := s) hs
  · obtain ⟨s, hs, rfl⟩ := hv hP
    refine (ht (h.whole hs Q hQ)).mpr (((ht hs).mp hPt).imp (h.together hs Q hQ) id)
  · obtain ⟨s, hs, rfl⟩ := hv hP
    obtain ⟨t, ht', rfl⟩ := hv hQ
    rw [h.distinct hs ht' he]
  · obtain ⟨s, hs, rfl⟩ := hv hP
    have hlt : s.processIndex < K := by
      by_contra hle
      exact hn ((ht hs).mpr (Or.inr (by omega)))
    exact ⟨hlt, hg hs hlt⟩
  · obtain ⟨s, hs, rfl⟩ := hv hP
    rcases (ht hs).mp hPt with hPt | hle
    · exact hK.trans (h.leaving (s := s) hs hPt)
    · exact hle
  · rcases h.all i (hi.trans_le hK) with ⟨P, s, hP, he⟩ | ⟨x, hx, -⟩
    · refine Or.inl ⟨P, { s with countProcess := g s }, ?_, he⟩
      rw [hP]
      rfl
    · cases hx

end Indexed

end CloudI.Monitor
