import CloudI.Cpg.LeaveCounts

/-!
# Merging the same state twice

`store/2` gives each pid of the external state its count there
(`JoinCounts.exchange`). A group that already has those counts is not changed
(`storeGroup_same`), so that merging the same state again changes no group
(`store_again`).
-/

set_option linter.unusedSectionVars false

namespace CloudI.Cpg

open JoinCounts

variable {Name Pid Node : Type} [LinearOrder Name] [LinearOrder Pid] [DecidableEq Node]
  {D : DictI Name (CpgData Pid)} {node : Pid → Node} {here : Node} {s : State D}
  {m : Name → Option (CpgData Pid)}

/-- A pid with the count of the external group is left as it is. -/
theorem storeConflictPid_same {d : CpgData Pid} (h : Wf node here d) {V1AllPids : List Pid} {P : Pid}
    (hP : V1AllPids.count P = d.history.count P) : storeConflictPid (node P = here) P V1AllPids d = .ok d := by
  have h0 : (V1AllPids.count P - (d.entries (node P = here)).count P : Int) = 0 := by
    rw [h.count_entries]
    omega
  rw [storeConflictPid]
  simp only [h0]
  rfl

theorem storeConflict_same {d : CpgData Pid} (h : Wf node here d) {V1AllPids l : List Pid}
    (hl : ∀ P ∈ l, V1AllPids.count P = d.history.count P) : storeConflict node here V1AllPids l d = .ok d := by
  induction l with
  | nil => rfl
  | cons P l ih =>
    rw [storeConflict, storeConflictPid_same h (hl P List.mem_cons_self)]
    exact ih fun Q hQ => hl Q (List.mem_cons_of_mem P hQ)

/-- A group that has the counts of the external one stays the same. -/
theorem storeGroup_same {T : D.Data} {mT : Name → Option (CpgData Pid)} (hT : D.Holds T mT) {G : Name}
    {d V1 : CpgData Pid} (hG : mT G = some d) (hwf : Wf node here d)
    (hcount : ∀ P ∈ V1.history, V1.history.count P = d.history.count P) :
    ∃ T', storeGroup node here G V1 T = .ok T' ∧ D.Holds T' mT := by
  have hd := @storeConflict_same _ _ _ _ node here d hwf V1.history (usort V1.history) fun P hP =>
    hcount P (mem_usort.mp hP)
  obtain ⟨T', hr, hT'⟩ := D.update3_ok hT hG hd
  rw [← hG, Function.update_eq_self] at hT'
  refine ⟨T', ?_, hT'⟩
  rw [storeGroup, D.isKey_ok hT, hG]
  exact hr

theorem foldlM_storeGroup_same {l : List (Name × CpgData Pid)} {T : D.Data} {mT : Name → Option (CpgData Pid)}
    (hT : D.Holds T mT) (hl : ∀ p ∈ l, ∃ d, mT p.1 = some d ∧ Wf node here d ∧
      ∀ P ∈ p.2.history, p.2.history.count P = d.history.count P) :
    ∃ T', l.foldlM (fun T p => storeGroup node here p.1 p.2 T) T = .ok T' ∧ D.Holds T' mT := by
  induction l generalizing T with
  | nil => exact ⟨T, rfl, hT⟩
  | cons p l ih =>
    obtain ⟨d, hG, hwf, hcount⟩ := hl p List.mem_cons_self
    obtain ⟨T₁, hr, hT₁⟩ := storeGroup_same hT hG hwf hcount
    obtain ⟨T₂, hr₂, hT₂⟩ := ih hT₁ fun q hq => hl q (List.mem_cons_of_mem p hq)
    exact ⟨T₂, by rw [List.foldlM_cons]; exact (bind_ok hr _).trans hr₂, hT₂⟩

/-- A state that has the groups and the counts of the external one keeps all its groups. -/
theorem store_same {there : Node} {e : State D} {me : Name → Option (CpgData Pid)} (he : Inv node there e me)
    (h : Inv node here s m) (hsome : ∀ G, me G ≠ none → m G ≠ none)
    (hcount : ∀ G P, 0 < members me G P → members m G P = members me G P) :
    ∃ s', store node here e s = .ok s' ∧ ∀ G, D.find G s'.groups = D.find G s.groups := by
  obtain ⟨l, -, hmem, hfold⟩ := D.fold_ok he.holds
  obtain ⟨T, hr, hT⟩ := @foldlM_storeGroup_same _ _ _ _ _ _ D node here l _ _ h.holds fun p hp => by
    obtain ⟨G, V1⟩ := p
    have hV1 := (hmem G V1).mp hp
    obtain ⟨d, hd⟩ := Option.ne_none_iff_exists'.mp (hsome G (by rw [hV1]; exact Option.some_ne_none V1))
    refine ⟨d, hd, h.wf hd, fun P hP => ?_⟩
    have := hcount G P (mem_history.mp (by rwa [history_of_some hV1]))
    rw [members, members, history_of_some hd, history_of_some hV1] at this
    exact this.symm
  exact ⟨_, by rw [store, hfold]; exact bind_ok hr _, fun G => by rw [D.find_ok hT, D.find_ok h.holds]⟩

/-- The answer to a `join_count` call is the count in the history. -/
theorem joinCount_historyIn (h : Inv node here s m) (G : Name) (P : Pid) :
    joinCount G P s = .ok ((historyIn G s).count P) := by
  rw [joinCount_eq h, historyIn_eq h, members]

/-- After `store/2` a pid that has joined a group of the external state has its
count there, and every other count is as before; storing the same state again
leaves every group as it is, with its counts, entries and history. -/
theorem store_again (hD : FetchRaises D) {there : Node} {e : State D} (he : Served D node there e)
    (h : Served D node here s) :
    ∃ s', store node here e s = .ok s' ∧
      (∀ G P, 0 < (historyIn G e).count P → (historyIn G s').count P = (historyIn G e).count P) ∧
      (∀ G P, (historyIn G e).count P = 0 → (historyIn G s').count P = (historyIn G s).count P) ∧
      (∀ G P, joinCount G P s' = .ok ((historyIn G s').count P)) ∧
      ∃ s'', store node here e s' = .ok s'' ∧ ∀ G, D.find G s''.groups = D.find G s'.groups := by
  obtain ⟨me, hme⟩ := he.inv hD
  obtain ⟨m, hm⟩ := h.inv hD
  obtain ⟨s', m', hr, h', hcount, hsome⟩ := store_step hme hm
  have hpos : ∀ G P, 0 < members me G P → members m' G P = members me G P := fun G P hp => by
    rw [hcount, JoinCounts.exchange, if_pos hp]
  obtain ⟨s'', hr'', hfind⟩ := store_same hme h' hsome hpos
  refine ⟨s', hr, fun G P hp => ?_, fun G P h0 => ?_, joinCount_historyIn h', s'', hr'', hfind⟩
  · rw [historyIn_eq hme] at hp ⊢
    rw [historyIn_eq h']
    exact hpos G P hp
  · rw [historyIn_eq hme] at h0
    rw [historyIn_eq h', historyIn_eq hm]
    show members m' G P = members m G P
    rw [hcount, JoinCounts.exchange, if_neg (by rw [members, h0]; exact Nat.lt_irrefl 0)]

/-- The server of node 1 merges the state in which pid 0 of node 0 has joined. -/
theorem store_again_join : ∃ e s' : State Storage, store id 1 e (State.init Storage) = .ok s' ∧
    (historyIn groupA s').count 0 = 1 ∧
    ∃ s'', store id 1 e s' = .ok s'' ∧ ∀ G, Storage.find G s''.groups = Storage.find G s'.groups := by
  obtain ⟨e, me, he, hme, hm⟩ := served_join
  obtain ⟨s', hr, hpos, -, -, hagain⟩ := store_again fetchRaises_storage he (.init 1)
  have h1 : (historyIn groupA e).count 0 = 1 := by
    rw [historyIn_eq hme, show (history me groupA).count 0 = members me groupA 0 from rfl, hm]
    decide
  exact ⟨e, s', hr, by rw [hpos groupA 0 (by omega), h1], hagain⟩

end CloudI.Cpg
