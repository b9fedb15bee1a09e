import CloudI.Cpg.JoinCounts

/-!
# The consistent state of a server

`Inv` says that the groups are well formed and that the reverse index `pids`
has exactly the groups of each pid. Every operation of a server keeps it,
never raises, and does to the join counts what `JoinCounts` says
(`apply_spec`, `store_spec`).
-/

set_option linter.unusedSectionVars false

namespace CloudI.Cpg

open JoinCounts

variable {Name Pid Node : Type} [LinearOrder Name] [LinearOrder Pid] [DecidableEq Node]
  {D : DictI Name (CpgData Pid)}

/-- The history of a group. -/
def history (m : Name → Option (CpgData Pid)) (G : Name) : List Pid := (m G).elim [] (·.history)

/-- The join counts. -/
def members (m : Name → Option (CpgData Pid)) : JoinCounts Name Pid := fun G P => (history m G).count P

/-- The groups of a pid. -/
def groupsOf (pids : Dict Pid (List Name)) (P : Pid) : List Name := (pids P).getD []

section Inv

variable (node : Pid → Node) (here : Node)

/-- The groups stand for `m` and are well formed, and `pids` has the groups of each pid in order. -/
structure Inv (s : State D) (m : Name → Option (CpgData Pid)) : Prop where
  holds : D.Holds s.groups m
  wf : ∀ {G d}, m G = some d → Wf node here d
  sorted : ∀ P, Sorted (groupsOf s.pids P)
  pids : ∀ P G, G ∈ groupsOf s.pids P ↔ P ∈ history m G

end Inv

variable {node : Pid → Node} {here : Node} {s : State D} {m : Name → Option (CpgData Pid)} {G : Name} {P : Pid}

theorem mem_history : P ∈ history m G ↔ 0 < members m G P := List.count_pos_iff.symm

theorem history_of_some {d : CpgData Pid} (h : m G = some d) : history m G = d.history := by
  rw [history, h]
  rfl

/-- A group in which someone is exists. -/
theorem exists_of_mem (h : P ∈ history m G) :
    ∃ d, m G = some d ∧ P ∈ d.history := by
  cases hG : m G with
  | none =>
    rw [history, hG] at h
    cases h
  | some d => exact ⟨d, rfl, history_of_some hG ▸ h⟩

theorem inv_init : Inv node here (State.init D) fun _ => none where
  holds := D.holds_new
  wf := by
    intro G d h
    cases h
  sorted _ := sorted_nil
  pids P G := iff_of_false List.not_mem_nil List.not_mem_nil

/-! ## The reverse index -/

variable {pids : Dict Pid (List Name)}

theorem groupsOf_of_some {l : List Name} (h : pids P = some l) :
    groupsOf pids P = l := by
  rw [groupsOf, h]
  rfl

/-- A pid with a group has a list. -/
theorem exists_of_mem_groupsOf (h : G ∈ groupsOf pids P) :
    ∃ l, pids P = some l := by
  cases hP : pids P with
  | none =>
    rw [groupsOf, hP] at h
    cases h
  | some l => exact ⟨l, rfl⟩

theorem groupsOf_update (P : Pid) (l : List Name) (P' : Pid) :
    groupsOf (Function.update pids P (some l)) P' = if P' = P then l else groupsOf pids P' := by
  rw [groupsOf, Function.update_apply]
  split
  · rfl
  · rfl

/-- Joining adds the group to the list of the pid. -/
theorem groupsOf_join (hs : ∀ P, Sorted (groupsOf pids P)) (G : Name) (P P' : Pid) :
    Sorted (groupsOf (Dict.update4 P (umerge · [G]) [G] pids) P') ∧
      ∀ G', G' ∈ groupsOf (Dict.update4 P (umerge · [G]) [G] pids) P' ↔
        (G' = G ∧ P' = P) ∨ G' ∈ groupsOf pids P' := by
  have hl : (pids P).elim [G] (umerge · [G]) = umerge (groupsOf pids P) [G] := by
    cases h : pids P with
    | none =>
      rw [groupsOf, h]
      simp
    | some l =>
      rw [groupsOf_of_some h]
      rfl
  rw [Dict.update4, groupsOf_update, hl]
  split
  · rename_i hP
    subst hP
    refine ⟨umerge_sorted (hs P') (sorted_singleton G), fun G' => ?_⟩
    rw [mem_umerge, List.mem_singleton, or_comm]
    simp
  · rename_i hP
    exact ⟨hs P', fun G' => by simp [hP]⟩

/-- Leaving removes the group from the list of the pid. -/
theorem update_erase_spec (hs : ∀ P, Sorted (groupsOf pids P)) {l : List Name} (hP : pids P = some l) (G : Name) :
    ∃ pids', pids.update P (·.erase G) = .ok pids' ∧ pids' P = some (l.erase G) ∧
      (∀ P', pids P' ≠ none → pids' P' ≠ none) ∧ (∀ P', Sorted (groupsOf pids' P')) ∧
      ∀ P' G', G' ∈ groupsOf pids' P' ↔ ¬ (G' = G ∧ P' = P) ∧ G' ∈ groupsOf pids P' := by
  have hl := hs P
  rw [groupsOf_of_some hP] at hl
  refine ⟨_, Dict.update_ok hP, Function.update_self .., fun P' hP' => ?_, fun P' => ?_, fun P' G' => ?_⟩
  · rw [Function.update_apply]
    split
    · exact Option.some_ne_none _
    · exact hP'
  · rw [groupsOf_update]
    split
    · exact hl.delete G
    · exact hs P'
  · rw [groupsOf_update]
    split
    · rename_i h
      rw [mem_delete hl, h, groupsOf_of_some hP]
      simp
    · rename_i h
      simp [h]

/-- Deleting a group removes it from the list of every member. -/
theorem foldlM_erase_spec (hs : ∀ P, Sorted (groupsOf pids P)) (G : Name)
    {l : List Pid} (hl : ∀ P ∈ l, pids P ≠ none) :
    ∃ pids', l.foldlM (fun NextPids P => Dict.update P (·.erase G) NextPids) pids = .ok pids' ∧
      (∀ P, Sorted (groupsOf pids' P)) ∧
      ∀ P G', G' ∈ groupsOf pids' P ↔ ¬ (G' = G ∧ P ∈ l) ∧ G' ∈ groupsOf pids P := by
  induction l generalizing pids with
  | nil => exact ⟨pids, rfl, hs, fun P G' => by simp⟩
  | cons P l ih =>
    obtain ⟨L, hL⟩ := Option.ne_none_iff_exists'.mp (hl P List.mem_cons_self)
    obtain ⟨pids₁, hr, -, hne, hs₁, hmem₁⟩ := update_erase_spec hs hL G
    obtain ⟨pids₂, hr₂, hs₂, hmem₂⟩ := ih hs₁ fun Q hQ => hne Q (hl Q (List.mem_cons_of_mem P hQ))
    refine ⟨pids₂, by rw [List.foldlM_cons, hr]; exact hr₂, hs₂, fun Q G' => ?_⟩
    rw [hmem₂, hmem₁, List.mem_cons]
    tauto

/-! ## One group changes -/

theorem history_update (o : Option (CpgData Pid)) (G G' : Name) :
    history (Function.update m G o) G' = if G' = G then o.elim [] (·.history) else history m G' := by
  rw [history, Function.update_apply]
  split
  · rfl
  · rfl

/-- A state stays consistent when one group changes and the reverse index follows. -/
theorem Inv.replace (h : Inv node here s m) {g : D.Data}
    {o : Option (CpgData Pid)} (hg : D.Holds g (Function.update m G o)) (ho : ∀ d, o = some d → Wf node here d)
    (hs : ∀ P, Sorted (groupsOf pids P)) (hp : ∀ P G', G' ∈ groupsOf pids P ↔
      if G' = G then P ∈ o.elim [] (·.history) else G' ∈ groupsOf s.pids P) :
    Inv node here ⟨g, pids⟩ (Function.update m G o) where
  holds := hg
  wf := by
    intro G' d hd
    rw [Function.update_apply] at hd
    split at hd
    · exact ho d hd
    · exact h.wf hd
  sorted := hs
  pids P G' := by
    rw [hp, h.pids]
    by_cases hG : G' = G
    · rw [if_pos hG, hG, history, Function.update_self]
    · rw [if_neg hG, history, history, Function.update_of_ne hG]

/-- The group put or erased has the members of the group given. -/
theorem putOrErase_spec {g : D.Data} (hg : D.Holds g m) (hG : m G ≠ none) (d : CpgData Pid) :
    ∃ g' o, putOrErase G d g = .ok g' ∧ D.Holds g' (Function.update m G o) ∧
      (o = none ∧ d.history = [] ∨ o = some d ∧ d.history ≠ []) ∧ o.elim [] (·.history) = d.history := by
  by_cases hd : d.history = []
  · obtain ⟨g', hr, hg'⟩ := D.erase_ok hg hG
    exact ⟨g', none, by rw [putOrErase, if_pos hd, hr], hg', .inl ⟨rfl, hd⟩, hd.symm⟩
  · obtain ⟨g', hr, hg'⟩ := D.store_ok hg G d
    exact ⟨g', some d, by rw [putOrErase, if_neg hd, hr], hg', .inr ⟨rfl, hd⟩, rfl⟩

/-! ## The operations -/

/-- An operation succeeds, and the state after it is consistent with the join counts `c`. -/
def Succeeds (node : Pid → Node) (here : Node) (r : Except Exn (State D)) (c : JoinCounts Name Pid) : Prop :=
  ∃ s' m', r = .ok s' ∧ Inv node here s' m' ∧ members m' = c

theorem members_update (o : Option (CpgData Pid)) (G : Name) {c : JoinCounts Name Pid}
    (h : ∀ P, (o.elim [] (·.history)).count P = c G P) (hne : ∀ G' ≠ G, ∀ P, members m G' P = c G' P) :
    members (Function.update m G o) = c := by
  funext G' P
  rw [members, history_update]
  by_cases hG : G' = G
  · rw [if_pos hG, hG, h]
  · rw [if_neg hG]
    exact hne G' hG P

theorem createGroup_spec (h : Inv node here s m) (G : Name) :
    Succeeds node here (createGroup G s) (members m) := by
  have hv : (m G).elim (.ok {}) .ok = (.ok ((m G).getD {}) : Except Exn (CpgData Pid)) := by
    cases m G <;> rfl
  obtain ⟨g, hr, hg⟩ := D.update4_ok h.holds hv
  have hh : (some ((m G).getD {})).elim [] (·.history) = history m G := by
    rw [history]
    cases m G <;> rfl
  refine ⟨_, _, by rw [createGroup, hr]; rfl, h.replace hg (fun d hd => ?_) h.sorted fun P G' => ?_,
    members_update _ G (fun P => by rw [hh]; rfl) fun _ _ _ => rfl⟩
  · obtain rfl := Option.some.inj hd
    cases hG : m G with
    | none => exact wf_empty
    | some d => exact h.wf hG
  · split
    · rename_i hG
      rw [hh, h.pids, hG]
    · exact Iff.rfl

theorem deleteGroup_spec (h : Inv node here s m) (G : Name) :
    Succeeds node here (deleteGroup G s) ((members m).deleteGroup G) := by
  rw [deleteGroup, D.find_ok h.holds]
  cases hG : m G with
  | none =>
    refine ⟨s, m, rfl, h, ?_⟩
    funext G' P
    rw [JoinCounts.deleteGroup]
    split
    · rename_i hG'
      rw [hG', members, history, hG]
      rfl
    · rfl
  | some d =>
    obtain ⟨g, hr, hg⟩ := D.erase_ok h.holds (show m G ≠ none by rw [hG]; exact Option.some_ne_none d)
    have hmem := members_update (m := m) none G (c := (members m).deleteGroup G) (fun P => (if_pos rfl).symm)
      fun G' hG' P => (if_neg hG').symm
    have hhist := history_of_some hG
    show Succeeds node here (if d.history = [] then _ else _) _
    by_cases hd : d.history = []
    · rw [if_pos hd]
      refine ⟨_, _, by rw [hr]; rfl, h.replace hg (fun _ h => by cases h) h.sorted fun P G' => ?_, hmem⟩
      split
      · rename_i hG'
        rw [h.pids, hG', hhist, hd]
        rfl
      · exact Iff.rfl
    · rw [if_neg hd]
      have hperm := (h.wf hG).history
      obtain ⟨pids, hr', hs, hp⟩ := foldlM_erase_spec h.sorted G (l := d.localPids ++ d.remotePids) fun P hP => by
        have hin : G ∈ groupsOf s.pids P := (h.pids P G).mpr (hhist ▸ hperm.mem_iff.mpr hP)
        obtain ⟨l, hl⟩ := exists_of_mem_groupsOf hin
        rw [hl]
        exact Option.some_ne_none l
      refine ⟨_, _, by rw [hr', hr]; rfl, h.replace hg (fun _ h => by cases h) hs fun P G' => ?_, hmem⟩
      rw [hp, ← hperm.mem_iff, ← hhist, ← h.pids]
      split
      · rename_i hG'
        subst hG'
        simp
      · rename_i hG'
        simp [hG']

theorem joinGroup_spec (h : Inv node here s m) (G : Name) (P : Pid) :
    Succeeds node here (joinGroup node here G P s) ((members m).join G P) := by
  obtain ⟨d, hd, hwf⟩ : ∃ d, joinData (node P = here) P ((m G).getD {}) = d ∧ Wf node here ((m G).getD {}) := by
    refine ⟨_, rfl, ?_⟩
    cases hG : m G with
    | none => exact wf_empty
    | some d => exact h.wf hG
  have hv : (m G).elim (.ok (joinInitial (node P = here) P)) (fun d => .ok (joinData (node P = here) P d)) =
      (.ok d : Except Exn (CpgData Pid)) := by
    rw [← hd]
    cases m G with
    | none => rw [Option.elim_none, joinInitial_eq]; rfl
    | some d => rfl
  have hh : d.history = P :: history m G := by
    rw [← hd, joinData_history, history]
    cases m G <;> rfl
  obtain ⟨g, hr, hg⟩ := D.update4_ok h.holds hv
  refine ⟨_, _, by rw [joinGroup, hr]; rfl, h.replace hg (fun d' hd' => ?_)
    (fun Q => (groupsOf_join h.sorted G P Q).1) fun Q G' => ?_, members_update _ G (fun Q => ?_) fun G' hG' Q => ?_⟩
  · obtain rfl := Option.some.inj hd'
    rw [← hd]
    exact joinData_wf hwf P
  · rw [(groupsOf_join h.sorted G P Q).2]
    by_cases hG' : G' = G
    · rw [if_pos hG', Option.elim_some, hh, List.mem_cons, h.pids, hG']
      simp
    · rw [if_neg hG']
      exact or_iff_right fun h => hG' h.1
  · rw [Option.elim_some, hh, List.count_cons, JoinCounts.join, JoinCounts.set]
    by_cases hQ : Q = P
    · subst hQ
      simp [members]
    · simp [hQ, Ne.symm hQ, members]
  · exact ((members m).set_of_ne_name _ hG').symm

/-! ## Leaving -/

theorem update_erase_iff {pids' : Dict Pid (List Name)} (h : Inv node here s m)
    (hp : ∀ Q G', G' ∈ groupsOf pids' Q ↔ ¬ (G' = G ∧ Q = P) ∧ G' ∈ groupsOf s.pids Q) {l : List Pid}
    (hP : P ∉ l) (hne : ∀ Q ≠ P, Q ∈ l ↔ Q ∈ history m G) (Q : Pid) (G' : Name) :
    G' ∈ groupsOf pids' Q ↔ if G' = G then Q ∈ l else G' ∈ groupsOf s.pids Q := by
  rw [hp]
  by_cases hG : G' = G
  · rw [if_pos hG, hG, h.pids]
    by_cases hQ : Q = P
    · simp [hQ, hP]
    · rw [hne Q hQ]
      simp [hQ]
  · simp [hG]

theorem leaveGroupCompletely_spec (h : Inv node here s m) {l : List Name} (hP : s.pids P = some (G :: l)) :
    ∃ s' m', leaveGroupCompletely node here G P s = .ok s' ∧ Inv node here s' m' ∧ s'.pids P = some l ∧
      members m' = (members m).set G P 0 := by
  have hin : P ∈ history m G := by
    rw [← h.pids, groupsOf_of_some hP]
    exact List.mem_cons_self
  obtain ⟨d, hG, -⟩ := exists_of_mem hin
  have hhist := history_of_some hG
  have hwf := leaveGroupCompletelyData_wf (h.wf hG) P
  have hnew := leaveGroupCompletelyData_history (d := d) (node P = here) P
  obtain ⟨g, o, hr, hg, ho, hoh⟩ := putOrErase_spec h.holds (show m G ≠ none by rw [hG]; exact Option.some_ne_none d)
    (leaveGroupCompletelyData (node P = here) P d)
  rw [hnew, ← hhist] at hoh
  obtain ⟨pids, hu, hPl, -, hs, hp⟩ := update_erase_spec h.sorted hP G
  refine ⟨⟨g, pids⟩, _, ?_, h.replace hg (fun d' hd' => ?_) hs ?_, ?_, members_update _ G (fun Q => ?_) ?_⟩
  · rw [leaveGroupCompletely, D.fetch_ok h.holds hG]
    refine (bind_ok hr _).trans ?_
    exact bind_ok hu _
  · rcases ho with ⟨rfl, -⟩ | ⟨rfl, -⟩
    · cases hd'
    · cases hd'
      exact hwf
  · rw [hoh]
    exact update_erase_iff h hp (by simp) fun Q hQ => by simp [hQ]
  · exact hPl.trans (by rw [List.erase_cons_head])
  · rw [hoh, JoinCounts.set]
    by_cases hQ : Q = P
    · rw [if_pos ⟨rfl, hQ⟩, List.count_eq_zero]
      simp [hQ]
    · rw [if_neg fun h => hQ h.2, List.count_filter (by simpa using hQ)]
      rfl
  · exact fun G' hG' Q => ((members m).set_of_ne_name _ hG').symm

/-- A pid leaves every group of its list, and is then in no group. -/
theorem leavePidCompletely_spec {l : List Name} (h : Inv node here s m) (hP : s.pids P = some l) :
    Succeeds node here (leavePidCompletely node here l P s) ((members m).leaveAll P) := by
  induction l generalizing s m with
  | nil =>
    have hnone : ∀ G, members m G P = 0 := fun G => by
      refine Nat.eq_zero_of_not_pos fun hpos => ?_
      have := (h.pids P G).mpr (mem_history.mpr hpos)
      rw [groupsOf_of_some hP] at this
      exact List.not_mem_nil this
    have hgroups : ∀ Q, groupsOf (s.pids.erase P) Q = groupsOf s.pids Q := fun Q => by
      rw [groupsOf, Dict.erase, Function.update_apply]
      split
      · rename_i hQ
        rw [hQ, groupsOf_of_some hP]
        rfl
      · rfl
    refine ⟨_, m, rfl, ⟨h.holds, h.wf, fun Q => ?_, fun Q G => ?_⟩, ?_⟩
    · rw [hgroups]
      exact h.sorted Q
    · rw [hgroups]
      exact h.pids Q G
    · funext G Q
      rw [JoinCounts.leaveAll]
      split
      · rename_i hQ
        rw [hQ, hnone]
      · rfl
  | cons G l ih =>
    obtain ⟨s₁, m₁, hr, h₁, hP₁, hm₁⟩ := leaveGroupCompletely_spec h hP
    obtain ⟨s₂, m₂, hr₂, h₂, hm₂⟩ := ih h₁ hP₁
    refine ⟨s₂, m₂, by rw [leavePidCompletely, hr]; exact hr₂, h₂, ?_⟩
    rw [hm₂, hm₁]
    funext G' Q
    rw [JoinCounts.leaveAll, JoinCounts.leaveAll]
    split
    · rfl
    · rename_i hQ
      exact (members m).set_of_ne_pid _ hQ

theorem memberDied_spec (h : Inv node here s m) (P : Pid) :
    Succeeds node here (memberDied node here P s) ((members m).leaveAll P) := by
  cases hP : s.pids P with
  | none =>
    refine ⟨s, m, by rw [memberDied, hP], h, ?_⟩
    funext G Q
    rw [JoinCounts.leaveAll]
    split
    · rename_i hQ
      refine Nat.eq_zero_of_not_pos fun hpos => ?_
      have := (h.pids P G).mpr (mem_history.mpr (hQ ▸ hpos))
      rw [groupsOf, hP] at this
      exact List.not_mem_nil this
    · rfl
  | some l =>
    rw [memberDied, hP]
    exact leavePidCompletely_spec h hP

/-- A pid that has a list leaves a group that exists: the group is erased with
its last member, and what remains of its history is in the same order. -/
theorem leaveGroupCount_step (h : Inv node here s m) (Count : Nat) {d : CpgData Pid}
    {l : List Name} (hG : m G = some d) (hl : s.pids P = some l) :
    ∃ s' m', leaveGroupCount node here Count G P s = .ok s' ∧ Inv node here s' m' ∧
      members m' = (members m).leave Count G P ∧ (history m' G).Sublist (history m G) ∧
      (∀ d', m' G = some d' → d'.history ≠ []) ∧ (∀ G' ≠ G, m' G' = m G') ∧ ∃ l', s'.pids P = some l' := by
  have hhist := history_of_some hG
  obtain ⟨d', hd', hwf, hadj, hsub⟩ := leaveGroupCountData_spec (h.wf hG) Count P
  rw [← hhist] at hadj hsub
  obtain ⟨g, o, hr, hg, ho, hoh⟩ := putOrErase_spec h.holds (show m G ≠ none by rw [hG]; exact Option.some_ne_none d) d'
  have hcount : ∀ Q, d'.history.count Q = (members m).leave Count G P G Q := fun Q => by
    have := hadj Q
    rw [JoinCounts.leave, JoinCounts.set]
    by_cases hQ : Q = P
    · subst hQ
      rw [if_pos ⟨rfl, rfl⟩]
      rw [if_pos rfl] at this
      simp only [members]
      omega
    · rw [if_neg fun h => hQ h.2]
      rw [if_neg hQ] at this
      simp only [members]
      omega
  have hne : ∀ Q ≠ P, Q ∈ d'.history ↔ Q ∈ history m G := fun Q hQ => by
    rw [← List.count_pos_iff, hadj.of_ne hQ, List.count_pos_iff]
  have hwf' : ∀ d'', o = some d'' → Wf node here d'' := by
    rintro d'' hd''
    rcases ho with ⟨rfl, -⟩ | ⟨rfl, -⟩
    · cases hd''
    · cases hd''
      exact hwf
  have hm := members_update (m := m) o G (c := (members m).leave Count G P) (fun Q => by rw [hoh, hcount])
    fun G' hG' Q => ((members m).set_of_ne_name _ hG').symm
  have hsub' : (history (Function.update m G o) G).Sublist (history m G) := by
    rw [history_update, if_pos rfl, hoh]
    exact hsub
  have hkept : ∀ d'', Function.update m G o G = some d'' → d''.history ≠ [] := fun d'' hd'' => by
    rw [Function.update_self] at hd''
    rcases ho with ⟨rfl, -⟩ | ⟨rfl, hne⟩
    · cases hd''
    · cases hd''
      exact hne
  have hother : ∀ G' ≠ G, Function.update m G o G' = m G' := fun G' hG' => Function.update_of_ne hG' ..
  have hrun : ∀ {pids}, updatePids G P (P ∈ d'.history) s.pids = .ok pids →
      leaveGroupCount node here Count G P s = .ok ⟨g, pids⟩ := fun hp => by
    rw [leaveGroupCount, D.fetch_ok h.holds hG]
    show (leaveGroupCountData (node P = here) P Count d >>= _) = _
    rw [hd']
    refine (bind_ok hr _).trans ?_
    exact bind_ok hp _
  by_cases hmem : P ∈ d'.history
  · refine ⟨⟨g, s.pids⟩, _, hrun (if_pos (decide_eq_true hmem)), h.replace hg hwf' h.sorted fun Q G' => ?_, hm, hsub',
      hkept, hother, l, hl⟩
    rw [hoh]
    split
    · rename_i hG'
      rw [h.pids, hG']
      by_cases hQ : Q = P
      · rw [hQ]
        exact iff_of_true (hsub.subset hmem) hmem
      · exact (hne Q hQ).symm
    · exact Iff.rfl
  · obtain ⟨pids, hu, hPl, -, hs, hp⟩ := update_erase_spec h.sorted hl G
    refine ⟨⟨g, pids⟩, _, hrun ((if_neg (by simpa using hmem)).trans hu), h.replace hg hwf' hs ?_, hm, hsub',
      hkept, hother, _, hPl⟩
    rw [hoh]
    exact update_erase_iff h hp hmem hne

theorem leaveGroupCount_spec (h : Inv node here s m) (Count : Nat) (hP : 0 < members m G P) :
    Succeeds node here (leaveGroupCount node here Count G P s) ((members m).leave Count G P) := by
  obtain ⟨d, hG, -⟩ := exists_of_mem (mem_history.mpr hP)
  obtain ⟨l, hl⟩ := exists_of_mem_groupsOf ((h.pids P G).mpr (mem_history.mpr hP))
  obtain ⟨s', m', hr, h', hm', -⟩ := leaveGroupCount_step h Count hG hl
  exact ⟨s', m', hr, h', hm'⟩

/-- The groups of `leave_counts` must be distinct: the second time a pid may have left already. -/
theorem leaveCounts_spec {Counts : List (Name × Nat)} (hd : (Counts.map Prod.fst).Nodup)
    (h : Inv node here s m) (hP : ∀ c ∈ Counts, 0 < members m c.1 P) :
    Succeeds node here (Counts.foldlM (fun s (G, Count) => leaveGroupCount node here Count G P s) s)
      (Counts.foldl (fun c p => c.leave p.2 p.1 P) (members m)) := by
  induction Counts generalizing s m with
  | nil => exact ⟨s, m, rfl, h, rfl⟩
  | cons c Counts ih =>
    obtain ⟨G, Count⟩ := c
    obtain ⟨hG, hd⟩ := List.nodup_cons.mp hd
    obtain ⟨s₁, m₁, hr, h₁, hm₁⟩ := leaveGroupCount_spec h Count (hP (G, Count) List.mem_cons_self)
    obtain ⟨s₂, m₂, hr₂, h₂, hm₂⟩ := ih hd h₁ fun c hc => by
      have hne : c.1 ≠ G := fun he => hG (List.mem_map.mpr ⟨c, hc, he⟩)
      rw [hm₁, JoinCounts.leave, set_of_ne_name _ _ hne]
      exact hP c (List.mem_cons_of_mem _ hc)
    refine ⟨s₂, m₂, by rw [List.foldlM_cons]; exact (bind_ok hr _).trans hr₂, h₂, ?_⟩
    rw [hm₂, hm₁, List.foldl_cons]

/-! ## Exchange -/

/-- One group of the external state is merged into the groups. -/
theorem storeGroup_spec {T : D.Data} {mT : Name → Option (CpgData Pid)} (hT : D.Holds T mT)
    (hwf : ∀ {G d}, mT G = some d → Wf node here d) (G : Name) (V1 : CpgData Pid) :
    ∃ T' d, storeGroup node here G V1 T = .ok T' ∧ D.Holds T' (Function.update mT G (some d)) ∧
      Wf node here d ∧ ∀ P, d.history.count P =
        if 0 < V1.history.count P then V1.history.count P else members mT G P := by
  rw [storeGroup, D.isKey_ok hT]
  cases hG : mT G with
  | none =>
    obtain ⟨hnew, hhist⟩ := @storeNewGroup_wf _ _ _ node here V1.history
    obtain ⟨T', hr, hT'⟩ := D.store_ok hT G (storeNewGroup node here V1.history.reverse { history := V1.history })
    refine ⟨T', _, hr, hT', hnew, fun P => ?_⟩
    rw [hhist, members, history, hG]
    split
    · rfl
    · rename_i h0
      exact Nat.eq_zero_of_not_pos h0
  | some d =>
    obtain ⟨d', hd', hwf', hcount⟩ := storeConflict_spec (hwf hG) V1.history (usort V1.history)
    obtain ⟨T', hr, hT'⟩ := D.update3_ok hT hG hd'
    refine ⟨T', d', hr, hT', hwf', fun P => ?_⟩
    rw [hcount, members, history_of_some hG]
    simp only [mem_usort, List.count_pos_iff]

theorem members_congr {m' : Name → Option (CpgData Pid)} (h : m' G = m G) : members m' G = members m G := by
  funext P
  rw [members, members, history, history, h]

/-- The fold over the external groups merges each of them. -/
theorem foldlM_storeGroup_spec {l : List (Name × CpgData Pid)} (hl : (l.map Prod.fst).Nodup) {T : D.Data}
    {mT : Name → Option (CpgData Pid)} (hT : D.Holds T mT) (hwf : ∀ {G d}, mT G = some d → Wf node here d) :
    ∃ T' m', l.foldlM (fun T p => storeGroup node here p.1 p.2 T) T = .ok T' ∧ D.Holds T' m' ∧
      (∀ {G d}, m' G = some d → Wf node here d) ∧
      (∀ G V1, (G, V1) ∈ l → m' G ≠ none ∧ ∀ P, members m' G P =
        if 0 < V1.history.count P then V1.history.count P else members mT G P) ∧
      ∀ G, G ∉ l.map Prod.fst → m' G = mT G := by
  induction l generalizing T mT with
  | nil => exact ⟨T, mT, rfl, hT, hwf, fun _ _ h => absurd h List.not_mem_nil, fun _ _ => rfl⟩
  | cons p l ih =>
    obtain ⟨G, V1⟩ := p
    obtain ⟨hG, hl⟩ := List.nodup_cons.mp hl
    obtain ⟨T₁, d, hr, hT₁, hd, hcount⟩ := storeGroup_spec hT hwf G V1
    have hself : ∀ P, members (Function.update mT G (some d)) G P = d.history.count P := fun P => by
      rw [members, history_update, if_pos rfl, Option.elim_some]
    have hother : ∀ G' ≠ G, Function.update mT G (some d) G' = mT G' := fun G' hG' => Function.update_of_ne hG' ..
    obtain ⟨T₂, m₂, hr₂, hT₂, hwf₂, hin, hout⟩ := ih hl hT₁ fun {G' d'} hd' => by
      rw [Function.update_apply] at hd'
      split at hd'
      · exact Option.some.inj hd' ▸ hd
      · exact hwf hd'
    refine ⟨T₂, m₂, by rw [List.foldlM_cons]; exact (bind_ok hr _).trans hr₂, hT₂, hwf₂, ?_, fun G' hG' => ?_⟩
    · intro G' V1' hmem
      rcases List.mem_cons.mp hmem with he | hmem
      · cases he
        refine ⟨by rw [hout G hG, Function.update_self]; exact Option.some_ne_none d, fun P => ?_⟩
        rw [← hcount, ← hself, members_congr (hout G hG)]
      · have hne : G' ≠ G := fun he => hG (List.mem_map.mpr ⟨_, hmem, he⟩)
        obtain ⟨hsome, hin⟩ := hin G' V1' hmem
        exact ⟨hsome, fun P => by rw [hin, members_congr (hother G' hne)]⟩
    · rw [List.map_cons, List.mem_cons, not_or] at hG'
      rw [hout G' hG'.2, hother G' hG'.1]

theorem merge_pids (e s : Dict Pid (List Name)) (P : Pid) :
    groupsOf (Dict.merge (fun _ V1 V2 => umerge V2 V1) e s) P = umerge (groupsOf s P) (groupsOf e P) := by
  rw [groupsOf, groupsOf, groupsOf, Dict.merge]
  cases e P with
  | none => exact (umerge_nil _).symm
  | some l => cases s P <;> simp

/-- Merging the state of another server, whose groups are then there. -/
theorem store_step {there : Node} {e : State D} {me : Name → Option (CpgData Pid)} (he : Inv node there e me)
    (h : Inv node here s m) :
    ∃ s' m', store node here e s = .ok s' ∧ Inv node here s' m' ∧
      members m' = JoinCounts.exchange (members me) (members m) ∧ ∀ G, me G ≠ none → m' G ≠ none := by
  obtain ⟨l, hnodup, hmem, hfold⟩ := D.fold_ok he.holds
  obtain ⟨T, m', hr, hT, hwf, hin, hout⟩ := foldlM_storeGroup_spec hnodup h.holds h.wf
  have hcount : members m' = JoinCounts.exchange (members me) (members m) := by
    funext G P
    rw [JoinCounts.exchange]
    cases hG : me G with
    | none =>
      have h0 : members me G P = 0 := by
        rw [members, history, hG]
        rfl
      rw [h0, if_neg (Nat.lt_irrefl 0), members_congr (hout G fun hc => ?_)]
      obtain ⟨⟨G', V1⟩, hp, rfl⟩ := List.mem_map.mp hc
      rw [hmem, hG] at hp
      cases hp
    | some V1 =>
      rw [(hin G V1 ((hmem G V1).mpr hG)).2 P, show members me G P = V1.history.count P by
        rw [members, history_of_some hG]]
  have hsome : ∀ G, me G ≠ none → m' G ≠ none := fun G hG => by
    obtain ⟨V1, hV1⟩ := Option.ne_none_iff_exists'.mp hG
    exact (hin G V1 ((hmem G V1).mpr hV1)).1
  refine ⟨_, m', by rw [store, hfold]; exact bind_ok hr _, ⟨hT, hwf, fun P => ?_, fun P G => ?_⟩, hcount, hsome⟩
  · show Sorted (groupsOf (Dict.merge _ e.pids s.pids) P)
    rw [merge_pids]
    exact umerge_sorted (h.sorted P) (he.sorted P)
  · show G ∈ groupsOf (Dict.merge _ e.pids s.pids) P ↔ _
    rw [merge_pids, mem_umerge, h.pids, he.pids, mem_history, mem_history, mem_history, hcount, JoinCounts.exchange]
    split <;> omega

theorem store_spec {there : Node} {e : State D} {me : Name → Option (CpgData Pid)} (he : Inv node there e me)
    (h : Inv node here s m) :
    Succeeds node here (store node here e s) (JoinCounts.exchange (members me) (members m)) := by
  obtain ⟨s', m', hr, h', hm', -⟩ := store_step he h
  exact ⟨s', m', hr, h', hm'⟩

/-! ## Runs -/

theorem leaveValid_iff (h : Inv node here s m) (G : Name) (P : Pid) :
    leaveValid G P s.pids = true ↔ 0 < members m G P := by
  rw [← mem_history, ← h.pids, leaveValid, groupsOf]
  cases s.pids P <;> simp

theorem leaveCountsValid_spec (h : Inv node here s m) (Counts : List (Name × Nat)) (P : Pid) :
    (leaveCountsValid Counts P s.pids = true → (members m).leavesValid Counts P) ∧
      ((members m).leavesValid Counts P → leaveCountsValid Counts P s.pids = true ∨ Counts = []) := by
  have hiff : ∀ l, s.pids P = some l →
      (leaveCountsValid Counts P s.pids = true ↔ (members m).leavesValid Counts P) := fun l hl => by
    rw [leaveCountsValid, hl]
    simp only [List.all_eq_true, Bool.and_eq_true, decide_eq_true_eq, JoinCounts.leavesValid, ← mem_history,
      ← h.pids, groupsOf_of_some hl]
  cases hl : s.pids P with
  | some l => exact ⟨(hiff l hl).mp, fun hv => .inl ((hiff l hl).mpr hv)⟩
  | none =>
    refine ⟨fun hv => ?_, fun hv => .inr (List.eq_nil_iff_forall_not_mem.mpr fun c hc => ?_)⟩
    · rw [leaveCountsValid, hl] at hv
      cases hv
    · obtain ⟨l', hl'⟩ := exists_of_mem_groupsOf ((h.pids P c.1).mpr (mem_history.mpr (hv c hc).2))
      rw [hl] at hl'
      cases hl'

/-- The group names of `leave_counts` are distinct. -/
def Request.Distinct : Request Name Pid → Prop
  | .leaveCounts Counts _ => (Counts.map Prod.fst).Nodup
  | _ => True

/-- Every request succeeds, has its effect on the join counts, and changes nothing when it is refused. -/
theorem handleRequest_spec (h : Inv node here s m) {r : Request Name Pid} (hd : r.Distinct) :
    ∃ b s' m', handleRequest node here r s = .ok (b, s') ∧ Inv node here s' m' ∧
      members m' = (members m).effect r ∧ (b = false → s' = s) := by
  have hok : ∀ {x : Except Exn (State D)} {c}, Succeeds node here x c →
      ∃ b s' m', (do return (true, ← x) : Except Exn (Bool × State D)) = .ok (b, s') ∧ Inv node here s' m' ∧
        members m' = c ∧ (b = false → s' = s) := by
    rintro x c ⟨s', m', hx, hs', hm'⟩
    exact ⟨true, s', m', by rw [hx]; rfl, hs', hm', fun hb => by cases hb⟩
  cases r with
  | join G P => exact hok (joinGroup_spec h G P)
  | leave P =>
    rw [handleRequest]
    cases hP : s.pids P with
    | some l => exact hok (leavePidCompletely_spec h hP)
    | none =>
      obtain ⟨s', m', hr, h', hm'⟩ := memberDied_spec h P
      rw [memberDied, hP] at hr
      cases hr
      exact ⟨false, s, m', rfl, h', hm', fun _ => rfl⟩
  | leaveGroup G P =>
    rw [handleRequest]
    by_cases hv : leaveValid G P s.pids = true
    · rw [if_pos hv]
      exact hok (leaveGroupCount_spec h 1 ((leaveValid_iff h G P).mp hv))
    · rw [if_neg hv]
      rw [leaveValid_iff h] at hv
      exact ⟨false, s, m, rfl, h, (set_eq_self (by omega)).symm, fun _ => rfl⟩
  | leaveCounts Counts P =>
    obtain ⟨hv₁, hv₂⟩ := leaveCountsValid_spec h Counts P
    rw [handleRequest, JoinCounts.effect]
    by_cases hv : leaveCountsValid Counts P s.pids = true
    · rw [if_pos hv, if_pos (hv₁ hv)]
      exact hok (leaveCounts_spec hd h fun c hc => (hv₁ hv c hc).2)
    · rw [if_neg hv]
      refine ⟨false, s, m, rfl, h, ?_, fun _ => rfl⟩
      split
      · rename_i hv'
        rw [(hv₂ hv').resolve_left hv]
        rfl
      · rfl

/-- What an operation does to the join counts. -/
def Op.effect (c : JoinCounts Name Pid) : Op Name Pid → JoinCounts Name Pid
  | create _ => c
  | delete G => c.deleteGroup G
  | request r => c.effect r
  | down P => c.leaveAll P

/-- The group names of a `leave_counts` request are distinct. -/
def Op.Distinct : Op Name Pid → Prop
  | request r => r.Distinct
  | _ => True

theorem apply_spec (h : Inv node here s m) {op : Op Name Pid} (hd : op.Distinct) :
    Succeeds node here (op.apply node here s) (op.effect (members m)) := by
  cases op with
  | create G => exact createGroup_spec h G
  | delete G => exact deleteGroup_spec h G
  | request r =>
    obtain ⟨b, s', m', hr, h', hm', -⟩ := handleRequest_spec h hd
    exact ⟨s', m', by rw [Op.apply, hr]; rfl, h', hm'⟩
  | down P => exact memberDied_spec h P

end CloudI.Cpg
