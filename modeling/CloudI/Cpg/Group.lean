import Mathlib.Data.List.Perm.Basic
import Mathlib.Data.List.Count
import Mathlib.Algebra.Order.Group.Int
import CloudI.Framework.Exn
import CloudI.Framework.Lists

/-!
# A process group

The data of one group and the functions that change it. An entry of the group
is the pid that joined; its monitor reference is not kept. The clauses for a
local and for a remote pid differ only in the list and the counter they
change, so each function is stated once, with `isLocal` to tell which
(`CpgData.change`).

Every change is an adjustment of how often one pid occurs (`Adjusts`), the
same in the entries and in the history, and a group stays well formed under
such a change (`Wf.change`).
-/

namespace CloudI.Cpg

variable {Pid Node : Type} [LinearOrder Pid] [DecidableEq Node]

/-- The record `cpg_data`; the history has every join, from newest to oldest. -/
structure CpgData (Pid : Type) where
  localCount : Int := 0
  localPids : List Pid := []
  remoteCount : Int := 0
  remotePids : List Pid := []
  history : List Pid := []

namespace CpgData

/-- The entries of the pids of this node, or of the other nodes. -/
def entries (d : CpgData Pid) (isLocal : Bool) : List Pid := if isLocal then d.localPids else d.remotePids

/-- Change the counter by `k` and replace the entries and the history. -/
def change (d : CpgData Pid) (isLocal : Bool) (k : Int) (entries history : List Pid) : CpgData Pid :=
  if isLocal then { d with localCount := d.localCount + k, localPids := entries, history := history }
  else { d with remoteCount := d.remoteCount + k, remotePids := entries, history := history }

omit [LinearOrder Pid] in
@[simp] theorem change_history (d : CpgData Pid) (isLocal : Bool) (k : Int) (l h : List Pid) :
    (d.change isLocal k l h).history = h := by
  cases isLocal <;> rfl

end CpgData

/-! ## Joining and leaving -/

section Functions

variable (isLocal : Bool) (P : Pid)

/-- The group after a join, in `join_group/4`. -/
def joinData (d : CpgData Pid) : CpgData Pid := d.change isLocal 1 (P :: d.entries isLocal) (P :: d.history)

/-- The group that the first join makes, in `join_group/4`. -/
def joinInitial : CpgData Pid :=
  if isLocal then { localCount := 1, localPids := [P], history := [P] }
  else { remoteCount := 1, remotePids := [P], history := [P] }

/-- `leave_group_completely_entries/4` -/
def leaveGroupCompletelyEntries : List Pid → Nat → List Pid → Nat × List Pid
  | [], I, Output => (I, Output.reverse)
  | Q :: Entries, I, Output =>
    if Q = P then leaveGroupCompletelyEntries Entries (I + 1) Output
    else leaveGroupCompletelyEntries Entries I (Q :: Output)

/-- `Fupdate` of `leave_group_completely/4` -/
def leaveGroupCompletelyData (d : CpgData Pid) : CpgData Pid :=
  let (I, NewEntries) := leaveGroupCompletelyEntries P (d.entries isLocal) 0 []
  d.change isLocal (-I) NewEntries (d.history.filter (· ≠ P))

/-- `leave_group_count_entries/5`, on the entries from oldest to newest. -/
def leaveGroupCountEntries : Nat → List Pid → Nat → List Pid → Nat × List Pid
  | 0, Entries, I, Output => (I, Entries.reverse ++ Output)
  | _ + 1, [], I, Output => (I, Output)
  | Count + 1, Q :: Entries, I, Output =>
    if Q = P then leaveGroupCountEntries Count Entries (I + 1) Output
    else leaveGroupCountEntries (Count + 1) Entries I (Q :: Output)

/-- `leave_group_count_history/4`, on the history from oldest to newest. -/
def leaveGroupCountHistory : Nat → List Pid → List Pid → Except Exn (List Pid)
  | 0, History, Output => .ok (History.reverse ++ Output)
  | _ + 1, [], _ => .error .functionClause
  | Count + 1, Q :: History, Output =>
    if Q = P then leaveGroupCountHistory Count History Output
    else leaveGroupCountHistory (Count + 1) History (Q :: Output)

/-- `Fupdate` of `leave_group_count/5` -/
def leaveGroupCountData (Count : Nat) (d : CpgData Pid) : Except Exn (CpgData Pid) := do
  let (I, NewEntries) := leaveGroupCountEntries P Count (d.entries isLocal).reverse 0 []
  let NextHistory ← leaveGroupCountHistory P I d.history.reverse []
  return d.change isLocal (-I) NewEntries NextHistory

/-! ## Merging -/

/-- `store_conflict_add_entries/3` -/
def storeConflictAddEntries : Nat → List Pid → List Pid
  | 0, Entries => Entries
  | I + 1, Entries => storeConflictAddEntries I (P :: Entries)

/-- `store_conflict_add_history/3` -/
def storeConflictAddHistory : Nat → List Pid → List Pid
  | 0, History => History
  | I + 1, History => storeConflictAddHistory I (P :: History)

/-- `store_conflict_remove_entries/3`, with the number of entries to remove. -/
def storeConflictRemoveEntries : Nat → List Pid → Except Exn (List Pid)
  | 0, Entries => .ok Entries
  | _ + 1, [] => .error .functionClause
  | I + 1, Q :: Entries =>
    if Q = P then storeConflictRemoveEntries I Entries
    else (Q :: ·) <$> storeConflictRemoveEntries (I + 1) Entries

/-- `store_conflict_remove_history/3`, with the number of joins to remove. -/
def storeConflictRemoveHistory : Nat → List Pid → Except Exn (List Pid)
  | 0, History => .ok History
  | _ + 1, [] => .error .functionClause
  | I + 1, Q :: History =>
    if Q = P then storeConflictRemoveHistory I History
    else (Q :: ·) <$> storeConflictRemoveHistory (I + 1) History

/-- What `store_conflict/6` does for one pid of the external group. -/
def storeConflictPid (V1AllPids : List Pid) (V2 : CpgData Pid) : Except Exn (CpgData Pid) := do
  let I : Int := V1AllPids.count P - (V2.entries isLocal).count P
  if 0 < I then
    return V2.change isLocal I (storeConflictAddEntries P I.toNat (V2.entries isLocal))
      (storeConflictAddHistory P I.toNat V2.history)
  else if I < 0 then
    return V2.change isLocal I (← storeConflictRemoveEntries P (-I).toNat (V2.entries isLocal))
      (← storeConflictRemoveHistory P (-I).toNat V2.history)
  else return V2

end Functions

section Store

variable (node : Pid → Node) (here : Node)

/-- `store_conflict/6` -/
def storeConflict (V1AllPids : List Pid) : List Pid → CpgData Pid → Except Exn (CpgData Pid)
  | [], V2 => .ok V2
  | P :: V1Pids, V2 => do
    storeConflict V1AllPids V1Pids (← storeConflictPid (node P = here) P V1AllPids V2)

/-- `store_new_group/5`; the history is already set. -/
def storeNewGroup : List Pid → CpgData Pid → CpgData Pid
  | [], V2 => V2
  | P :: V1AllPids, V2 =>
    storeNewGroup V1AllPids (V2.change (node P = here) 1 (P :: V2.entries (node P = here)) V2.history)

end Store

/-! ## Adjustments -/

/-- The pid occurs `k` times more, and every other one as often. -/
def Adjusts (P : Pid) (k : Int) (l l' : List Pid) : Prop :=
  ∀ Q, (l'.count Q : Int) = l.count Q + if Q = P then k else 0

section

variable {P : Pid} {k : Int} {l l' : List Pid}

theorem adjusts_refl (P : Pid) (l : List Pid) : Adjusts P 0 l l := fun Q => by rw [ite_self, add_zero]

theorem Adjusts.self (h : Adjusts P k l l') : (l'.count P : Int) = l.count P + k := by
  rw [h P, if_pos rfl]

theorem Adjusts.of_ne (h : Adjusts P k l l') {Q : Pid} (hQ : Q ≠ P) : l'.count Q = l.count Q := by
  have := h Q
  rw [if_neg hQ] at this
  omega

/-- A permutation, when the pid occurs more often. -/
theorem Adjusts.perm_add {n : Nat} (h : Adjusts P n l l') : l'.Perm (List.replicate n P ++ l) := by
  refine List.perm_iff_count.mpr fun Q => ?_
  have := h Q
  rw [List.count_append, List.count_replicate]
  by_cases hQ : Q = P
  · subst hQ
    rw [if_pos rfl] at this
    simp only [beq_self_eq_true, if_true]
    omega
  · rw [if_neg hQ] at this
    simp only [beq_iff_eq, Ne.symm hQ, if_false]
    omega

theorem Adjusts.symm (h : Adjusts P k l l') : Adjusts P (-k) l' l := fun Q => by
  rw [h Q]
  split <;> omega

/-- How often each pid occurs is all that matters of the lists. -/
theorem Adjusts.congr {m m' : List Pid} (h : Adjusts P k l l') (hl : ∀ Q, m.count Q = l.count Q)
    (hl' : ∀ Q, m'.count Q = l'.count Q) : Adjusts P k m m' := fun Q => by rw [hl, hl', h Q]

theorem Adjusts.length_eq (h : Adjusts P k l l') : (l'.length : Int) = l.length + k := by
  rcases Int.le_total 0 k with hk | hk
  · obtain ⟨n, rfl⟩ := Int.eq_ofNat_of_zero_le hk
    have := h.perm_add.length_eq
    rw [List.length_append, List.length_replicate] at this
    omega
  · obtain ⟨n, hn⟩ := Int.eq_ofNat_of_zero_le (Int.neg_nonneg_of_nonpos hk)
    have := (hn ▸ h.symm : Adjusts P n l' l).perm_add.length_eq
    rw [List.length_append, List.length_replicate] at this
    omega

theorem Adjusts.mem {Q : Pid} (h : Adjusts P k l l') (hQ : Q ∈ l') : Q = P ∨ Q ∈ l := by
  by_cases hP : Q = P
  · exact .inl hP
  · exact .inr (List.count_pos_iff.mp (h.of_ne hP ▸ List.count_pos_iff.mpr hQ))

end

theorem adjusts_cons (P : Pid) (l : List Pid) : Adjusts P 1 l (P :: l) := fun Q => by
  rw [List.count_cons]
  by_cases hQ : Q = P
  · simp [hQ]
  · simp [hQ, Ne.symm hQ]

theorem leaveGroupCompletelyEntries_spec (P : Pid) (Entries : List Pid) (I : Nat) (Output : List Pid) :
    leaveGroupCompletelyEntries P Entries I Output =
      (I + Entries.count P, Output.reverse ++ Entries.filter (· ≠ P)) := by
  induction Entries generalizing I Output with
  | nil => simp [leaveGroupCompletelyEntries]
  | cons Q Entries ih =>
    rw [leaveGroupCompletelyEntries]
    by_cases hQ : Q = P
    · subst hQ
      rw [if_pos rfl, ih]
      simp [Nat.add_comm, Nat.add_left_comm]
    · rw [if_neg hQ, ih]
      simp [hQ]

theorem adjusts_filter (P : Pid) (l : List Pid) : Adjusts P (-(l.count P)) l (l.filter (· ≠ P)) := fun Q => by
  by_cases hQ : Q = P
  · subst hQ
    rw [if_pos rfl, List.count_eq_zero.mpr (by simp)]
    omega
  · rw [if_neg hQ, List.count_filter (by simpa using hQ), add_zero]

/-- The entries removed are the oldest ones, as many as asked for or all there are. -/
theorem leaveGroupCountEntries_spec (P : Pid) (Count : Nat) (Entries : List Pid) (I : Nat) (Output : List Pid) :
    (leaveGroupCountEntries P Count Entries I Output).1 = I + min Count (Entries.count P) ∧
      Adjusts P (-(min Count (Entries.count P) : Nat)) (Entries ++ Output)
        (leaveGroupCountEntries P Count Entries I Output).2 := by
  fun_induction leaveGroupCountEntries P Count Entries I Output with
  | case1 Entries I Output =>
    rw [Nat.zero_min]
    refine ⟨rfl, (adjusts_refl P _).congr (fun _ => rfl) fun Q => ?_⟩
    rw [List.count_append, List.count_append, List.count_reverse]
  | case2 Count I Output =>
    rw [List.count_nil, Nat.min_zero]
    exact ⟨rfl, adjusts_refl P Output⟩
  | case3 Count Entries I Output ih =>
    obtain ⟨ih₁, ih₂⟩ := ih
    rw [List.count_cons_self, Nat.succ_eq_add_one, Nat.add_min_add_right]
    refine ⟨by omega, fun Q => ?_⟩
    rw [ih₂ Q, List.cons_append, adjusts_cons P (Entries ++ Output) Q]
    split <;> omega
  | case4 Count Q Entries I Output hQ ih =>
    obtain ⟨ih₁, ih₂⟩ := ih
    rw [List.count_cons_of_ne hQ]
    refine ⟨ih₁, ih₂.congr (fun R => ?_) fun _ => rfl⟩
    exact List.perm_middle.symm.count_eq R

/-- The joins removed are the oldest ones; there must be as many as asked for. -/
theorem leaveGroupCountHistory_spec {P : Pid} {Count : Nat} {History : List Pid} (Output : List Pid)
    (h : Count ≤ History.count P) : ∃ r, leaveGroupCountHistory P Count History Output = .ok r ∧
      Adjusts P (-Count) (History ++ Output) r := by
  fun_induction leaveGroupCountHistory P Count History Output with
  | case1 History Output =>
    refine ⟨_, rfl, (adjusts_refl P _).congr (fun _ => rfl) fun Q => ?_⟩
    rw [List.count_append, List.count_append, List.count_reverse]
  | case2 Count Output => exact absurd h (Nat.not_succ_le_zero Count)
  | case3 Count History Output ih =>
    rw [List.count_cons_self] at h
    obtain ⟨r, hr, hadj⟩ := ih (Nat.le_of_succ_le_succ h)
    refine ⟨r, hr, fun Q => ?_⟩
    rw [hadj Q, List.cons_append, adjusts_cons P (History ++ Output) Q]
    split <;> omega
  | case4 Count Q History Output hQ ih =>
    rw [List.count_cons_of_ne hQ] at h
    obtain ⟨r, hr, hadj⟩ := ih h
    exact ⟨r, hr, hadj.congr (fun R => List.perm_middle.symm.count_eq R) fun _ => rfl⟩

/-- The joins that remain are in the same order. -/
theorem leaveGroupCountHistory_sublist {P : Pid} {Count : Nat} {History Output r : List Pid}
    (h : leaveGroupCountHistory P Count History Output = .ok r) : r.Sublist (History.reverse ++ Output) := by
  fun_induction leaveGroupCountHistory P Count History Output with
  | case1 History Output =>
    cases h
    exact List.Sublist.refl _
  | case2 Count Output => cases h
  | case3 Count History Output ih =>
    rw [List.reverse_cons, List.append_assoc]
    exact (ih h).trans ((List.sublist_append_right [P] Output).append_left _)
  | case4 Count Q History Output hQ ih =>
    rw [List.reverse_cons, List.append_assoc]
    exact ih h

theorem storeConflictAddEntries_spec (P : Pid) (I : Nat) (l : List Pid) :
    Adjusts P I l (storeConflictAddEntries P I l) := by
  induction I generalizing l with
  | zero => exact adjusts_refl P l
  | succ I ih =>
    intro Q
    rw [storeConflictAddEntries, ih (P :: l) Q, adjusts_cons P l Q]
    split <;> omega

omit [LinearOrder Pid] in
theorem storeConflictAddHistory_eq (P : Pid) (I : Nat) (l : List Pid) :
    storeConflictAddHistory P I l = storeConflictAddEntries P I l := by
  induction I generalizing l with
  | zero => rfl
  | succ I ih => exact ih (P :: l)

theorem storeConflictRemoveEntries_spec {P : Pid} {I : Nat} {l : List Pid} (h : I ≤ l.count P) :
    ∃ r, storeConflictRemoveEntries P I l = .ok r ∧ Adjusts P (-I) l r := by
  fun_induction storeConflictRemoveEntries P I l with
  | case1 l => exact ⟨l, rfl, adjusts_refl P l⟩
  | case2 I => exact absurd h (Nat.not_succ_le_zero I)
  | case3 I l ih =>
    rw [List.count_cons_self] at h
    obtain ⟨r, hr, hadj⟩ := ih (Nat.le_of_succ_le_succ h)
    refine ⟨r, hr, fun Q => ?_⟩
    rw [hadj Q, adjusts_cons P l Q]
    split <;> omega
  | case4 I Q l hQ ih =>
    rw [List.count_cons_of_ne hQ] at h
    obtain ⟨r, hr, hadj⟩ := ih h
    refine ⟨Q :: r, by rw [hr]; rfl, fun R => ?_⟩
    rw [List.count_cons, List.count_cons, Int.natCast_add, Int.natCast_add, hadj R, add_right_comm]

theorem storeConflictRemoveHistory_eq (P : Pid) (I : Nat) (l : List Pid) :
    storeConflictRemoveHistory P I l = storeConflictRemoveEntries P I l := by
  induction l generalizing I with
  | nil => cases I <;> rfl
  | cons Q l ih =>
    cases I with
    | zero => rfl
    | succ I => rw [storeConflictRemoveHistory, storeConflictRemoveEntries, ih, ih]

/-! ## Well-formed groups -/

omit [LinearOrder Pid] in
theorem joinInitial_eq (isLocal : Bool) (P : Pid) : joinInitial isLocal P = joinData isLocal P {} := by
  cases isLocal <;> rfl

omit [LinearOrder Pid] in
theorem joinData_history (isLocal : Bool) (P : Pid) : (joinData isLocal P d).history = P :: d.history :=
  CpgData.change_history ..

section Wf

variable (node : Pid → Node) (here : Node)

/-- The counters are the lengths, the history is made of the entries, and each
entry is kept on the side of its node. -/
structure Wf (d : CpgData Pid) : Prop where
  local_count : d.localCount = d.localPids.length
  remote_count : d.remoteCount = d.remotePids.length
  history : d.history.Perm (d.localPids ++ d.remotePids)
  local_node : ∀ P ∈ d.localPids, node P = here
  remote_node : ∀ P ∈ d.remotePids, node P ≠ here

variable {node here} {d : CpgData Pid}

omit [LinearOrder Pid] [DecidableEq Node] in
theorem wf_empty : Wf node here ({} : CpgData Pid) :=
  ⟨rfl, rfl, .nil, List.forall_mem_nil _, List.forall_mem_nil _⟩

/-- A pid occurs in the entries of its side as often as in the history. -/
theorem Wf.count_entries (h : Wf node here d) (P : Pid) :
    (d.entries (node P = here)).count P = d.history.count P := by
  rw [h.history.count_eq, List.count_append]
  by_cases hP : node P = here
  · have : d.remotePids.count P = 0 := List.count_eq_zero.mpr fun hm => h.remote_node P hm hP
    rw [CpgData.entries, decide_eq_true hP, if_pos rfl]
    omega
  · have : d.localPids.count P = 0 := List.count_eq_zero.mpr fun hm => hP (h.local_node P hm)
    rw [CpgData.entries, decide_eq_false hP, if_neg Bool.false_ne_true]
    omega

/-- A group stays well formed when the entries and the history of a pid are adjusted alike. -/
theorem Wf.change (h : Wf node here d) {P : Pid} {k : Int} {l l' : List Pid}
    (hl : Adjusts P k (d.entries (node P = here)) l) (hl' : Adjusts P k d.history l') :
    Wf node here (d.change (node P = here) k l l') := by
  have hcount : ∀ Q, (l'.count Q : Int) = d.localPids.count Q + d.remotePids.count Q + if Q = P then k else 0 :=
    fun Q => by rw [hl' Q, h.history.count_eq, List.count_append, Int.natCast_add]
  have hlen := hl.length_eq
  by_cases hP : node P = here
  · simp only [decide_eq_true hP, CpgData.entries, if_true] at hl hlen
    rw [decide_eq_true hP]
    refine ⟨?_, h.remote_count, List.perm_iff_count.mpr fun Q => ?_, fun Q hQ => ?_, h.remote_node⟩
    · show d.localCount + k = l.length
      rw [h.local_count, hlen]
    · show l'.count Q = (l ++ d.remotePids).count Q
      have := hl Q
      have := hcount Q
      rw [List.count_append]
      omega
    · rcases hl.mem hQ with rfl | hQ
      · exact hP
      · exact h.local_node Q hQ
  · simp only [decide_eq_false hP, CpgData.entries, Bool.false_eq_true, if_false] at hl hlen
    rw [decide_eq_false hP]
    refine ⟨h.local_count, ?_, List.perm_iff_count.mpr fun Q => ?_, h.local_node, fun Q hQ => ?_⟩
    · show d.remoteCount + k = l.length
      rw [h.remote_count, hlen]
    · show l'.count Q = (d.localPids ++ l).count Q
      have := hl Q
      have := hcount Q
      rw [List.count_append]
      omega
    · rcases hl.mem hQ with rfl | hQ
      · exact hP
      · exact h.remote_node Q hQ

theorem joinData_wf (h : Wf node here d) (P : Pid) : Wf node here (joinData (node P = here) P d) :=
  h.change (adjusts_cons P _) (adjusts_cons P _)

theorem leaveGroupCompletelyData_history (isLocal : Bool) (P : Pid) :
    (leaveGroupCompletelyData isLocal P d).history = d.history.filter (· ≠ P) := CpgData.change_history ..

theorem leaveGroupCompletelyData_wf (h : Wf node here d) (P : Pid) :
    Wf node here (leaveGroupCompletelyData (node P = here) P d) := by
  rw [leaveGroupCompletelyData, leaveGroupCompletelyEntries_spec]
  simp only [Nat.zero_add, List.reverse_nil, List.nil_append]
  refine h.change (adjusts_filter P _) ?_
  rw [h.count_entries]
  exact adjusts_filter P d.history

/-- The pid leaves as often as asked, or completely. -/
theorem leaveGroupCountData_spec (h : Wf node here d) (Count : Nat) (P : Pid) :
    ∃ d', leaveGroupCountData (node P = here) P Count d = .ok d' ∧ Wf node here d' ∧
      Adjusts P (-(min Count (d.history.count P) : Nat)) d.history d'.history ∧ d'.history.Sublist d.history := by
  obtain ⟨hI, hl⟩ := leaveGroupCountEntries_spec P Count (d.entries (node P = here)).reverse 0 []
  rw [leaveGroupCountData]
  generalize leaveGroupCountEntries P Count (d.entries (node P = here)).reverse 0 [] = r at hI hl
  obtain ⟨I, l⟩ := r
  simp only [List.count_reverse, List.append_nil, h.count_entries, Nat.zero_add] at hI hl
  subst hI
  obtain ⟨l', hl', hadj⟩ := @leaveGroupCountHistory_spec _ _ P (min Count (d.history.count P)) d.history.reverse []
    (by rw [List.count_reverse]; exact Nat.min_le_right _ _)
  have hsub := leaveGroupCountHistory_sublist hl'
  rw [List.append_nil] at hadj
  rw [List.reverse_reverse, List.append_nil] at hsub
  have hhist := hadj.congr (m := d.history) (fun Q => List.count_reverse.symm) fun _ => rfl
  refine ⟨_, by simp only [hl']; rfl, h.change (hl.congr (fun Q => List.count_reverse.symm) fun _ => rfl) hhist, ?_⟩
  rw [CpgData.change_history]
  exact ⟨hhist, hsub⟩

/-- The pid then occurs as often as in the external group. -/
theorem storeConflictPid_spec (h : Wf node here d) (V1AllPids : List Pid) (P : Pid) :
    ∃ d', storeConflictPid (node P = here) P V1AllPids d = .ok d' ∧ Wf node here d' ∧
      Adjusts P (V1AllPids.count P - d.history.count P) d.history d'.history := by
  have hc := h.count_entries P
  rw [storeConflictPid]
  simp only [hc]
  by_cases hpos : (0 : Int) < V1AllPids.count P - d.history.count P
  · have hI : ((V1AllPids.count P - d.history.count P : Int).toNat : Int) =
        V1AllPids.count P - d.history.count P := Int.toNat_of_nonneg hpos.le
    have hadd := fun l => storeConflictAddEntries_spec P (V1AllPids.count P - d.history.count P : Int).toNat l
    rw [hI] at hadd
    simp only [if_pos hpos]
    refine ⟨_, rfl, h.change (hadd _) ?_, ?_⟩
    · rw [storeConflictAddHistory_eq]
      exact hadd _
    · rw [CpgData.change_history, storeConflictAddHistory_eq]
      exact hadd _
  · by_cases hneg : (V1AllPids.count P - d.history.count P : Int) < 0
    · have hI : -((-(V1AllPids.count P - d.history.count P : Int)).toNat : Int) =
          V1AllPids.count P - d.history.count P := by omega
      obtain ⟨l, hl, hadj⟩ := @storeConflictRemoveEntries_spec _ _ P
        (-(V1AllPids.count P - d.history.count P : Int)).toNat (d.entries (node P = here)) (by omega)
      obtain ⟨l', hl', hadj'⟩ := @storeConflictRemoveEntries_spec _ _ P
        (-(V1AllPids.count P - d.history.count P : Int)).toNat d.history (by omega)
      rw [hI] at hadj hadj'
      simp only [if_neg hpos, if_pos hneg, hl, storeConflictRemoveHistory_eq, hl']
      refine ⟨_, rfl, h.change hadj hadj', ?_⟩
      rw [CpgData.change_history]
      exact hadj'
    · have h0 : (V1AllPids.count P - d.history.count P : Int) = 0 := by omega
      simp only [h0]
      exact ⟨d, rfl, h, adjusts_refl P _⟩

/-- The merged group has each pid as often as the external one, where that has it. -/
theorem storeConflict_spec (h : Wf node here d) (V1AllPids l : List Pid) :
    ∃ d', storeConflict node here V1AllPids l d = .ok d' ∧ Wf node here d' ∧
      ∀ Q, d'.history.count Q = if Q ∈ l then V1AllPids.count Q else d.history.count Q := by
  induction l generalizing d with
  | nil => exact ⟨d, rfl, h, fun Q => (if_neg List.not_mem_nil).symm⟩
  | cons P l ih =>
    obtain ⟨d₁, hd₁, h₁, hadj⟩ := storeConflictPid_spec h V1AllPids P
    obtain ⟨d₂, hd₂, h₂, hcount⟩ := ih h₁
    refine ⟨d₂, by rw [storeConflict, hd₁]; exact hd₂, h₂, fun Q => ?_⟩
    rw [hcount Q]
    by_cases hQ : Q = P
    · subst hQ
      have := hadj.self
      rw [if_pos List.mem_cons_self]
      split <;> omega
    · rw [hadj.of_ne hQ]
      simp only [List.mem_cons, hQ, false_or]

omit [LinearOrder Pid] in
theorem storeNewGroup_eq (l : List Pid) (d : CpgData Pid) :
    storeNewGroup node here l d =
      { localCount := d.localCount + (l.filter (node · = here)).length
        localPids := (l.filter (node · = here)).reverse ++ d.localPids
        remoteCount := d.remoteCount + (l.filter (fun P => !decide (node P = here))).length
        remotePids := (l.filter (fun P => !decide (node P = here))).reverse ++ d.remotePids
        history := d.history } := by
  induction l generalizing d with
  | nil => simp [storeNewGroup]
  | cons P l ih =>
    rw [storeNewGroup, ih]
    by_cases hP : node P = here
    · simp [hP, CpgData.change, CpgData.entries, add_assoc, add_comm]
    · simp [hP, CpgData.change, CpgData.entries, add_assoc, add_comm]

omit [LinearOrder Pid] in
/-- A new group has the history of the external one. -/
theorem storeNewGroup_wf (V1History : List Pid) :
    Wf node here (storeNewGroup node here V1History.reverse { history := V1History }) ∧
      (storeNewGroup node here V1History.reverse { history := V1History }).history = V1History := by
  rw [storeNewGroup_eq]
  refine ⟨⟨?_, ?_, ?_, fun P hP => ?_, fun P hP => ?_⟩, rfl⟩
  · simp
  · simp
  · simp only [List.filter_reverse, List.reverse_reverse, List.append_nil]
    exact (List.filter_append_perm _ V1History).symm
  · exact (by simpa using hP : P ∈ V1History ∧ node P = here).2
  · exact (by simpa using hP : P ∈ V1History ∧ node P ≠ here).2

end Wf

end CloudI.Cpg
