import CloudI.Cpg.JoinCounts
import CloudI.Framework.Replay

/-!
# Requests that conflict

Two requests on one pid conflict when one joins a group that the other leaves,
or when both leave named groups, share one, and one of them names several: it
is refused as a whole once the other has emptied the group they share. All
other requests have the same effect on the join counts in either order
(`commutes_of_not_conflicts`).
-/

namespace CloudI.Cpg

open JoinCounts Replay

variable {Name Pid : Type} [LinearOrder Name] [LinearOrder Pid]

namespace Request

def pid : Request Name Pid → Pid
  | join _ P | leave P | leaveGroup _ P | leaveCounts _ P => P

/-- The groups that the request names. -/
def names : Request Name Pid → List Name
  | join G _ | leaveGroup G _ => [G]
  | leave _ => []
  | leaveCounts Counts _ => Counts.map Prod.fst

/-- The counts that the request reads and changes. -/
def foot : Request Name Pid → Set (Name × Pid)
  | leave P => { k | k.2 = P }
  | r => { k | k.1 ∈ r.names ∧ k.2 = r.pid }

/-- The request leaves the group. -/
def Leaves : Request Name Pid → Name → Prop
  | join _ _, _ => False
  | leave _, _ => True
  | r, G => G ∈ r.names

/-- The order of the requests matters. -/
def Conflicts (r r' : Request Name Pid) : Prop :=
  r.pid = r'.pid ∧
    match r, r' with
    | join _ _, join _ _ => False
    | join G _, r' => r'.Leaves G
    | r, join G _ => r.Leaves G
    | leave _, _ => False
    | _, leave _ => False
    | r, r' => (1 < r.names.length ∨ 1 < r'.names.length) ∧ ∃ G ∈ r.names, G ∈ r'.names

omit [LinearOrder Name] [LinearOrder Pid] in
theorem foot_subset (r : Request Name Pid) : r.foot ⊆ { k | k.2 = r.pid } := by
  cases r with
  | leave P => exact fun _ h => h
  | join G P => exact fun _ h => h.2
  | leaveGroup G P => exact fun _ h => h.2
  | leaveCounts Counts P => exact fun _ h => h.2

omit [LinearOrder Name] [LinearOrder Pid] in
theorem disjoint_of_pid {r r' : Request Name Pid} (h : r.pid ≠ r'.pid) : ∀ k ∈ r.foot, k ∉ r'.foot := by
  refine fun k hk hk' => h ?_
  rw [← r.foot_subset hk, ← r'.foot_subset hk']

end Request

/-! ## The footprint of a request -/

theorem foldl_leave (m : JoinCounts Name Pid) (Counts : List (Name × Nat)) (P : Pid) (G : Name) (Q : Pid) :
    Counts.foldl (fun m c => m.leave c.2 c.1 P) m G Q =
      if Q = P then ((Counts.filter (·.1 = G)).map Prod.snd).foldl (· - ·) (m G Q) else m G Q := by
  induction Counts generalizing m with
  | nil => simp
  | cons c Counts ih =>
    rw [List.foldl_cons, ih, JoinCounts.leave, JoinCounts.set]
    by_cases hQ : Q = P
    · by_cases hG : c.1 = G
      · simp [hQ, hG]
      · simp [hQ, hG, Ne.symm hG]
    · simp [hQ]

/-- A request changes its footprint, by what it reads there. -/
theorem effect_local : Local (fun (m : JoinCounts Name Pid) k => m k.1 k.2) effect Request.foot where
  ext m m' h := by
    funext G P
    exact h (G, P)
  frame m r k hk := by
    obtain ⟨G, Q⟩ := k
    cases r with
    | join G' P => exact if_neg fun h => hk ⟨List.mem_singleton.mpr h.1, h.2⟩
    | leave P => exact if_neg hk
    | leaveGroup G' P => exact if_neg fun h => hk ⟨List.mem_singleton.mpr h.1, h.2⟩
    | leaveCounts Counts P =>
      simp only [effect]
      split
      · rw [foldl_leave]
        split
        · rename_i hQ
          have hnil : Counts.filter (·.1 = G) = [] := by
            refine List.filter_eq_nil_iff.mpr fun c hc hG => hk ⟨?_, hQ⟩
            exact List.mem_map.mpr ⟨c, hc, by simpa using hG⟩
          rw [hnil]
          rfl
        · rfl
      · rfl
  reads m m' r h k hk := by
    obtain ⟨G, Q⟩ := k
    cases r with
    | join G' P =>
      obtain ⟨hG, rfl⟩ := hk
      obtain rfl := List.mem_singleton.mp hG
      have := h (G, Q) ⟨hG, rfl⟩
      simp only [effect, JoinCounts.join, set_self]
      simp only at this
      rw [this]
    | leave P =>
      simp only [effect, JoinCounts.leaveAll]
      exact (if_pos hk).trans (if_pos hk).symm
    | leaveGroup G' P =>
      obtain ⟨hG, rfl⟩ := hk
      obtain rfl := List.mem_singleton.mp hG
      have := h (G, Q) ⟨hG, rfl⟩
      simp only [effect, JoinCounts.leave, set_self]
      simp only at this
      rw [this]
    | leaveCounts Counts P =>
      have hvalid : m.leavesValid Counts P ↔ m'.leavesValid Counts P := by
        refine forall_congr' fun c => forall_congr' fun hc => ?_
        rw [show m c.1 P = m' c.1 P from h (c.1, P) ⟨List.mem_map_of_mem hc, rfl⟩]
      have := h (G, Q) hk
      simp only at this
      simp only [effect, hvalid]
      split
      · rw [foldl_leave, foldl_leave, this]
      · exact this

/-! ## Requests that commute -/

theorem leave_leave (m : JoinCounts Name Pid) (G : Name) (P : Pid) (a b : Nat) :
    (m.leave a G P).leave b G P = (m.leave b G P).leave a G P := by
  funext G' P'
  simp only [JoinCounts.leave, JoinCounts.set]
  split
  · simp only [and_self, if_true]
    omega
  · rfl

/-- A request that leaves one named group is not refused. -/
theorem effect_leaveCounts_singleton (m : JoinCounts Name Pid) (c : Name × Nat) (P : Pid) :
    m.effect (.leaveCounts [c] P) = m.leave c.2 c.1 P := by
  rw [effect]
  split
  · rfl
  · rename_i h
    refine (set_eq_self ?_).symm
    by_contra hne
    exact h fun c' hc' => by
      obtain rfl := List.mem_singleton.mp hc'
      omega

/-- After all groups are left there is nothing more to leave. -/
theorem effect_leaveAll {r : Request Name Pid} {P : Pid} (hP : r.pid = P) (hr : ∀ G, r ≠ .join G P)
    (m : JoinCounts Name Pid) : (m.leaveAll P).effect r = m.leaveAll P ∧ (m.effect r).leaveAll P = m.leaveAll P := by
  constructor
  · have hzero : ∀ G, m.leaveAll P G P = 0 := fun G => if_pos rfl
    cases r with
    | join G P' =>
      obtain rfl : P' = P := hP
      exact absurd rfl (hr G)
    | leave P' =>
      obtain rfl : P' = P := hP
      funext G Q
      simp only [effect, JoinCounts.leaveAll]
      split <;> rfl
    | leaveGroup G P' =>
      obtain rfl : P' = P := hP
      exact set_eq_self (by rw [hzero G])
    | leaveCounts Counts P' =>
      obtain rfl : P' = P := hP
      rw [effect]
      split
      · rename_i hv
        have hnil : Counts = [] := List.eq_nil_iff_forall_not_mem.mpr fun c hc => by
          have := (hv c hc).2
          rw [hzero] at this
          omega
        rw [hnil]
        rfl
      · rfl
  · funext G Q
    rw [JoinCounts.leaveAll, JoinCounts.leaveAll]
    split
    · rfl
    · rename_i hQ
      exact effect_local.frame m r (G, Q) fun h => hQ ((r.foot_subset h).trans hP)

theorem commutes_leaveAll {r : Request Name Pid} {P : Pid} (hP : r.pid = P) (hr : ∀ G, r ≠ .join G P) :
    Commutes effect (.leave P) r := fun m => by
  obtain ⟨h₁, h₂⟩ := effect_leaveAll hP hr m
  exact h₁.trans h₂.symm

omit [LinearOrder Name] [LinearOrder Pid] in
theorem disjoint_foot {r r' : Request Name Pid} (hr : ∀ P, r ≠ .leave P) (hr' : ∀ P, r' ≠ .leave P)
    (h : ∀ G ∈ r.names, G ∉ r'.names) : ∀ k ∈ r.foot, k ∉ r'.foot := by
  have hfoot : ∀ {r : Request Name Pid}, (∀ P, r ≠ .leave P) → r.foot = { k | k.1 ∈ r.names ∧ k.2 = r.pid } := by
    intro r hr
    cases r with
    | leave P => exact absurd rfl (hr P)
    | join | leaveGroup | leaveCounts => rfl
  rw [hfoot hr, hfoot hr']
  exact fun k hk hk' => h k.1 hk.1 hk'.1

/-- A request that leaves one named group, in the words of `leave`. -/
theorem effect_of_names {r : Request Name Pid} {G : Name} (hn : r.names = [G]) (hl : ∀ P, r ≠ .join G P) :
    ∃ n, ∀ m : JoinCounts Name Pid, m.effect r = m.leave n G r.pid := by
  cases r with
  | join G' P =>
    obtain rfl := List.singleton_inj.mp hn
    exact absurd rfl (hl P)
  | leave P => cases hn
  | leaveGroup G' P =>
    obtain rfl := List.singleton_inj.mp hn
    exact ⟨1, fun m => rfl⟩
  | leaveCounts Counts P =>
    obtain ⟨c, rfl, rfl⟩ := List.map_eq_singleton_iff.mp hn
    exact ⟨c.2, fun m => effect_leaveCounts_singleton m c P⟩

/-- Two requests that leave named groups, with one group each or no group in common. -/
theorem commutes_of_names {r r' : Request Name Pid} (hr : ∀ P, r ≠ .leave P) (hr' : ∀ P, r' ≠ .leave P)
    (hj : ∀ G P, r ≠ .join G P) (hj' : ∀ G P, r' ≠ .join G P) (hP : r.pid = r'.pid)
    (h : ¬ ((1 < r.names.length ∨ 1 < r'.names.length) ∧ ∃ G ∈ r.names, G ∈ r'.names)) :
    Commutes effect r r' := by
  by_cases hd : ∀ G ∈ r.names, G ∉ r'.names
  · exact commutes_of_disjoint effect_local (disjoint_foot hr hr' hd)
  · simp only [not_forall, not_not, exists_prop] at hd
    obtain ⟨G, hG, hG'⟩ := hd
    have hlen : ∀ {l : List Name}, G ∈ l → ¬ 1 < l.length → l = [G] := fun {l} hl hlt => by
      obtain ⟨G', rfl⟩ := List.length_eq_one_iff.mp
        (le_antisymm (not_lt.mp hlt) (List.length_pos_of_mem hl))
      rw [List.mem_singleton.mp hl]
    have hnot : ¬ (1 < r.names.length ∨ 1 < r'.names.length) := fun hlt => h ⟨hlt, G, hG, hG'⟩
    rw [not_or] at hnot
    obtain ⟨a, ha⟩ := effect_of_names (hlen hG hnot.1) (hj G)
    obtain ⟨b, hb⟩ := effect_of_names (hlen hG' hnot.2) (hj' G)
    intro m
    rw [ha, ha, hb, hb, hP]
    exact leave_leave m G r'.pid a b

/-- A join and a request that does not leave its group. -/
theorem commutes_join {G : Name} {P : Pid} {r : Request Name Pid} (hl : ¬ r.Leaves G) :
    Commutes effect (.join G P) r := by
  cases r with
  | join G' P' =>
    intro m
    by_cases h : G' = G ∧ P' = P
    · rw [h.1, h.2]
    · refine commutes_of_disjoint effect_local (fun k hk hk' => h ?_) m
      obtain ⟨hG, hP⟩ := hk
      obtain ⟨hG', hP'⟩ := hk'
      exact ⟨(List.mem_singleton.mp hG').symm.trans (List.mem_singleton.mp hG), hP'.symm.trans hP⟩
  | leave P' => exact absurd trivial hl
  | leaveGroup G' P' =>
    refine commutes_of_disjoint effect_local (disjoint_foot nofun nofun fun G'' hG'' hmem => hl ?_)
    exact List.mem_singleton.mp hG'' ▸ hmem
  | leaveCounts Counts P' =>
    refine commutes_of_disjoint effect_local (disjoint_foot nofun nofun fun G'' hG'' hmem => hl ?_)
    exact List.mem_singleton.mp hG'' ▸ hmem

/-- Requests that do not conflict have the same effect in either order. -/
theorem commutes_of_not_conflicts {r r' : Request Name Pid} (h : ¬ r.Conflicts r') : Commutes effect r r' := by
  by_cases hP : r.pid = r'.pid
  · have h : ¬ _ := fun hc => h ⟨hP, hc⟩
    cases r with
    | join G P =>
      cases r' with
      | join G' P' => exact commutes_join id
      | leave | leaveGroup | leaveCounts => exact commutes_join h
    | leave P =>
      cases r' with
      | join G' P' => exact absurd trivial h
      | leave | leaveGroup | leaveCounts => exact commutes_leaveAll hP.symm nofun
    | leaveGroup G P =>
      cases r' with
      | join G' P' => exact (commutes_join h).symm
      | leave P' => exact (commutes_leaveAll hP nofun).symm
      | leaveGroup | leaveCounts => exact commutes_of_names nofun nofun nofun nofun hP h
    | leaveCounts Counts P =>
      cases r' with
      | join G' P' => exact (commutes_join h).symm
      | leave P' => exact (commutes_leaveAll hP nofun).symm
      | leaveGroup | leaveCounts => exact commutes_of_names nofun nofun nofun nofun hP h
  · exact commutes_of_disjoint effect_local (Request.disjoint_of_pid hP)

end CloudI.Cpg
