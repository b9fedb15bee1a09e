import Mathlib.Data.List.Lex
import CloudI.Cpg.Consistency
import CloudI.Trie.Dict

/-!
# Servers that exchange their states

The states that the servers of a scope reach, on each node, when they serve
requests and exchange their states in any order: all are consistent
(`reachable_consistent`). `exchange_agrees_iff` says when two servers that
exchange their states agree on the join counts, and `exchange_swaps` has two
that end with each other's count.
-/

set_option linter.unusedSectionVars false

namespace CloudI.Cpg

open JoinCounts

variable {Name Pid Node : Type} [LinearOrder Name] [LinearOrder Pid] [DecidableEq Node]
  {D : DictI Name (CpgData Pid)} {node : Pid → Node} {here : Node} {s : State D}
  {m : Name → Option (CpgData Pid)}

/-- The states that the server of each node reaches, exchanging states with the others. -/
inductive Reachable (D : DictI Name (CpgData Pid)) (node : Pid → Node) : Node → State D → Prop
  | init (here : Node) : Reachable D node here (State.init D)
  | op {here : Node} {s s' : State D} (op : Op Name Pid) : Reachable D node here s → op.Distinct →
      op.apply node here s = .ok s' → Reachable D node here s'
  | exchange {here there : Node} {s e s' : State D} : Reachable D node here s → Reachable D node there e →
      store node here e s = .ok s' → Reachable D node here s'

theorem Reachable.inv (h : Reachable D node here s) : ∃ m, Inv node here s m := by
  induction h with
  | init here => exact ⟨_, inv_init⟩
  | op op _ hd hr ih =>
    obtain ⟨m, hm⟩ := ih
    obtain ⟨s', m', hr', h', -⟩ := apply_spec hm hd
    rw [hr] at hr'
    cases hr'
    exact ⟨m', h'⟩
  | exchange _ _ hr ih ih' =>
    obtain ⟨m, hm⟩ := ih
    obtain ⟨me, he⟩ := ih'
    obtain ⟨s', m', hr', h', -⟩ := store_spec he hm
    rw [hr] at hr'
    cases hr'
    exact ⟨m', h'⟩

/-- A server that reached its state does not raise. -/
theorem Reachable.apply_ok (h : Reachable D node here s) {op : Op Name Pid} (hd : op.Distinct) :
    ∃ s', op.apply node here s = .ok s' := by
  obtain ⟨m, hm⟩ := h.inv
  obtain ⟨s', -, hr, -⟩ := apply_spec hm hd
  exact ⟨s', hr⟩

/-- Every group found is well formed, and the list of every pid is sorted and
has exactly the groups in whose history the pid occurs. -/
def Consistent (node : Pid → Node) (here : Node) (s : State D) : Prop :=
  (∀ G, ∃ o, D.find G s.groups = .ok o ∧ ∀ d, o = some d → Wf node here d) ∧
    ∀ P, Sorted (groupsOf s.pids P) ∧
      ∀ G, G ∈ groupsOf s.pids P ↔ ∃ d, D.find G s.groups = .ok (some d) ∧ P ∈ d.history

theorem Inv.consistent (h : Inv node here s m) : Consistent node here s := by
  refine ⟨fun G => ⟨m G, D.find_ok h.holds G, fun d hd => h.wf hd⟩, fun P => ⟨h.sorted P, fun G => ?_⟩⟩
  rw [h.pids, D.find_ok h.holds]
  constructor
  · intro hP
    obtain ⟨d, hd, hP⟩ := exists_of_mem hP
    exact ⟨d, by rw [hd], hP⟩
  · rintro ⟨d, hd, hP⟩
    rwa [history_of_some (Except.ok.inj hd)]

/-- The storage of the configuration, for groups of pids that are numbers. -/
abbrev Storage : DictI Trie.Key (CpgData Nat) := Trie.dictI

/-- The answer to a `join_count` call. -/
def joinCount (G : Name) (P : Pid) (s : State D) : Except Exn Nat := do
  match ← D.find G s.groups with
  | none => return 0
  | some d => if d.localCount = 0 ∧ d.remoteCount = 0 then return 0 else return d.history.count P

theorem joinCount_eq (h : Inv node here s m) (G : Name) (P : Pid) : joinCount G P s = .ok (members m G P) := by
  rw [joinCount, D.find_ok h.holds, members, history]
  cases hG : m G with
  | none => rfl
  | some d =>
    show (if d.localCount = 0 ∧ d.remoteCount = 0 then _ else _) = _
    split
    · rename_i h0
      have hwf := h.wf hG
      have hl : d.localPids = [] := List.length_eq_zero_iff.mp (by have := hwf.local_count; omega)
      have hr : d.remotePids = [] := List.length_eq_zero_iff.mp (by have := hwf.remote_count; omega)
      have hh := hwf.history
      rw [hl, hr, List.append_nil] at hh
      rw [Option.elim_some, hh.eq_nil]
      rfl
    · rfl

/-- After both have merged the other's state, the two servers have the same join counts. -/
def AgreeAfterExchange (node : Pid → Node) (A B : Node) (sA sB : State D) : Prop :=
  ∃ sA' sB', store node A sB sA = .ok sA' ∧ store node B sA sB = .ok sB' ∧
    ∀ G P, joinCount G P sA' = joinCount G P sB'

/-- Each server takes over the counts of the other, as far as they are not 0. -/
theorem agreeAfterExchange_iff {A B : Node} {sA sB : State D} {mA mB : Name → Option (CpgData Pid)}
    (hA : Inv node A sA mA) (hB : Inv node B sB mB) :
    AgreeAfterExchange node A B sA sB ↔
      ∀ G P, members mA G P = 0 ∨ members mB G P = 0 ∨ members mA G P = members mB G P := by
  obtain ⟨sA', mA', hrA, hA', hmA⟩ := store_spec hB hA
  obtain ⟨sB', mB', hrB, hB', hmB⟩ := store_spec hA hB
  have hiff : AgreeAfterExchange node A B sA sB ↔ ∀ G P, members mA' G P = members mB' G P := by
    constructor
    · rintro ⟨tA, tB, htA, htB, hag⟩ G P
      rw [hrA] at htA
      rw [hrB] at htB
      cases htA
      cases htB
      have := hag G P
      rw [joinCount_eq hA', joinCount_eq hB'] at this
      exact Except.ok.inj this
    · exact fun h => ⟨sA', sB', hrA, hrB, fun G P => by rw [joinCount_eq hA', joinCount_eq hB', h]⟩
  rw [hiff]
  refine forall_congr' fun G => forall_congr' fun P => ?_
  rw [hmA, hmB, JoinCounts.exchange, JoinCounts.exchange]
  split <;> split <;> omega

/-- Two servers that exchange their states agree exactly when no pid has two
different positive counts in a group. -/
theorem exchange_agrees_iff {A B : Node} {sA sB : State D} (hA : Reachable D node A sA)
    (hB : Reachable D node B sB) :
    AgreeAfterExchange node A B sA sB ↔
      ∀ G P nA nB, joinCount G P sA = .ok nA → joinCount G P sB = .ok nB → nA = 0 ∨ nB = 0 ∨ nA = nB := by
  obtain ⟨mA, hmA⟩ := hA.inv
  obtain ⟨mB, hmB⟩ := hB.inv
  rw [agreeAfterExchange_iff hmA hmB]
  refine forall_congr' fun G => forall_congr' fun P => ?_
  rw [joinCount_eq hmA, joinCount_eq hmB]
  constructor
  · rintro h nA nB ⟨⟩ ⟨⟩
    exact h
  · exact fun h => h _ _ rfl rfl

/-- Pid 0 of node 0 has joined on both servers and pid 1 of node 1 only there: after the exchange both have both. -/
theorem exchange_agrees_joined : ∃ sA sB : State Storage,
    joinCount ⟨[97], by decide⟩ 0 sA = .ok 1 ∧ joinCount ⟨[97], by decide⟩ 0 sB = .ok 1 ∧
      joinCount ⟨[97], by decide⟩ 1 sA = .ok 0 ∧ joinCount ⟨[97], by decide⟩ 1 sB = .ok 1 ∧
      AgreeAfterExchange id 0 1 sA sB := by
  have hjoin (P : Nat) : (Op.request (.join ⟨[97], by decide⟩ P) : Op Trie.Key Nat).Distinct := trivial
  obtain ⟨s₁, m₁, hr₁, h₁, hm₁⟩ := apply_spec (inv_init : Inv id 0 (State.init Storage) _) (hjoin 0)
  obtain ⟨s₂, m₂, hr₂, h₂, hm₂⟩ := apply_spec (inv_init : Inv id 1 (State.init Storage) _) (hjoin 0)
  obtain ⟨s₃, m₃, hr₃, h₃, hm₃⟩ := apply_spec h₂ (hjoin 1)
  refine ⟨s₁, s₃, ?_, ?_, ?_, ?_, (exchange_agrees_iff (.op _ (.init 0) (hjoin 0) hr₁)
    (.op _ (.op _ (.init 1) (hjoin 0) hr₂) (hjoin 1) hr₃)).mpr fun G P nA nB hA hB => ?_⟩
  · rw [joinCount_eq h₁, hm₁]
    rfl
  · rw [joinCount_eq h₃, hm₃, hm₂]
    rfl
  · rw [joinCount_eq h₁, hm₁]
    rfl
  · rw [joinCount_eq h₃, hm₃, hm₂]
    rfl
  · rw [joinCount_eq h₁, hm₁] at hA
    rw [joinCount_eq h₃, hm₃, hm₂] at hB
    simp only [Op.effect, JoinCounts.effect, JoinCounts.join, JoinCounts.set, Except.ok.injEq] at hA hB
    by_cases hP : G = ⟨[97], by decide⟩ ∧ P = 0
    · simp [hP] at hA hB
      exact .inr (.inr (hA.symm.trans hB))
    · rw [if_neg hP] at hA
      exact .inl hA.symm

/-- Pid 0 of node 0 has joined twice there and once on node 1: each server ends with the other's count. -/
theorem exchange_swaps : ∃ sA sB : State Storage,
    Reachable Storage id 0 sA ∧ Reachable Storage id 1 sB ∧ ¬ AgreeAfterExchange id 0 1 sA sB := by
  have hjoin : (Op.request (.join ⟨[97], by decide⟩ 0) : Op Trie.Key Nat).Distinct := trivial
  obtain ⟨s₁, m₁, hr₁, h₁, hm₁⟩ := apply_spec (inv_init : Inv id 0 (State.init Storage) _) hjoin
  obtain ⟨s₂, m₂, hr₂, h₂, hm₂⟩ := apply_spec h₁ hjoin
  obtain ⟨s₃, m₃, hr₃, h₃, hm₃⟩ := apply_spec (inv_init : Inv id 1 (State.init Storage) _) hjoin
  refine ⟨s₂, s₃, .op _ (.op _ (.init 0) hjoin hr₁) hjoin hr₂, .op _ (.init 1) hjoin hr₃, fun hag => ?_⟩
  have := (agreeAfterExchange_iff h₂ h₃).mp hag ⟨[97], by decide⟩ 0
  rw [hm₂, hm₁, hm₃] at this
  revert this
  decide

end CloudI.Cpg
