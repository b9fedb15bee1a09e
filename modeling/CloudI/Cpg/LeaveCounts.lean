import Mathlib.Algebra.GroupWithZero.Nat
import CloudI.Cpg.Exchange
import CloudI.Trie.Update

/-!
# Leaving several groups at once

A `leave_counts` request is checked once, against the state before it, and its
entries are then served one after the other. `foldlM_leave_iff` says when they
all succeed: an entry finds its group as long as another pid is in it, or the
entries before it have left a join of the pid. `Served` has the states that a
server reaches with any requests, also with those that name a group twice.
-/

set_option linter.unusedSectionVars false

namespace CloudI.Cpg

open JoinCounts

variable {Name Pid Node : Type} [LinearOrder Name] [LinearOrder Pid] [DecidableEq Node]
  {D : DictI Name (CpgData Pid)} {node : Pid → Node} {here : Node} {s : State D}
  {m : Name → Option (CpgData Pid)}

/-- `DictI:fetch/2` raises without the key. -/
def FetchRaises (D : DictI Name (CpgData Pid)) : Prop :=
  ∀ {g m}, D.Holds g m → ∀ G, m G = none → ∃ e, D.fetch G g = .error e

/-! ## The entries of a request -/

/-- What the entries ask for a group. -/
def requested (Counts : List (Name × Nat)) (G : Name) : Nat := ((Counts.filter (·.1 = G)).map Prod.snd).sum

theorem requested_cons (G : Name) (Count : Nat) (Counts : List (Name × Nat)) (G' : Name) :
    requested ((G, Count) :: Counts) G' = (if G' = G then Count else 0) + requested Counts G' := by
  by_cases hG : G' = G
  · simp [requested, hG]
  · simp [requested, hG, Ne.symm hG]

/-- Each entry finds its group: another pid is in it, or the pid itself still is. -/
def Finds (m : Name → Option (CpgData Pid)) (P : Pid) (Counts : List (Name × Nat)) : Prop :=
  ∀ pre G Count post, Counts = pre ++ (G, Count) :: post →
    (∃ Q ∈ history m G, Q ≠ P) ∨ requested pre G < members m G P

variable {Counts : List (Name × Nat)} {P : Pid}

theorem Finds.exists_mem {G : Name} {Count : Nat}
    (h : Finds m P ((G, Count) :: Counts)) : ∃ Q, Q ∈ history m G := by
  rcases h [] G Count Counts rfl with ⟨Q, hQ, -⟩ | hpos
  · exact ⟨Q, hQ⟩
  · exact ⟨P, mem_history.mpr hpos⟩

theorem Finds.head {G : Name} {Count : Nat} (h : Finds m P ((G, Count) :: Counts)) : ∃ d, m G = some d := by
  obtain ⟨Q, hQ⟩ := h.exists_mem
  obtain ⟨d, hd, -⟩ := exists_of_mem hQ
  exact ⟨d, hd⟩

/-- After the first entry the others find their groups as they did. -/
theorem finds_cons {m₁ : Name → Option (CpgData Pid)} {G : Name} {Count : Nat}
    (hG : ∃ Q, Q ∈ history m G) (hm : members m₁ = (members m).leave Count G P) :
    Finds m P ((G, Count) :: Counts) ↔ Finds m₁ P Counts := by
  have hother : ∀ G', (∃ Q ∈ history m₁ G', Q ≠ P) ↔ ∃ Q ∈ history m G', Q ≠ P := fun G' => by
    refine exists_congr fun Q => and_congr_left fun hQ => ?_
    rw [mem_history, mem_history, hm, leave, set_of_ne_pid _ _ hQ]
  have hself : ∀ pre G', requested pre G' < members m₁ G' P ↔
      requested ((G, Count) :: pre) G' < members m G' P := fun pre G' => by
    rw [hm, leave, requested_cons]
    by_cases hG' : G' = G
    · rw [hG', set_self, if_pos rfl]
      omega
    · rw [set_of_ne_name _ _ hG', if_neg hG', Nat.zero_add]
  constructor
  · intro h pre G' Count' post he
    rw [hother, hself]
    exact h _ G' Count' post (by rw [he]; rfl)
  · intro h pre G' Count' post he
    cases pre with
    | nil =>
      cases he
      obtain ⟨Q, hQ⟩ := hG
      by_cases hQP : Q = P
      · subst hQP
        exact .inr (mem_history.mp hQ)
      · exact .inl ⟨Q, hQ, hQP⟩
    | cons p pre =>
      obtain ⟨hp, he'⟩ := List.cons.inj he
      subst hp
      rw [← hother, ← hself]
      exact h pre G' Count' post he'

/-! ## Serving the entries -/

/-- The joins of the pid are fewer by what was asked, as far as there were
enough, the other joins are the same, and each history keeps its order. -/
structure Leaves (m m' : Name → Option (CpgData Pid)) (Counts : List (Name × Nat)) (P : Pid) : Prop where
  self : ∀ G, members m' G P = members m G P - requested Counts G
  other : ∀ G, ∀ Q ≠ P, members m' G Q = members m G Q
  order : ∀ G, (history m' G).Sublist (history m G)

theorem foldlM_leave_ok (h : Inv node here s m) (hP : ∃ l, s.pids P = some l) (hf : Finds m P Counts) :
    ∃ s' m', Counts.foldlM (fun s (G, Count) => leaveGroupCount node here Count G P s) s = .ok s' ∧
      Inv node here s' m' ∧ Leaves m m' Counts P := by
  induction Counts generalizing s m with
  | nil => exact ⟨s, m, rfl, h, fun G => rfl, fun _ _ _ => rfl, fun G => List.Sublist.refl _⟩
  | cons c Counts ih =>
    obtain ⟨G, Count⟩ := c
    obtain ⟨l, hl⟩ := hP
    obtain ⟨d, hG⟩ := hf.head
    obtain ⟨s₁, m₁, hr, h₁, hm₁, hsub, -, hsame, hP₁⟩ := leaveGroupCount_step h Count hG hl
    obtain ⟨s₂, m₂, hr₂, h₂, hself, hother, horder⟩ := ih h₁ hP₁ ((finds_cons hf.exists_mem hm₁).mp hf)
    refine ⟨s₂, m₂, by rw [List.foldlM_cons]; exact (bind_ok hr _).trans hr₂, h₂, fun G' => ?_, fun G' Q hQ => ?_,
      fun G' => (horder G').trans ?_⟩
    · rw [hself, hm₁, leave, requested_cons]
      by_cases hG' : G' = G
      · rw [hG', set_self, if_pos rfl]
        omega
      · rw [set_of_ne_name _ _ hG', if_neg hG', Nat.zero_add]
    · rw [hother G' Q hQ, hm₁, leave, set_of_ne_pid _ _ hQ]
    · by_cases hG' : G' = G
      · rw [hG']
        exact hsub
      · rw [history, history, hsame G' hG']

/-- The entries are served exactly when each of them finds its group. -/
theorem foldlM_leave_iff (hD : FetchRaises D) (h : Inv node here s m)
    (hP : ∃ l, s.pids P = some l) (hne : ∀ c ∈ Counts, ∀ d, m c.1 = some d → d.history ≠ []) :
    (∃ s', Counts.foldlM (fun s (G, Count) => leaveGroupCount node here Count G P s) s = .ok s') ↔
      Finds m P Counts := by
  constructor
  · rintro ⟨s', hs'⟩
    induction Counts generalizing s m with
    | nil =>
      intro pre G Count post he
      cases pre <;> cases he
    | cons c Counts ih =>
      obtain ⟨G, Count⟩ := c
      obtain ⟨l, hl⟩ := hP
      rw [List.foldlM_cons] at hs'
      cases hG : m G with
      | none =>
        obtain ⟨e, he⟩ := hD h.holds G hG
        have hr : leaveGroupCount node here Count G P s = .error e := by
          rw [leaveGroupCount, he]
          rfl
        change leaveGroupCount node here Count G P s >>= _ = _ at hs'
        rw [hr] at hs'
        cases hs'
      | some d =>
        obtain ⟨s₁, m₁, hr, h₁, hm₁, -, hkept, hsame, hP₁⟩ := leaveGroupCount_step h Count hG hl
        have hin : ∃ Q, Q ∈ history m G := by
          rw [history_of_some hG]
          exact List.exists_mem_of_ne_nil _ (hne _ List.mem_cons_self d hG)
        refine (finds_cons hin hm₁).mpr (ih h₁ hP₁ (fun c hc d' hd' => ?_) ((bind_ok hr _).symm.trans hs'))
        by_cases hc' : c.1 = G
        · exact hkept d' (hc' ▸ hd')
        · rw [hsame _ hc'] at hd'
          exact hne c (List.mem_cons_of_mem _ hc) d' hd'
  · intro hf
    obtain ⟨s', m', hr, -⟩ := foldlM_leave_ok h hP hf
    exact ⟨s', hr⟩

/-! ## Runs -/

/-- The states that the server of each node reaches with any requests, exchanging states with the others. -/
inductive Served (D : DictI Name (CpgData Pid)) (node : Pid → Node) : Node → State D → Prop
  | init (here : Node) : Served D node here (State.init D)
  | op {here : Node} {s s' : State D} (op : Op Name Pid) : Served D node here s →
      op.apply node here s = .ok s' → Served D node here s'
  | exchange {here there : Node} {s e s' : State D} : Served D node here s → Served D node there e →
      store node here e s = .ok s' → Served D node here s'

/-- A pid that may leave has a list, and the groups named are not empty. -/
theorem Inv.of_leaveCountsValid (h : Inv node here s m) (hv : leaveCountsValid Counts P s.pids = true) :
    (∃ l, s.pids P = some l) ∧ ∀ c ∈ Counts, ∀ d, m c.1 = some d → d.history ≠ [] := by
  refine ⟨?_, fun c hc d hd hnil => ?_⟩
  · cases hl : s.pids P with
    | none =>
      rw [leaveCountsValid, hl] at hv
      cases hv
    | some l => exact ⟨l, rfl⟩
  · have hpos := ((leaveCountsValid_spec h Counts P).1 hv c hc).2
    rw [members, history_of_some hd, hnil] at hpos
    cases hpos

/-- Every request that is served keeps the state consistent, also one that names a group twice. -/
theorem Op.inv (hD : FetchRaises D) (h : Inv node here s m) {op : Op Name Pid} {s' : State D}
    (hr : op.apply node here s = .ok s') : ∃ m', Inv node here s' m' := by
  have hof : op.Distinct → ∃ m', Inv node here s' m' := fun hd => by
    obtain ⟨s'', m', hr', h', -⟩ := apply_spec h hd
    rw [hr] at hr'
    cases hr'
    exact ⟨m', h'⟩
  cases op with
  | create G => exact hof trivial
  | delete G => exact hof trivial
  | down P => exact hof trivial
  | request r =>
    cases r with
    | join G P => exact hof trivial
    | leave P => exact hof trivial
    | leaveGroup G P => exact hof trivial
    | leaveCounts Counts P =>
      rw [Op.apply, handleRequest] at hr
      by_cases hv : leaveCountsValid Counts P s.pids = true
      · rw [if_pos hv] at hr
        obtain ⟨hP, hne⟩ := h.of_leaveCountsValid hv
        cases hrun : Counts.foldlM (fun s (G, Count) => leaveGroupCount node here Count G P s) s with
        | error e =>
          rw [hrun] at hr
          cases hr
        | ok s'' =>
          rw [hrun] at hr
          cases hr
          obtain ⟨s₁, m₁, hr₁, h₁, -⟩ := foldlM_leave_ok h hP ((foldlM_leave_iff hD h hP hne).mp ⟨_, hrun⟩)
          rw [hrun] at hr₁
          cases hr₁
          exact ⟨m₁, h₁⟩
      · rw [if_neg hv] at hr
        cases hr
        exact ⟨m, h⟩

theorem Served.inv (hD : FetchRaises D) (h : Served D node here s) : ∃ m, Inv node here s m := by
  induction h with
  | init here => exact ⟨_, inv_init⟩
  | op op _ hr ih =>
    obtain ⟨m, hm⟩ := ih
    exact op.inv hD hm hr
  | exchange _ _ hr ih ih' =>
    obtain ⟨m, hm⟩ := ih
    obtain ⟨me, he⟩ := ih'
    obtain ⟨s', m', hr', h', -⟩ := store_spec he hm
    rw [hr] at hr'
    cases hr'
    exact ⟨m', h'⟩

/-- The history of a group, empty without the group. -/
def historyIn (G : Name) (s : State D) : List Pid :=
  match D.find G s.groups with
  | .ok (some d) => d.history
  | _ => []

theorem historyIn_eq (h : Inv node here s m) (G : Name) : historyIn G s = history m G := by
  rw [historyIn, D.find_ok h.holds, history]
  cases m G <;> rfl

/-- The request is served, and the pid leaves each group as often as asked. -/
def ServesLeaves (node : Pid → Node) (here : Node) (s : State D) (Counts : List (Name × Nat)) (P : Pid) : Prop :=
  ∃ s', handleRequest node here (.leaveCounts Counts P) s = .ok (true, s') ∧
    (∀ G, (historyIn G s').count P = (historyIn G s).count P - requested Counts G) ∧
    (∀ G, ∀ Q ≠ P, (historyIn G s').count Q = (historyIn G s).count Q) ∧
    ∀ G, (historyIn G s').Sublist (historyIn G s)

theorem servesLeaves_iff (hD : FetchRaises D) (h : Inv node here s m)
    (hv : leaveCountsValid Counts P s.pids = true) :
    ServesLeaves node here s Counts P ↔ Finds m P Counts := by
  obtain ⟨hP, hne⟩ := h.of_leaveCountsValid hv
  have hreq : handleRequest node here (.leaveCounts Counts P) s = do
      return (true, ← Counts.foldlM (fun s (G, Count) => leaveGroupCount node here Count G P s) s) := if_pos hv
  constructor
  · rintro ⟨s', hr, -⟩
    rw [hreq] at hr
    obtain ⟨s'', hs'', -⟩ := bind_eq_ok hr
    exact (foldlM_leave_iff hD h hP hne).mp ⟨s'', hs''⟩
  · intro hf
    obtain ⟨s', m', hr, h', hself, hother, horder⟩ := foldlM_leave_ok h hP hf
    refine ⟨s', by rw [hreq, hr]; rfl, fun G => ?_, fun G Q hQ => ?_, fun G => ?_⟩
    · rw [historyIn_eq h', historyIn_eq h]
      exact hself G
    · rw [historyIn_eq h', historyIn_eq h]
      exact hother G Q hQ
    · rw [historyIn_eq h', historyIn_eq h]
      exact horder G

/-- A request that is accepted is served right if and only if each entry finds
its group: another pid is in it, or the entries before it leave a join of the
pid. -/
theorem leave_counts_served_iff (hD : FetchRaises D) (h : Served D node here s)
    (hv : leaveCountsValid Counts P s.pids = true) :
    ServesLeaves node here s Counts P ↔ ∀ pre G Count post, Counts = pre ++ (G, Count) :: post →
      (∃ Q ∈ historyIn G s, Q ≠ P) ∨ requested pre G < (historyIn G s).count P := by
  obtain ⟨m, hm⟩ := h.inv hD
  rw [servesLeaves_iff hD hm hv]
  simp only [historyIn_eq hm]
  rfl

/-! ## Two entries for one group -/

theorem fetchRaises_storage : FetchRaises Storage := fun h G hG =>
  Trie.fetch_absent ((h.2.2 G).trans hG)

theorem a_ne_nil : ([97] : List Nat) ≠ [] := List.cons_ne_nil 97 []

/-- The group `a`. -/
abbrev groupA : Trie.Key := ⟨[97], a_ne_nil⟩

/-- Pid 0 of node 0 is the only member of the group `a`. -/
theorem served_join : ∃ s : State Storage, ∃ m, Served Storage id 0 s ∧ Inv id 0 s m ∧
    members m = JoinCounts.join (members fun _ => none) groupA 0 := by
  have hjoin : (Op.request (.join groupA 0) : Op Trie.Key Nat).Distinct := trivial
  obtain ⟨s, m, hr, hm, he⟩ := apply_spec (inv_init : Inv id 0 (State.init Storage) _) hjoin
  exact ⟨s, m, .op _ (.init 0) hr, hm, he⟩

theorem leaveCountsValid_join {s : State Storage} {m : Trie.Key → Option (CpgData Nat)} (h : Inv id 0 s m)
    (hm : members m = JoinCounts.join (members fun _ => none) groupA 0) {Counts : List (Trie.Key × Nat)}
    (hC : ∀ c ∈ Counts, c = (groupA, 1)) (hne : Counts ≠ []) : leaveCountsValid Counts 0 s.pids = true := by
  refine ((leaveCountsValid_spec h Counts 0).2 fun c hc => ?_).resolve_right hne
  rw [hC c hc, hm]
  decide

/-- One entry for the group is served. -/
theorem leave_counts_once : ∃ s : State Storage, ServesLeaves id 0 s [(groupA, 1)] 0 := by
  obtain ⟨s, m, hs, h, hm⟩ := served_join
  refine ⟨s, (leave_counts_served_iff fetchRaises_storage hs (leaveCountsValid_join h hm (by simp) (by simp))).mpr ?_⟩
  intro pre G Count post he
  refine .inr ?_
  cases pre with
  | nil =>
    obtain ⟨he, -⟩ := List.cons.inj he
    cases he
    rw [historyIn_eq h, show (history m groupA).count 0 = members m groupA 0 from rfl, hm]
    decide
  | cons p pre => cases pre <;> cases (List.cons.inj he).2

/-- Two entries for the group are accepted, and the second raises. -/
theorem leave_counts_twice : ¬ ∀ s : State Storage, Served Storage id 0 s → ∀ Counts P,
    leaveCountsValid Counts P s.pids = true → ServesLeaves id 0 s Counts P := by
  intro hclaim
  obtain ⟨s, m, hs, h, hm⟩ := served_join
  have hv : leaveCountsValid [(groupA, 1), (groupA, 1)] 0 s.pids = true :=
    leaveCountsValid_join h hm (by simp) (by simp)
  have hf := (servesLeaves_iff fetchRaises_storage h hv).mp (hclaim s hs _ 0 hv)
  rcases hf [(groupA, 1)] groupA 1 [] rfl with ⟨Q, hQ, hne⟩ | hlt
  · rw [mem_history, hm, JoinCounts.join, set_of_ne_pid _ _ hne] at hQ
    cases hQ
  · rw [hm] at hlt
    revert hlt
    decide

end CloudI.Cpg
