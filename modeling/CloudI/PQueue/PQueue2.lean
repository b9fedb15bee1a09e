import Mathlib.Algebra.Order.Group.Int
import Mathlib.Data.Int.ConditionallyCompleteOrder
import CloudI.Framework.Exn
import CloudI.Framework.PriorityQueue
import CloudI.Framework.TwoListQueue

/-!
# The priority queue `pqueue2`

A skew heap with a node for each priority, which holds one element, or a queue
once a second element came. `merge/2` has no clause for two queue nodes of one
priority, and `out/1` leaves a queue node in the heap when it takes the last
element. `in/3` only ever merges a single element, so no node has a left
subheap and the priorities increase along the right ones (`Spine`): `merge/2`
always finds a clause (`merge_spine`), and the operations are those of the
family of lists (`implements`).
-/

namespace CloudI

/-- The last two places of a node, `element` or `queue` with the value or the queue. -/
inductive PQueue2.Data (α : Type) where
  | element (Value : α)
  | queue (Queue : TwoListQueue α)

/-- `empty`, or `{P, HL, HR, T, D}`. -/
inductive PQueue2 (α : Type) where
  | empty
  | node (P : Int) (HL HR : PQueue2 α) (D : PQueue2.Data α)

namespace PQueue2

open PriorityFamily

variable {α : Type}

/-! ## Operations -/

/-- How many nodes there are. -/
def nodes : PQueue2 α → Nat
  | .empty => 0
  | .node _ HL HR _ => HL.nodes + HR.nodes + 1

/-- `merge/2` -/
def merge : PQueue2 α → PQueue2 α → Except Exn (PQueue2 α)
  | .empty, H => .ok H
  | .node P HL HR D, .empty => .ok (.node P HL HR D)
  | .node P₁ HL₁ HR₁ D₁, .node P₂ HL₂ HR₂ D₂ =>
    if P₁ < P₂ then do return .node P₁ HL₁ (← merge HR₁ (.node P₂ HL₂ HR₂ D₂)) D₁
    else if P₁ > P₂ then do return .node P₂ HL₂ (← merge (.node P₁ HL₁ HR₁ D₁) HR₂) D₂
    else
      match D₁, D₂ with
      | .element Value₁, .element Value₂ => do
        return .node P₁ (← merge HL₁ HR₁) (← merge HL₂ HR₂) (.queue (TwoListQueue.f2r [Value₂, Value₁]))
      | .queue Queue, .element Value => do
        return .node P₁ (← merge HL₁ HR₁) (← merge HL₂ HR₂) (.queue (Queue.in Value))
      | .element Value, .queue Queue => do
        return .node P₁ (← merge HL₁ HR₁) (← merge HL₂ HR₂) (.queue (Queue.in Value))
      | .queue _, .queue _ => .error .functionClause
termination_by H₁ H₂ => H₁.nodes + H₂.nodes
decreasing_by all_goals simp only [nodes]; omega

/-- `in/3` -/
def in3 (Value : α) (P : Int) (H : PQueue2 α) : Except Exn (PQueue2 α) :=
  merge (.node P .empty .empty (.element Value)) H

/-- `in/2` -/
def in2 (Value : α) (H : PQueue2 α) : Except Exn (PQueue2 α) := in3 Value 0 H

theorem merge_nodes (H₁ H₂ : PQueue2 α) : ∀ H, merge H₁ H₂ = .ok H → H.nodes ≤ H₁.nodes + H₂.nodes := by
  fun_induction merge H₁ H₂ with
  | case1 H =>
    rintro _ ⟨⟩
    simp only [nodes]
    omega
  | case2 P HL HR D =>
    rintro _ ⟨⟩
    simp only [nodes]
    omega
  | case3 P₁ HL₁ HR₁ D₁ P₂ HL₂ HR₂ D₂ hlt ih =>
    intro H h
    obtain ⟨R, hR, ⟨⟩⟩ := bind_eq_ok h
    have := ih R hR
    simp only [nodes] at this ⊢
    omega
  | case4 P₁ HL₁ HR₁ D₁ P₂ HL₂ HR₂ D₂ _ hgt ih =>
    intro H h
    obtain ⟨R, hR, ⟨⟩⟩ := bind_eq_ok h
    have := ih R hR
    simp only [nodes] at this ⊢
    omega
  | case8 => exact fun _ h => by cases h
  | _ P₁ HL₁ HR₁ P₂ HL₂ HR₂ _ _ _ _ ih₁ ih₂ =>
    intro H h
    obtain ⟨L, hL, h⟩ := bind_eq_ok h
    obtain ⟨R, hR, ⟨⟩⟩ := bind_eq_ok h
    have := ih₁ L hL
    have := ih₂ R hR
    simp only [nodes] at *
    omega

/-- `out/1` -/
def out1 : PQueue2 α → Except Exn (Option α × PQueue2 α)
  | .empty => .ok (none, .empty)
  | .node _ HL HR (.element Value) => do return (some Value, ← merge HL HR)
  | .node P HL HR (.queue Queue) =>
    match Queue.out with
    | (some Value, NewQueue) => .ok (some Value, .node P HL HR (.queue NewQueue))
    | (none, _) =>
      match _h : merge HL HR with
      | .error e => .error e
      | .ok H => out1 H
termination_by H => H.nodes
decreasing_by
  have := merge_nodes HL HR H _h
  simp only [nodes]
  omega

/-- `out/2` -/
def out2 (P : Int) : PQueue2 α → Except Exn (Option α × PQueue2 α)
  | .empty => .ok (none, .empty)
  | .node P₁ HL₁ HR₁ D =>
    if P < P₁ then .ok (none, .node P₁ HL₁ HR₁ D)
    else if P > P₁ then do
      match ← out2 P HL₁ with
      | (some Value, HL₂) => return (some Value, .node P₁ HL₂ HR₁ D)
      | (none, HL₂) =>
        let (Result, HR₂) ← out2 P HR₁
        return (Result, .node P₁ HL₂ HR₂ D)
    else
      match D with
      | .element Value => do return (some Value, ← merge HL₁ HR₁)
      | .queue Queue =>
        match Queue.out with
        | (some Value, NewQueue) => .ok (some Value, .node P HL₁ HR₁ (.queue NewQueue))
        | (none, _) =>
          match _h : merge HL₁ HR₁ with
          | .error e => .error e
          | .ok H => out2 P H
termination_by H => H.nodes
decreasing_by
  all_goals simp only [nodes]
  · omega
  · omega
  · have := merge_nodes HL₁ HR₁ H _h
    omega

/-- `pout/1` -/
def pout : PQueue2 α → Except Exn (Option (α × Int) × PQueue2 α)
  | .empty => .ok (none, .empty)
  | .node P HL HR (.element Value) => do return (some (Value, P), ← merge HL HR)
  | .node P HL HR (.queue Queue) =>
    match Queue.out with
    | (some Value, NewQueue) => .ok (some (Value, P), .node P HL HR (.queue NewQueue))
    | (none, _) =>
      match _h : merge HL HR with
      | .error e => .error e
      | .ok H => pout H
termination_by H => H.nodes
decreasing_by
  have := merge_nodes HL HR H _h
  simp only [nodes]
  omega

/-! ## The shape of the heap -/

def Data.toList : Data α → List α
  | .element Value => [Value]
  | .queue Queue => Queue.toList

/-- The elements of each priority, in the order in which `out/2` takes them. -/
def contents : PQueue2 α → PriorityFamily Int α
  | .empty => fun _ => []
  | .node P HL HR D => fun Q => (if Q = P then D.toList else []) ++ (HL.contents Q ++ HR.contents Q)

/-- No node has a left subheap, and the priorities increase along the right ones, from above `b`. -/
def Spine (b : Int) : PQueue2 α → Prop
  | .empty => True
  | .node P HL HR _ => b < P ∧ HL = .empty ∧ HR.Spine P

variable {H HR : PQueue2 α} {D : Data α} {b P : Int}

theorem spine_empty (b : Int) : (PQueue2.empty : PQueue2 α).Spine b := trivial

theorem Spine.mono {b' : Int} (h : H.Spine b) (hb : b' ≤ b) : H.Spine b' := by
  cases H with
  | empty => trivial
  | node P HL HR D => exact ⟨lt_of_le_of_lt hb h.1, h.2⟩

theorem Spine.contents_of_le (h : H.Spine b) {Q : Int} (hQ : Q ≤ b) : H.contents Q = [] := by
  induction H generalizing b with
  | empty => rfl
  | node P HL HR D _ ih =>
    obtain ⟨hlt, rfl, hHR⟩ := h
    simp only [contents, if_neg (show Q ≠ P by omega), List.nil_append]
    exact ih hHR (by omega)

/-- The first node of a spine has all the elements of its priority. -/
theorem Spine.contents_node (h : HR.Spine P) (D : Data α) :
    (PQueue2.node P .empty HR D).contents = HR.contents.set P D.toList := by
  funext Q
  by_cases hQ : Q = P
  · rw [hQ, set_self]
    simp only [contents, if_true, h.contents_of_le (le_refl P), List.append_nil]
  · rw [set_of_ne _ _ hQ]
    simp only [contents, if_neg hQ, List.nil_append]

theorem Spine.contents_self (h : HR.Spine P) (D : Data α) :
    (PQueue2.node P .empty HR D).contents P = D.toList := by
  rw [h.contents_node, set_self]

theorem Spine.emptyBelow (h : HR.Spine P) (D : Data α) : (PQueue2.node P .empty HR D).contents.EmptyBelow P := by
  intro Q hQ
  rw [h.contents_node, set_of_ne _ _ hQ.ne, h.contents_of_le hQ.le]

/-- Without the first node its priority has no elements. -/
theorem Spine.contents_tail (h : HR.Spine P) (D : Data α) :
    HR.contents = (PQueue2.node P .empty HR D).contents.set P [] := by
  rw [h.contents_node, set_set, ← h.contents_of_le (le_refl P), set_eq_self]

/-- A first node without elements leaves those of the others. -/
theorem Spine.contents_of_nil (h : HR.Spine P) (hD : D.toList = []) :
    (PQueue2.node P .empty HR D).contents = HR.contents := by
  rw [h.contents_node, hD, ← h.contents_of_le (le_refl P), set_eq_self]

@[simp] theorem merge_empty_left (H : PQueue2 α) : merge .empty H = .ok H := by
  unfold merge
  rfl

@[simp] theorem merge_empty_right (H : PQueue2 α) : merge H .empty = .ok H := by
  cases H <;> simp only [merge]

theorem merge_lt {P₁ P₂ : Int} (h : P₁ < P₂) (HL₁ HR₁ HL₂ HR₂ : PQueue2 α) (D₁ D₂ : Data α) :
    merge (.node P₁ HL₁ HR₁ D₁) (.node P₂ HL₂ HR₂ D₂) =
      (merge HR₁ (.node P₂ HL₂ HR₂ D₂)).map fun R => .node P₁ HL₁ R D₁ := by
  rw [merge.eq_def]
  simp only [if_pos h]
  rfl

theorem merge_gt {P₁ P₂ : Int} (h : P₂ < P₁) (HL₁ HR₁ HL₂ HR₂ : PQueue2 α) (D₁ D₂ : Data α) :
    merge (.node P₁ HL₁ HR₁ D₁) (.node P₂ HL₂ HR₂ D₂) =
      (merge (.node P₁ HL₁ HR₁ D₁) HR₂).map fun R => .node P₂ HL₂ R D₂ := by
  rw [merge.eq_def]
  simp only [if_neg (not_lt.mpr h.le), gt_iff_lt, if_pos h]
  rfl

/-! ## What the operations do -/

/-- A single element is merged by a clause that there is, whatever the spine. -/
theorem merge_spine (Value : α) (h : H.Spine b) (hP : b < P) :
    ∃ H', in3 Value P H = .ok H' ∧ H'.contents = H.contents.enq P Value ∧ H'.Spine b := by
  induction H generalizing b with
  | empty =>
    refine ⟨_, merge_empty_right _, ?_, hP, rfl, spine_empty P⟩
    rw [(spine_empty P).contents_node]
    rfl
  | node P₂ HL₂ HR₂ D ihL ih =>
    obtain ⟨hlt, rfl, hHR⟩ := h
    rcases lt_trichotomy P P₂ with hP₂ | rfl | hP₂
    · have hspine : (PQueue2.node P₂ .empty HR₂ D).Spine P := ⟨hP₂, rfl, hHR⟩
      refine ⟨.node P .empty (.node P₂ .empty HR₂ D) (.element Value), ?_, ?_, hP, rfl, hspine⟩
      · rw [in3, merge_lt hP₂, merge_empty_left]
        rfl
      · rw [hspine.contents_node, enq, hspine.contents_of_le (le_refl P)]
        rfl
    · have hqueue : ∀ q : TwoListQueue α, q.toList = D.toList ++ [Value] →
          (PQueue2.node P .empty HR₂ (.queue q)).contents =
            (PQueue2.node P .empty HR₂ D).contents.enq P Value := by
        intro q hq
        rw [hHR.contents_node, hHR.contents_node, enq, set_set, set_self, ← hq]
        rfl
      cases D with
      | element Value₂ =>
        refine ⟨.node P .empty HR₂ (.queue (TwoListQueue.f2r [Value₂, Value])), ?_, hqueue _ ?_, hlt, rfl, hHR⟩
        · rw [in3, merge, if_neg (lt_irrefl P), if_neg (lt_irrefl P)]
          simp only [merge_empty_left]
          rfl
        · rw [TwoListQueue.toList_f2r]
          rfl
      | queue Queue =>
        refine ⟨.node P .empty HR₂ (.queue (Queue.in Value)), ?_, hqueue _ (TwoListQueue.toList_in Value Queue),
          hlt, rfl, hHR⟩
        rw [in3, merge, if_neg (lt_irrefl P), if_neg (lt_irrefl P)]
        simp only [merge_empty_left]
        rfl
    · obtain ⟨H', hmerge, hc, hspine⟩ := ih hHR hP₂
      refine ⟨.node P₂ .empty H' D, ?_, ?_, hlt, rfl, hspine⟩
      · rw [in3] at hmerge
        rw [in3, merge_gt hP₂, hmerge]
        rfl
      · rw [hspine.contents_node, hHR.contents_node, hc, enq, enq, set_of_ne _ _ hP₂.ne']
        exact set_comm hP₂.ne' _ _ _

/-- An operation goes on with what `merge/2` returns. -/
theorem match_merge {β : Type} (x : Except Exn (PQueue2 α)) (f : PQueue2 α → Except Exn β) :
    (match _h : x with
      | .error e => .error e
      | .ok H => f H) = x >>= f := by
  cases x <;> rfl

variable {Queue NewQueue : TwoListQueue α}

theorem pout_of_out_none {HL : PQueue2 α} (hout : Queue.out = (none, NewQueue)) :
    pout (.node P HL HR (.queue Queue)) = merge HL HR >>= pout := by
  rw [pout, hout]
  exact match_merge _ _

theorem out1_of_out_none {HL : PQueue2 α} (hout : Queue.out = (none, NewQueue)) :
    out1 (.node P HL HR (.queue Queue)) = merge HL HR >>= out1 := by
  rw [out1, hout]
  exact match_merge _ _

theorem out2_of_out_none {HL : PQueue2 α} (hout : Queue.out = (none, NewQueue)) :
    out2 P (.node P HL HR (.queue Queue)) = merge HL HR >>= out2 P := by
  rw [out2.eq_def]
  simp only [lt_irrefl, if_false, hout]
  exact match_merge _ _

theorem pout_spec (h : H.Spine b) :
    ∃ o H', pout H = .ok (o, H') ∧ Deq H.contents o H'.contents ∧ H'.Spine b := by
  induction H generalizing b with
  | empty => exact ⟨none, .empty, by rw [pout], .none fun _ => rfl, trivial⟩
  | node P HL HR D _ ih =>
    obtain ⟨hlt, rfl, hHR⟩ := h
    cases D with
    | element Value =>
      refine ⟨some (Value, P), HR, ?_, ?_, hHR.mono hlt.le⟩
      · simp only [pout, merge_empty_left]
        rfl
      · rw [hHR.contents_tail (.element Value)]
        exact .some (hHR.contents_self _) (hHR.emptyBelow _)
    | queue Queue =>
      cases hout : Queue.out with
      | mk v NewQueue =>
        cases v with
        | some Value =>
          refine ⟨some (Value, P), .node P .empty HR (.queue NewQueue), ?_, ?_, hlt, rfl, hHR⟩
          · simp only [pout, hout]
          · have hP : (PQueue2.node P .empty HR (.queue Queue)).contents P = Value :: NewQueue.toList :=
              (hHR.contents_self _).trans (TwoListQueue.toList_of_out_some hout)
            have hset : (PQueue2.node P .empty HR (.queue NewQueue)).contents =
                (PQueue2.node P .empty HR (.queue Queue)).contents.set P NewQueue.toList := by
              rw [hHR.contents_node, hHR.contents_node, set_set]
              rfl
            rw [hset]
            exact .some hP (hHR.emptyBelow _)
        | none =>
          obtain ⟨o, H', hpout, hd, hspine⟩ := ih hHR
          refine ⟨o, H', ?_, ?_, hspine.mono hlt.le⟩
          · rw [pout_of_out_none hout, merge_empty_left]
            exact hpout
          · have hnil : (Data.queue Queue).toList = [] := TwoListQueue.toList_of_out_none hout
            rwa [hHR.contents_of_nil hnil]

theorem out1_eq (H : PQueue2 α) : out1 H = (pout H).map fun y => (y.1.map Prod.fst, y.2) := by
  fun_induction pout H with
  | case1 => rw [out1]; rfl
  | case2 P HL HR Value =>
    rw [out1]
    cases merge HL HR <;> rfl
  | case3 P HL HR Queue Value NewQueue hout =>
    rw [out1, hout]
    rfl
  | case4 P HL HR Queue NewQueue hout e hmerge =>
    rw [out1_of_out_none hout, hmerge]
    rfl
  | case5 P HL HR Queue NewQueue hout H hmerge ih =>
    rw [out1_of_out_none hout, hmerge]
    exact ih

theorem out2_spec (h : H.Spine b) (P : Int) :
    ∃ H', out2 P H = .ok ((H.contents.deqAt P).1, H') ∧ H'.contents = (H.contents.deqAt P).2 ∧ H'.Spine b := by
  induction H generalizing b with
  | empty => exact ⟨.empty, by rw [out2, deqAt_of_nil rfl], by rw [deqAt_of_nil rfl], trivial⟩
  | node P₁ HL HR D _ ih =>
    obtain ⟨hlt, rfl, hHR⟩ := h
    rcases lt_trichotomy P P₁ with hP | rfl | hP
    · refine ⟨.node P₁ .empty HR D, ?_, ?_, hlt, rfl, hHR⟩
      · rw [out2.eq_def]
        simp only [if_pos hP, deqAt_of_nil (hHR.emptyBelow D P hP)]
      · rw [deqAt_of_nil (hHR.emptyBelow D P hP)]
    · cases D with
      | element Value =>
        refine ⟨HR, ?_, ?_, hHR.mono hlt.le⟩
        · rw [out2.eq_def, deqAt, hHR.contents_self]
          simp only [lt_irrefl, if_false, merge_empty_left]
          rfl
        · rw [deqAt, hHR.contents_self]
          exact hHR.contents_tail _
      | queue Queue =>
        cases hout : Queue.out with
        | mk v NewQueue =>
          cases v with
          | some Value =>
            have hQueue : (Data.queue Queue).toList = Value :: NewQueue.toList :=
              TwoListQueue.toList_of_out_some hout
            refine ⟨.node P .empty HR (.queue NewQueue), ?_, ?_, hlt, rfl, hHR⟩
            · rw [out2.eq_def, deqAt, hHR.contents_self, hQueue]
              simp only [lt_irrefl, if_false, hout]
              rfl
            · rw [deqAt, hHR.contents_self, hQueue, hHR.contents_node, hHR.contents_node, set_set]
              rfl
          | none =>
            have hnil : (Data.queue Queue).toList = [] := TwoListQueue.toList_of_out_none hout
            have hc : (PQueue2.node P .empty HR (.queue Queue)).contents = HR.contents := hHR.contents_of_nil hnil
            obtain ⟨H', hH', hc', hspine⟩ := ih hHR
            refine ⟨H', ?_, hc ▸ hc', hspine.mono hlt.le⟩
            rw [out2_of_out_none hout, merge_empty_left, hc]
            exact hH'
    · obtain ⟨H', hH', hc', hspine⟩ := ih hHR
      have hP' : (PQueue2.node P₁ .empty HR D).contents P = HR.contents P := by
        rw [hHR.contents_node, set_of_ne _ _ hP.ne']
      refine ⟨.node P₁ .empty H' D, ?_, ?_, hlt, rfl, hspine⟩
      · rw [out2.eq_def]
        simp only [if_neg (not_lt.mpr hP.le), gt_iff_lt, if_pos hP, out2, deqAt, hP']
        rw [deqAt] at hH'
        simp only [hH']
        rfl
      · rw [hspine.contents_node, hc', deqAt, deqAt, hP', hHR.contents_node]
        exact set_comm hP.ne' _ _ _

/-- `pqueue2` is a priority queue. -/
def operations (α : Type) : PriorityQueue Exn (PQueue2 α) Int α where
  enq₀ := in2
  enq := in3
  deq := out1
  deqAt := out2
  deqWith := pout

theorem implements : (operations α).Implements id 0 (fun H => ∃ b, H.Spine b) contents where
  enq₀ _ := rfl
  enq {H} X P := by
    rintro ⟨b, h⟩
    obtain ⟨H', hin, hc, h'⟩ := merge_spine X (h.mono (min_le_left b (P - 1))) (P := P) (by omega)
    exact ⟨H', hin, hc, _, h'⟩
  deq _ := out1_eq _
  deqAt P := by
    rintro ⟨b, h⟩
    obtain ⟨H', hout, hc, h'⟩ := out2_spec h P
    exact ⟨H', hout, hc, b, h'⟩
  deqWith h := by
    obtain ⟨b, h⟩ := h
    obtain ⟨o, H', hpout, hd, h'⟩ := pout_spec h
    refine ⟨o, H', hpout.trans ?_, hd, b, h'⟩
    rw [show (fun y : α × Int => (y.1, id y.2)) = id from rfl, Option.map_id, id]

end PQueue2

end CloudI
