import Mathlib.Data.Finset.Sort
import CloudI.Framework.Exn
import CloudI.Framework.PriorityQueue
import CloudI.Framework.TwoListQueue
import CloudI.PQueue.Agreement

/-!
# The priority queue `pqueue`

A queue for each priority in -20..20, and the current priority or `empty`. The
current priority is only a lower bound of the priorities with an element, and
`out/2` may leave it over queues that are all empty, so that `is_empty/1` looks
at each of them. Two queues can be joined. The clauses of the source are one
for each priority and differ only in the queue they name, so each function here
is stated once. What every operation does, also on queues that were joined, is
what it does on a family of lists (`built_agrees`).
-/

namespace CloudI

namespace Pqueue

/-- A priority in the range `-20..20`. -/
@[ext]
structure Priority where
  val : Int
  min_le : -20 ≤ val
  le_max : val ≤ 20
deriving DecidableEq

namespace Priority

/-- Priorities are ordered by their values. -/
instance : LinearOrder Priority := @LinearOrder.lift' Priority Int Int.instLinearOrder val fun _ _ => Priority.ext

/-- `P + 1`, for a priority that is not the last. -/
def next (P : Priority) (h : P.val ≠ 20) : Priority :=
  ⟨P.val + 1, by have := P.min_le; omega, by have := P.le_max; omega⟩

theorem lt_next_iff {P P' : Priority} {h : P.val ≠ 20} : P' < P.next h ↔ P' ≤ P := Int.lt_add_one_iff

theorem le_last {P : Priority} (h : P.val = 20) (P' : Priority) : P' ≤ P := by
  show P'.val ≤ P.val
  rw [h]
  exact P'.le_max

def zero : Priority := ⟨0, by decide, by decide⟩

end Priority

/-- The priorities in the order of the state. -/
def priorities : List Priority := List.ofFn fun i : Fin 41 => ⟨i.val - 20, by omega, by omega⟩

theorem mem_priorities (P : Priority) : P ∈ priorities := by
  have hmin := P.min_le
  have hmax := P.le_max
  refine List.mem_ofFn.mpr ⟨⟨(P.val + 20).toNat, by omega⟩, Priority.ext ?_⟩
  show ((P.val + 20).toNat : Int) - 20 = P.val
  omega

theorem priorities_sorted : priorities.Pairwise (· < ·) := by
  refine List.pairwise_ofFn.mpr fun i j h => ?_
  show (i.val : Int) - 20 < j.val - 20
  omega

instance : Fintype Priority := ⟨priorities.toFinset, fun P => List.mem_toFinset.mpr (mem_priorities P)⟩

theorem priorities_eq : priorities = (Finset.univ : Finset Priority).sort (· ≤ ·) :=
  ((List.toFinset_sort (· ≤ ·) (priorities_sorted.imp ne_of_lt)).mpr (priorities_sorted.imp le_of_lt)).symm

/-- The range as `in/3` and `out/2` check it. -/
def toPriority (P : Int) : Except Exn Priority :=
  if h : P < -20 ∨ 20 < P then .error .exitBadarg else .ok ⟨P, by omega, by omega⟩

theorem toPriority_val (P : Priority) : toPriority P.val = .ok P := by
  have hmin := P.min_le
  have hmax := P.le_max
  rw [toPriority, dif_neg (by omega)]

end Pqueue

open PriorityFamily PriorityQueue

/-- The current priority, `none` for `empty`, and the queue of each priority. -/
structure Pqueue (α : Type) where
  current : Option Pqueue.Priority
  queue : Pqueue.Priority → TwoListQueue α

namespace Pqueue

variable {α : Type} {Q Q₁ Q₂ : Pqueue α} {P Pc : Priority}

/-! ## Operations -/

/-- `new/0` -/
def new : Pqueue α := ⟨none, fun _ => TwoListQueue.new⟩

/-- The queue of one priority replaced. -/
def setQueue (P : Priority) (q : TwoListQueue α) (Q : Pqueue α) : Pqueue α :=
  { Q with queue := Function.update Q.queue P q }

/-- `in_higher/3` -/
def inHigher (P : Priority) (Q : Pqueue α) (X : α) : Pqueue α :=
  { Q.setQueue P ((Q.queue P).in X) with current := some P }

/-- `in_lower/3` -/
def inLower (P : Priority) (Q : Pqueue α) (X : α) : Pqueue α := Q.setQueue P ((Q.queue P).in X)

/-- `in/3` -/
def in3 (X : α) (P : Int) (Q : Pqueue α) : Except Exn (Pqueue α) := do
  let P ← toPriority P
  match Q.current with
  | none => return inHigher P Q X
  | some Pc => return if P < Pc then inHigher P Q X else inLower P Q X

/-- `in/2` -/
def in2 (X : α) (Q : Pqueue α) : Except Exn (Pqueue α) := in3 X 0 Q

/-- `out_current/3`, with the return type `priority`. -/
def outCurrent (P : Priority) (Q : Pqueue α) : Option (α × Int) × Pqueue α :=
  match (Q.queue P).out with
  | (none, _) => if h : P.val = 20 then (none, { Q with current := none }) else outCurrent (P.next h) Q
  | (some Value, NewQ) => (some (Value, P.val), { Q.setQueue P NewQ with current := some P })
termination_by (20 - P.val).toNat
decreasing_by
  have := P.le_max
  simp only [Priority.next]
  omega

/-- `pout/1` -/
def pout (Q : Pqueue α) : Option (α × Int) × Pqueue α :=
  match Q.current with
  | none => (none, Q)
  | some Pc => outCurrent Pc Q

/-- `out/1`, whose return type is `nopriority`. -/
def out1 (Q : Pqueue α) : Option α × Pqueue α := (Q.pout.1.map Prod.fst, Q.pout.2)

/-- `out_specific/2` -/
def outSpecific (P : Priority) (Q : Pqueue α) : Option α × Pqueue α :=
  let (Value, NewQ) := (Q.queue P).out
  (Value, Q.setQueue P NewQ)

/-- `out/2` -/
def out2 (P : Int) (Q : Pqueue α) : Except Exn (Option α × Pqueue α) := do
  let P ← toPriority P
  match Q.current with
  | none => return (none, Q)
  | some _ => return outSpecific P Q

/-- `erlang:min/2` of two current priorities: an atom is more than every integer. -/
def minCurrent : Option Priority → Option Priority → Option Priority
  | some P₁, some P₂ => some (min P₁ P₂)
  | some P₁, none => some P₁
  | none, P₂ => P₂

/-- `join/2` -/
def join (Q₁ Q₂ : Pqueue α) : Pqueue α :=
  ⟨minCurrent Q₁.current Q₂.current, fun P => (Q₁.queue P).join (Q₂.queue P)⟩

/-- `is_empty/1` -/
def isEmpty (Q : Pqueue α) : Bool :=
  match Q.current with
  | none => true
  | some _ => priorities.all fun P => (Q.queue P).toList.isEmpty

/-- `len/1` -/
def len (Q : Pqueue α) : Nat := (priorities.map fun P => (Q.queue P).len).sum

/-- `to_list/1` -/
def toList (Q : Pqueue α) : List α := priorities.flatMap fun P => (Q.queue P).toList

/-! ## The invariant -/

/-- The elements of each priority. -/
def contents (Q : Pqueue α) : PriorityFamily Priority α := fun P => (Q.queue P).toList

/-- No element is below the current priority, and there is none if it is `empty`. -/
def Coherent (Q : Pqueue α) : Prop :=
  match Q.current with
  | none => ∀ P, Q.contents P = []
  | some Pc => Q.contents.EmptyBelow Pc

theorem coherent_none (h : Q.current = none) : Q.Coherent ↔ ∀ P, Q.contents P = [] := by rw [Coherent, h]

theorem coherent_some (h : Q.current = some Pc) : Q.Coherent ↔ Q.contents.EmptyBelow Pc := by rw [Coherent, h]

@[simp] theorem contents_setQueue (P : Priority) (q : TwoListQueue α) (Q : Pqueue α) :
    (Q.setQueue P q).contents = Q.contents.set P q.toList := by
  funext P'
  by_cases h : P' = P
  · rw [h, set_self]
    show (Function.update Q.queue P q P).toList = q.toList
    rw [Function.update_self]
  · rw [set_of_ne _ _ h]
    show (Function.update Q.queue P q P').toList = (Q.queue P').toList
    rw [Function.update_of_ne h]

theorem contents_new : (new : Pqueue α).contents = empty := rfl

theorem coherent_new : (new : Pqueue α).Coherent := fun _ => rfl

theorem contents_in (X : α) (P : Priority) (Q : Pqueue α) :
    (Q.setQueue P ((Q.queue P).in X)).contents = Q.contents.enq P X := by
  rw [contents_setQueue, TwoListQueue.toList_in]
  rfl

theorem in3_spec (h : Q.Coherent) (X : α) (P : Priority) :
    ∃ Q', in3 X P.val Q = .ok Q' ∧ Q'.contents = Q.contents.enq P X ∧ Q'.Coherent := by
  rw [in3, toPriority_val]
  cases hc : Q.current with
  | none =>
    refine ⟨_, rfl, contents_in X P Q, fun P' hP' => ?_⟩
    show (Q.setQueue P ((Q.queue P).in X)).contents P' = []
    rw [contents_in, PriorityFamily.enq, set_of_ne _ _ hP'.ne, (coherent_none hc).mp h P']
  | some Pc =>
    have hbelow := (coherent_some hc).mp h
    by_cases hlt : P < Pc
    · refine ⟨inHigher P Q X, congrArg Except.ok (if_pos hlt), contents_in X P Q, fun P' hP' => ?_⟩
      show (Q.setQueue P ((Q.queue P).in X)).contents P' = []
      rw [contents_in, PriorityFamily.enq, set_of_ne _ _ hP'.ne, hbelow P' (hP'.trans hlt)]
    · refine ⟨inLower P Q X, congrArg Except.ok (if_neg hlt), contents_in X P Q, ?_⟩
      rw [coherent_some (Q := inLower P Q X) hc, inLower, contents_in]
      exact hbelow.enq (not_lt.mp hlt) X

/-- The scan from a priority below which there is nothing finds the first element. -/
theorem outCurrent_spec (P : Priority) (Q : Pqueue α) (h : Q.contents.EmptyBelow P) :
    ∃ o Q', outCurrent P Q = (o.map fun y => (y.1, y.2.val), Q') ∧ Deq Q.contents o Q'.contents ∧ Q'.Coherent := by
  fun_induction outCurrent P Q with
  | case1 P q hout hlast =>
    have hnil : ∀ P', Q.contents P' = [] := by
      intro P'
      rcases (Priority.le_last hlast P').lt_or_eq with hlt | rfl
      · exact h P' hlt
      · exact TwoListQueue.toList_of_out_none hout
    exact ⟨none, _, rfl, .none hnil, hnil⟩
  | case2 P q hout hnot ih =>
    refine ih fun P' hP' => ?_
    rcases (Priority.lt_next_iff.mp hP').lt_or_eq with hlt | rfl
    · exact h P' hlt
    · exact TwoListQueue.toList_of_out_none hout
  | case3 P Value NewQ hout =>
    have hP : Q.contents P = Value :: NewQ.toList := TwoListQueue.toList_of_out_some hout
    have hc : ({ Q.setQueue P NewQ with current := some P } : Pqueue α).contents = Q.contents.set P NewQ.toList :=
      contents_setQueue P NewQ Q
    refine ⟨some (Value, P), _, rfl, ?_, ?_⟩
    · rw [hc]
      exact .some hP h
    · rw [coherent_some rfl, hc]
      exact h.set fun hnil => absurd (hP.symm.trans hnil) (List.cons_ne_nil _ _)

theorem pout_spec (h : Q.Coherent) :
    ∃ o Q', pout Q = (o.map fun y => (y.1, y.2.val), Q') ∧ Deq Q.contents o Q'.contents ∧ Q'.Coherent := by
  unfold pout
  cases hc : Q.current with
  | none => exact ⟨none, Q, rfl, .none ((coherent_none hc).mp h), h⟩
  | some Pc => exact outCurrent_spec Pc Q ((coherent_some hc).mp h)

theorem outSpecific_eq (P : Priority) (Q : Pqueue α) :
    (outSpecific P Q).1 = (Q.contents.deqAt P).1 ∧ (outSpecific P Q).2.contents = (Q.contents.deqAt P).2 := by
  refine ⟨TwoListQueue.out_fst (Q.queue P), ?_⟩
  rw [outSpecific, contents_setQueue, TwoListQueue.toList_out]
  rfl

theorem out2_spec (h : Q.Coherent) (P : Priority) :
    ∃ Q', out2 P.val Q = .ok ((Q.contents.deqAt P).1, Q') ∧ Q'.contents = (Q.contents.deqAt P).2 ∧ Q'.Coherent := by
  rw [out2, toPriority_val]
  cases hc : Q.current with
  | none =>
    have hnil := (coherent_none hc).mp h P
    rw [deqAt_of_nil hnil]
    exact ⟨Q, rfl, rfl, h⟩
  | some Pc =>
    obtain ⟨hvalue, hq⟩ := outSpecific_eq P Q
    refine ⟨(outSpecific P Q).2, ?_, hq, ?_⟩
    · rw [← hvalue]
      rfl
    · rw [coherent_some (Q := (outSpecific P Q).2) hc, hq]
      exact ((coherent_some hc).mp h).deqAt P

theorem contents_join (Q₁ Q₂ : Pqueue α) : (join Q₁ Q₂).contents = Q₁.contents.append Q₂.contents := by
  funext P
  exact TwoListQueue.toList_join _ _

theorem coherent_iff : Q.Coherent ↔ ∀ P, (∀ Pc ∈ Q.current, P < Pc) → Q.contents P = [] := by
  unfold Coherent
  cases Q.current with
  | none => exact ⟨fun h P _ => h P, fun h P => h P fun _ hPc => absurd hPc (Option.not_mem_none _)⟩
  | some Pc =>
    refine forall_congr' fun P => imp_congr_left ?_
    exact ⟨fun h Pc' hPc => Option.some.inj hPc ▸ h, fun h => h Pc rfl⟩

theorem lt_minCurrent {c₁ c₂ : Option Priority} (h : ∀ Pc ∈ minCurrent c₁ c₂, P < Pc) :
    (∀ Pc ∈ c₁, P < Pc) ∧ ∀ Pc ∈ c₂, P < Pc := by
  cases c₁ <;> cases c₂ <;> simp_all [minCurrent]

theorem join_spec (h₁ : Q₁.Coherent) (h₂ : Q₂.Coherent) : (join Q₁ Q₂).Coherent := by
  refine coherent_iff.mpr fun P hP => ?_
  obtain ⟨hP₁, hP₂⟩ := lt_minCurrent hP
  rw [contents_join, PriorityFamily.append, coherent_iff.mp h₁ P hP₁, coherent_iff.mp h₂ P hP₂, List.append_nil]

/-! ## Any queue -/

/-- `pqueue` is a priority queue. -/
def operations (α : Type) : PriorityQueue Exn (Pqueue α) Int α where
  enq₀ := in2
  enq := in3
  deq Q := .ok Q.out1
  deqAt := out2
  deqWith Q := .ok Q.pout

theorem implements (α : Type) : (operations α).Implements Priority.val 0 Coherent contents where
  enq₀ _ := rfl
  enq X P h := in3_spec h X P
  deq _ := rfl
  deqAt P h := out2_spec h P
  deqWith h := by
    obtain ⟨o, Q', hpout, hd, h'⟩ := pout_spec h
    exact ⟨o, Q', congrArg Except.ok hpout, hd, h'⟩

/-- A queue that was built by the functions of the module, and the lists that were built beside it. -/
inductive Built : Pqueue α → PriorityFamily Priority α → Prop
  | new : Built new empty
  | enq {Q Q' : Pqueue α} {r : PriorityFamily Priority α} {X : α} {P : Priority} (h : Built Q r)
      (hin : in3 X P.val Q = .ok Q') : Built Q' (r.enq P X)
  | out {Q : Pqueue α} {r : PriorityFamily Priority α} (h : Built Q r) : Built Q.out1.2 r.deq.2
  | outAt {Q Q' : Pqueue α} {r : PriorityFamily Priority α} {P : Priority} {v : Option α} (h : Built Q r)
      (hout : out2 P.val Q = .ok (v, Q')) : Built Q' (r.deqAt P).2
  | join {Q₁ Q₂ : Pqueue α} {r₁ r₂ : PriorityFamily Priority α} (h₁ : Built Q₁ r₁) (h₂ : Built Q₂ r₂) :
      Built (join Q₁ Q₂) (r₁.append r₂)

/-- What is taken out is what `deq` takes out. -/
theorem deq_eq {r r' : PriorityFamily Priority α} {o : Option (α × Priority)} (hd : Deq r o r') :
    o = r.deq.1 ∧ r' = r.deq.2 := by
  cases hd with
  | none hnil =>
    rw [deq_of_empty hnil]
    exact ⟨rfl, rfl⟩
  | some hq hlt =>
    rw [deq_of_least hq hlt]
    exact ⟨rfl, rfl⟩

theorem Built.coherent {r : PriorityFamily Priority α} (h : Built Q r) : Q.Coherent ∧ Q.contents = r := by
  induction h with
  | new => exact ⟨coherent_new, contents_new⟩
  | @enq Q Q' r X P _ hin ih =>
    obtain ⟨hQ, rfl⟩ := ih
    obtain ⟨Q'', hin', hc, h'⟩ := in3_spec hQ X P
    obtain rfl := Except.ok.inj (hin.symm.trans hin')
    exact ⟨h', hc⟩
  | @out Q r _ ih =>
    obtain ⟨hQ, rfl⟩ := ih
    obtain ⟨o, Q', hpout, hd, h'⟩ := pout_spec hQ
    rw [out1, hpout]
    exact ⟨h', (deq_eq hd).2⟩
  | @outAt Q Q' r P v _ hout ih =>
    obtain ⟨hQ, rfl⟩ := ih
    obtain ⟨Q'', hout', hc, h'⟩ := out2_spec hQ P
    obtain rfl := (Prod.mk.inj (Except.ok.inj (hout.symm.trans hout'))).2
    exact ⟨h', hc⟩
  | join _ _ ih₁ ih₂ =>
    obtain ⟨h₁, rfl⟩ := ih₁
    obtain ⟨h₂, rfl⟩ := ih₂
    exact ⟨join_spec h₁ h₂, contents_join _ _⟩

theorem toList_eq (Q : Pqueue α) : Q.toList = Q.contents.toList := by
  rw [toList, priorities_eq]
  rfl

theorem len_eq (Q : Pqueue α) : Q.len = Q.contents.total := by
  rw [← length_toList, ← toList_eq, toList, List.length_flatMap, len]
  simp only [TwoListQueue.len_eq]

theorem isEmpty_iff (h : Q.Coherent) : Q.isEmpty = true ↔ ∀ P, Q.contents P = [] := by
  unfold isEmpty
  cases hc : Q.current with
  | none => exact iff_of_true rfl ((coherent_none hc).mp h)
  | some Pc =>
    simp only [List.all_eq_true, List.isEmpty_iff]
    exact ⟨fun hall P => hall P (mem_priorities P), fun hall P _ => hall P⟩

/-- What a queue is asked, it answers as the lists do, however it was built. -/
theorem built_agrees {r : PriorityFamily Priority α} (h : Built Q r) :
    (Q.isEmpty = true ↔ ∀ P, r P = []) ∧ Q.len = r.total ∧ Q.toList = r.toList ∧
      Q.pout.1 = r.deq.1.map (fun y => (y.1, y.2.val)) ∧ Q.out1.1 = r.deq.1.map Prod.fst ∧
      ∀ P : Priority, ∃ Q', out2 P.val Q = .ok ((r.deqAt P).1, Q') := by
  obtain ⟨hQ, rfl⟩ := h.coherent
  obtain ⟨o, Q', hpout, hd, -⟩ := pout_spec hQ
  have hfst : Q.pout.1 = Q.contents.deq.1.map fun y => (y.1, y.2.val) := by
    rw [hpout, (deq_eq hd).1]
  refine ⟨isEmpty_iff hQ, len_eq Q, toList_eq Q, hfst, ?_, fun P => ?_⟩
  · rw [out1, hfst, Option.map_map]
    rfl
  · obtain ⟨Q', hout, -⟩ := out2_spec hQ P
    exact ⟨Q', hout⟩

/-- Two priorities, the second one before the first. -/
def five : Priority := ⟨5, by decide, by decide⟩

def minusThree : Priority := ⟨-3, by decide, by decide⟩

/-- The elements of two queues that are joined, the one with the lower priority first. -/
theorem built_agrees_joined :
    (join (inHigher five new 7) (inHigher minusThree new 8)).toList = [8, 7] ∧
      ((empty.enq five 7).append (empty.enq minusThree 8)).toList = [8, 7] := by
  have hseven : Built (inHigher five new 7) (empty.enq five 7) := .enq .new rfl
  have height : Built (inHigher minusThree new 8) (empty.enq minusThree 8) := .enq .new rfl
  obtain ⟨-, -, hlist, -⟩ := built_agrees (.join hseven height)
  have htwo : (join (inHigher five new 7) (inHigher minusThree new 8)).toList = [8, 7] := by decide
  exact ⟨htwo, hlist.symm.trans htwo⟩

/-- As a priority of `pqueue4`. -/
def toPriority4 : Priority ↪o CloudI.Priority :=
  OrderEmbedding.ofStrictMono (fun P => ⟨P.val, by have := P.min_le; omega, by have := P.le_max; omega⟩) fun _ _ h => h

/-- With priorities that both take, `pqueue` and `pqueue4` have the same replies. -/
theorem agrees_pqueue4 (ops : List (Op Priority α)) :
    ∃ replies Q Q₄, runOps ((operations α).apply Priority.val) ops new = .ok (replies, Q) ∧
      runOps ((PQueue4.operations α).apply Priority.val) ops PQueue4.new = .ok (replies, Q₄) := by
  obtain ⟨Q, hrun⟩ := (implements α).run (f := (OrderIso.refl Priority).toOrderEmbedding) (z := .zero) rfl coherent_new
    contents_new ops
  obtain ⟨Q₄, hrun₄⟩ := (PQueue4.implements α).run (f := toPriority4) (z := .zero) rfl PQueue4.coherent_new
    PQueue4.contents_new ops
  exact ⟨_, Q, Q₄, hrun, hrun₄⟩

end Pqueue

end CloudI
