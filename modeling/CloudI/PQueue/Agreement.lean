import Mathlib.Order.Hom.Basic
import CloudI.PQueue.PQueue2
import CloudI.PQueue.PQueue3
import CloudI.PQueue.Reference

/-!
# The priority queues agree

`pqueue2`, `pqueue3` and `pqueue4` take different ranges of priorities. For
those that all three take (`SharedPriority`) every sequence of operations has
the same replies with each of them, and raises with none (`pqueues_agree`).
-/

namespace CloudI

open PriorityFamily PriorityQueue

namespace PQueue4

/-- `pqueue4` is a priority queue. -/
def operations (α : Type) : PriorityQueue Exn (PQueue4 α) Int α where
  enq₀ := in2
  enq := in3
  deq Q := .ok Q.out1
  deqAt := out2
  deqWith Q := .ok (Q.pout.1.map fun y => (y.1, y.2.val), Q.pout.2)

theorem implements (α : Type) : (operations α).Implements Priority.val 0 Coherent contents where
  enq₀ _ := rfl
  enq X P h := in3_spec h X P
  deq {Q} _ := by
    have hv : Q.pout.1.map Prod.fst = (Q.pout.1.map fun y => (y.1, y.2.val)).map Prod.fst := by
      rw [Option.map_map]
      rfl
    show Except.ok Q.out1 = _
    rw [out1_eq, hv]
    rfl
  deqAt P h := by
    obtain ⟨v, Q', hout, hv, h'⟩ := out2_spec h P
    exact ⟨Q', by rw [← hv]; exact hout, by rw [← hv], h'⟩
  deqWith {Q} h := by
    obtain ⟨h₁, hc, h'⟩ := pout_spec h
    exact ⟨Q.pout.1, Q.pout.2, rfl, by rw [h₁, hc]; exact deq_spec _, h'⟩

end PQueue4

namespace PQueue

open PQueue3 (Options offsetOf)

/-- A priority that `pqueue4` and a `pqueue3` with the options `o` take; `pqueue2` takes every integer. -/
abbrev SharedPriority (o : Options) : Type :=
  { P : Priority // 0 ≤ P.val + offsetOf o ∧ P.val + offsetOf o ≤ o.priorities }

namespace SharedPriority

variable {o : Options}

/-- As a priority of `pqueue2`. -/
def toInt : SharedPriority o ↪o Int where
  toFun P := P.val.val
  inj' _ _ h := Subtype.ext (Priority.ext h)
  map_rel_iff' := Iff.rfl

/-- As a priority of `pqueue4`. -/
def toPriority : SharedPriority o ↪o Priority := OrderEmbedding.subtype _

/-- As a priority index of `pqueue3`. -/
def toIndex : SharedPriority o ↪o Fin (o.priorities + 1) :=
  OrderEmbedding.ofStrictMono (fun P => ⟨(P.val.val + offsetOf o).toNat, by have := P.property; omega⟩) fun P P' h => by
    have hlt : P.val.val < P'.val.val := h
    have := P.property
    have := P'.property
    show (P.val.val + offsetOf o).toNat < (P'.val.val + offsetOf o).toNat
    omega

theorem toIndex_val (P : SharedPriority o) : ((toIndex P).val : Int) - offsetOf o = P.val.val := by
  have := P.property
  show ((P.val.val + offsetOf o).toNat : Int) - offsetOf o = P.val.val
  omega

/-- Every `pqueue3` takes priority 0. -/
def zero (o : Options) : SharedPriority o := ⟨PQueue4.zero, by
  show 0 ≤ (0 : Int) + offsetOf o ∧ (0 : Int) + offsetOf o ≤ o.priorities
  rw [offsetOf, PQueue3.roundHalves]
  split <;> omega⟩

end SharedPriority

/-- The replies of a sequence of operations, by the reference. -/
def replies {α : Type} (o : Options) (ops : List (Op (SharedPriority o) α)) : List (Reply Int α) :=
  (runReference (reference (fun P => P.val.val) (.zero o)) ops empty).1

open SharedPriority in
/-- Every sequence of operations raises with none of the three, and has the
same replies with each, for every number of priorities that `pqueue3` can be
configured with. -/
theorem pqueues_agree {α : Type} {o : Options} (ho : o.priorities ≤ 65535) (ops : List (Op (SharedPriority o) α)) :
    (∃ H, runOps ((PQueue2.operations α).apply fun P => P.val.val) ops .empty = .ok (replies o ops, H)) ∧
    (∃ Q₀ Q, PQueue3.new o = .ok Q₀ ∧
      runOps ((PQueue3.operations o.priorities α).apply fun P => P.val.val) ops Q₀ = .ok (replies o ops, Q)) ∧
    ∃ Q, runOps ((PQueue4.operations α).apply fun P => P.val.val) ops PQueue4.new = .ok (replies o ops, Q) := by
  refine ⟨?_, ?_, ?_⟩
  · exact (PQueue2.implements).run (f := toInt) (z := zero o) rfl ⟨0, PQueue2.spine_empty 0⟩ rfl ops
  · obtain ⟨ns, index, hL⟩ := PQueue3.exists_layers ho
    obtain ⟨Q₀, hnew, hc, h⟩ := PQueue3.new_spec (α := α) o hL
    obtain ⟨Q, hrun⟩ := (PQueue3.implements hL (offsetOf o)).run (f := toIndex) (z := zero o) (toIndex_val _) h hc ops
    simp only [toIndex_val] at hrun
    exact ⟨Q₀, Q, hnew, hrun⟩
  · exact (PQueue4.implements α).run (f := toPriority) (z := zero o) rfl PQueue4.coherent_new PQueue4.contents_new ops

/-- Two insertions, the second one before the first, and two ways to take the first element. -/
def fourOps : List (Op (SharedPriority ⟨300, false⟩) Nat) :=
  [.enq 7 ⟨⟨3, by decide, by decide⟩, by decide⟩, .enq₀ 8, .deqWith, .deq]

set_option maxRecDepth 20000 in
/-- The run with the priorities from 0 to 300. -/
theorem pqueues_agree_four :
    (∃ H, runOps ((PQueue2.operations Nat).apply fun P => P.val.val) fourOps .empty =
      .ok ([.queue, .queue, .valueWith (some (8, 0)), .value (some 7)], H)) ∧
    ∃ Q₀ Q, PQueue3.new ⟨300, false⟩ = .ok Q₀ ∧
      runOps ((PQueue3.operations 300 Nat).apply fun P => P.val.val) fourOps Q₀ =
        .ok ([.queue, .queue, .valueWith (some (8, 0)), .value (some 7)], Q) := by
  obtain ⟨h₂, h₃, -⟩ := pqueues_agree (o := ⟨300, false⟩) (by decide) fourOps
  have hreplies : replies _ fourOps = [.queue, .queue, .valueWith (some (8, 0)), .value (some 7)] := by
    decide +kernel
  rw [hreplies] at h₂ h₃
  exact ⟨h₂, h₃⟩

end PQueue

end CloudI
