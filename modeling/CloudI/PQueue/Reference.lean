import CloudI.Framework.Run
import CloudI.PQueue.Contents

/-!
# `pqueue4` against its reference

The reference of a `pqueue4` is a family of lists, one for each priority.
`Op.apply` runs an operation on the queue and `Op.reference` on the family;
`apply_refines` is one operation and `run_reference` every sequence of them.
-/

namespace CloudI.PQueue4

open PriorityFamily

variable {α : Type}

/-- The operations, each with its arguments. -/
inductive Op (α : Type) where
  | in2 (X : α)
  | in3 (X : α) (P : Priority)
  | out1
  | out2 (P : Priority)
  | pout
  | filter2 (F : α → Bool)
  | filter3 (F : α → Bool) (P : Priority)
  | removeUnique2 (F : α → Bool)
  | removeUnique3 (F : α → Bool) (P : Priority)

/-- What an operation returns beside the queue. -/
inductive Reply (α : Type) where
  | queue
  | value (v : Option α)
  | pvalue (v : Option (α × Priority))
  | removed (b : Bool)
deriving DecidableEq

/-- Priority 0, the default one. -/
def zero : Priority := ⟨0, by decide, by decide⟩

namespace Op

def apply [DecidableEq α] (op : Op α) (Q : PQueue4 α) : Except Exn (Reply α × PQueue4 α) :=
  match op with
  | in2 X => do return (.queue, ← PQueue4.in2 X Q)
  | in3 X P => do return (.queue, ← PQueue4.in3 X P.val Q)
  | out1 => return (.value Q.out1.1, Q.out1.2)
  | out2 P => do
    let (v, Q') ← PQueue4.out2 P.val Q
    return (.value v, Q')
  | pout => return (.pvalue Q.pout.1, Q.pout.2)
  | filter2 F => return (.queue, PQueue4.filter2 F Q)
  | filter3 F P => do return (.queue, ← PQueue4.filter3 F P.val Q)
  | removeUnique2 F => do
    let (b, Q') ← PQueue4.removeUnique2 F Q
    return (.removed b, Q')
  | removeUnique3 F P => do
    let (b, Q') ← PQueue4.removeUnique3 F P.val Q
    return (.removed b, Q')

/-- The operation on a map from priority to list. -/
def reference (op : Op α) (r : PriorityFamily Priority α) : Reply α × PriorityFamily Priority α :=
  match op with
  | in2 X => (.queue, r.enq zero X)
  | in3 X P => (.queue, r.enq P X)
  | out1 => (.value (r.deq.1.map Prod.fst), r.deq.2)
  | out2 P => (.value (r.deqAt P).1, (r.deqAt P).2)
  | pout => (.pvalue r.deq.1, r.deq.2)
  | filter2 F => (.queue, r.filter F)
  | filter3 F P => (.queue, r.filterAt F P)
  | removeUnique2 F => (.removed (r.remove F).1, (r.remove F).2)
  | removeUnique3 F P => (.removed (r.removeAt F P).1, (r.removeAt F P).2)

/-- The predicate of a unique removal is true on at most one element held. -/
def Admitted (op : Op α) (r : PriorityFamily Priority α) : Prop :=
  match op with
  | removeUnique2 F | removeUnique3 F _ => AtMostOne F r
  | _ => True

end Op

/-- A coherent queue holds what the family does. -/
def Holds (Q : PQueue4 α) (r : PriorityFamily Priority α) : Prop := Q.Coherent ∧ Q.contents = r

/-- Each operation does on the queue what it does on the family. -/
theorem apply_refines [DecidableEq α] :
    Refines (Op.apply (α := α)) Op.reference Op.Admitted Holds := by
  rintro op Q _ ⟨h, rfl⟩ hop
  cases op with
  | in2 X =>
    obtain ⟨Q', hQ', hc, h'⟩ := in3_spec h X zero
    exact ⟨Q', by rw [Op.apply, in2, show (0 : Int) = zero.val from rfl, hQ']; rfl, h', hc⟩
  | in3 X P =>
    obtain ⟨Q', hQ', hc, h'⟩ := in3_spec h X P
    exact ⟨Q', by rw [Op.apply, hQ']; rfl, h', hc⟩
  | out1 =>
    obtain ⟨h₁, hc, h'⟩ := out1_spec h
    exact ⟨Q.out1.2, by rw [Op.apply, Op.reference, h₁]; rfl, h', hc⟩
  | out2 P =>
    obtain ⟨v, Q', hQ', hv, h'⟩ := out2_spec h P
    exact ⟨Q', by rw [Op.apply, hQ', Op.reference, ← hv]; rfl, h', by rw [Op.reference, ← hv]⟩
  | pout =>
    obtain ⟨h₁, hc, h'⟩ := pout_spec h
    exact ⟨Q.pout.2, by rw [Op.apply, Op.reference, h₁]; rfl, h', hc⟩
  | filter2 F =>
    obtain ⟨h', hc⟩ := filter2_spec F h
    exact ⟨_, rfl, h', hc⟩
  | filter3 F P =>
    obtain ⟨Q', hQ', hc, h'⟩ := filter3_spec F P h
    exact ⟨Q', by rw [Op.apply, hQ']; rfl, h', hc⟩
  | removeUnique2 F =>
    obtain ⟨b, Q', hQ', hb, h'⟩ := removeUnique2_spec h hop
    exact ⟨Q', by rw [Op.apply, hQ', Op.reference, ← hb]; rfl, h', by rw [Op.reference, ← hb]⟩
  | removeUnique3 F P =>
    obtain ⟨b, Q', hQ', hb, h'⟩ := removeUnique3_spec h P hop
    exact ⟨Q', by rw [Op.apply, hQ', Op.reference, ← hb]; rfl, h', by rw [Op.reference, ← hb]⟩

/-- After any sequence of operations from `new/0` the replies are those of
the map from priority to list, the size counts its elements, the current
priority is `empty` exactly at size 0 and never above the first nonempty
list, and `to_list/1` and `to_plist/1` list its contents in order. -/
theorem run_reference [DecidableEq α] (ops : List (Op α)) (hops : Allowed Op.reference Op.Admitted ops empty) :
    ∃ Q : PQueue4 α,
      runOps Op.apply ops new = .ok ((runReference Op.reference ops empty).1, Q) ∧
      let r := (runReference Op.reference ops empty).2
      Q.len = r.total ∧ (Q.pc = none ↔ Q.size = 0) ∧
      (∀ Pc, Q.pc = some Pc → ∀ P, r P ≠ [] → Pc ≤ P) ∧
      Q.toList = r.toList ∧ Q.toPlist = asPlist r.toPlist := by
  obtain ⟨Q, hrun, hQ, hc⟩ := runOps_refines (apply_refines (α := α)) ⟨coherent_new, contents_new⟩ hops
  refine ⟨Q, hrun, ?_⟩
  simp only [← hc]
  refine ⟨hQ.size_eq, hQ.pc_none, fun Pc hPc P hP => ?_, toList_spec hQ, toPlist_spec hQ⟩
  exact not_lt.mp fun hlt => hP (hQ.pc_le Pc hPc P hlt)

set_option maxRecDepth 20000 in
/-- The run of a removal between two insertions and a `pout/1`. -/
theorem run_reference_removal :
    ∃ Q : PQueue4 Nat,
      runOps Op.apply [.in2 7, .in3 8 ⟨-128, by decide, by decide⟩, .removeUnique2 (· == 8), .pout] new =
        .ok ([.queue, .queue, .removed true, .pvalue (some (7, zero))], Q) ∧ Q.len = 0 := by
  have hone : AtMostOne (· == 8)
      (((empty : PriorityFamily Priority Nat).enq zero 7).enq ⟨-128, by decide, by decide⟩ 8) := by
    unfold AtMostOne
    decide +kernel
  obtain ⟨Q, hQ, hlen, -⟩ := run_reference
    [.in2 7, .in3 8 ⟨-128, by decide, by decide⟩, .removeUnique2 (· == 8), .pout]
    ⟨trivial, trivial, hone, trivial, trivial⟩
  refine ⟨Q, hQ.trans (congrArg (fun r => Except.ok (r, Q)) ?_), hlen.trans ?_⟩ <;> decide +kernel

end CloudI.PQueue4
