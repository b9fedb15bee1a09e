import Mathlib.Algebra.Order.Group.Int
import Mathlib.Data.Fintype.Basic
import CloudI.Framework.Exn
import CloudI.Framework.TwoListQueue

/-!
# The priority queue `pqueue4`

The state keeps a queue for each priority in -128..128: sixteen tuples of
sixteen queues and one queue for priority 0, with the current priority (a
lower bound on the smallest nonempty one) and the size. The clauses of the
source are one for each priority and differ only in the queue they name, so
each function here is stated once, through `queueAt` and `setQueue`.
-/

namespace CloudI

/-- A priority in the range `-128..128`. -/
@[ext]
structure Priority where
  val : Int
  min_le : -128 ≤ val
  le_max : val ≤ 128
deriving DecidableEq

namespace Priority

/-- Priorities are ordered by their values. -/
instance : LinearOrder Priority := @LinearOrder.lift' Priority Int Int.instLinearOrder val fun _ _ => Priority.ext

/-- Every priority. -/
@[irreducible] def all : Finset Priority :=
  Finset.univ.map ⟨fun i : Fin 257 => ⟨i.val - 128, by omega, by omega⟩, fun i j h => by
    have := congrArg val h
    simp only at this
    omega⟩

theorem mem_all (P : Priority) : P ∈ all := by
  have := P.min_le
  have := P.le_max
  rw [all, Finset.mem_map]
  exact ⟨⟨(P.val + 128).toNat, by omega⟩, Finset.mem_univ _, Priority.ext (by
    show ((P.val + 128).toNat : Int) - 128 = P.val
    omega)⟩

instance : Fintype Priority := ⟨all, mem_all⟩

/-- `P + 1`, for a priority that is not the last. -/
def next (P : Priority) (h : P.val ≠ 128) : Priority :=
  ⟨P.val + 1, by have := P.min_le; omega, by have := P.le_max; omega⟩

@[simp] theorem next_val (P : Priority) (h : P.val ≠ 128) : (P.next h).val = P.val + 1 := rfl

theorem lt_next (P : Priority) (h : P.val ≠ 128) : P < P.next h := Int.lt_succ P.val

theorem next_le {P P' : Priority} (h : P.val ≠ 128) (hlt : P < P') : P.next h ≤ P' :=
  Int.add_one_le_of_lt hlt

theorem lt_next_iff {P P' : Priority} {h : P.val ≠ 128} : P' < P.next h ↔ P' ≤ P :=
  Int.lt_add_one_iff

theorem le_last {P : Priority} (h : P.val = 128) (P' : Priority) : P' ≤ P := by
  show P'.val ≤ P.val
  rw [h]
  exact P'.le_max

end Priority

/-- The sixteen tuples of the state, named by their outermost priority. -/
inductive Block where
  | qn128 | qn112 | qn96 | qn80 | qn64 | qn48 | qn32 | qn16
  | qp16 | qp32 | qp48 | qp64 | qp80 | qp96 | qp112 | qp128
deriving DecidableEq, Repr

namespace Block

/-- The priority of the first queue of the tuple. -/
def first : Block → Int
  | qn128 => -128 | qn112 => -112 | qn96 => -96 | qn80 => -80
  | qn64 => -64 | qn48 => -48 | qn32 => -32 | qn16 => -16
  | qp16 => 1 | qp32 => 17 | qp48 => 33 | qp64 => 49
  | qp80 => 65 | qp96 => 81 | qp112 => 97 | qp128 => 113

/-- The tuple that holds the queue of priority `P`, other than 0. -/
def ofPriority (P : Int) : Block :=
  if P < -112 then qn128 else if P < -96 then qn112 else if P < -80 then qn96
  else if P < -64 then qn80 else if P < -48 then qn64 else if P < -32 then qn48
  else if P < -16 then qn32 else if P < 1 then qn16 else if P < 17 then qp16
  else if P < 33 then qp32 else if P < 49 then qp48 else if P < 65 then qp64
  else if P < 81 then qp80 else if P < 97 then qp96 else if P < 113 then qp112
  else qp128

theorem ofPriority_bound {P : Int} (h0 : P ≠ 0) (hl : -128 ≤ P) (hu : P ≤ 128) :
    (ofPriority P).first ≤ P ∧ P < (ofPriority P).first + 16 := by
  fun_cases ofPriority P <;> exact ⟨by simp only [first]; omega, by simp only [first]; omega⟩

end Block

/-- The position of a priority's queue within its tuple. -/
def Priority.index (P : Priority) (h : P.val ≠ 0) : Fin 16 :=
  ⟨(P.val - (Block.ofPriority P.val).first).toNat, by
    have := Block.ofPriority_bound h P.min_le P.le_max
    omega⟩

theorem Priority.eq_of_index {P P' : Priority} (h : P.val ≠ 0) (h' : P'.val ≠ 0)
    (hb : Block.ofPriority P.val = Block.ofPriority P'.val) (hi : P.index h = P'.index h') :
    P = P' := by
  have b := Block.ofPriority_bound h P.min_le P.le_max
  have b' := Block.ofPriority_bound h' P'.min_le P'.le_max
  simp only [index, Fin.mk.injEq, hb] at hi
  rw [hb] at b
  exact Priority.ext (by omega)

/-- The state: the current priority (`none` is `empty`), the total size, the
queues of -128..-1, the queue of 0 and the queues of 1..128. -/
structure PQueue4 (α : Type) where
  pc : Option Priority
  size : Int
  qn128 : Vector (TwoListQueue α) 16
  qn112 : Vector (TwoListQueue α) 16
  qn96 : Vector (TwoListQueue α) 16
  qn80 : Vector (TwoListQueue α) 16
  qn64 : Vector (TwoListQueue α) 16
  qn48 : Vector (TwoListQueue α) 16
  qn32 : Vector (TwoListQueue α) 16
  qn16 : Vector (TwoListQueue α) 16
  q0 : TwoListQueue α
  qp16 : Vector (TwoListQueue α) 16
  qp32 : Vector (TwoListQueue α) 16
  qp48 : Vector (TwoListQueue α) 16
  qp64 : Vector (TwoListQueue α) 16
  qp80 : Vector (TwoListQueue α) 16
  qp96 : Vector (TwoListQueue α) 16
  qp112 : Vector (TwoListQueue α) 16
  qp128 : Vector (TwoListQueue α) 16
deriving DecidableEq

namespace PQueue4

variable {α : Type}

/-! ## The queue of a priority -/

def block (Q : PQueue4 α) : Block → Vector (TwoListQueue α) 16
  | .qn128 => Q.qn128 | .qn112 => Q.qn112 | .qn96 => Q.qn96 | .qn80 => Q.qn80
  | .qn64 => Q.qn64 | .qn48 => Q.qn48 | .qn32 => Q.qn32 | .qn16 => Q.qn16
  | .qp16 => Q.qp16 | .qp32 => Q.qp32 | .qp48 => Q.qp48 | .qp64 => Q.qp64
  | .qp80 => Q.qp80 | .qp96 => Q.qp96 | .qp112 => Q.qp112 | .qp128 => Q.qp128

def setBlock (Q : PQueue4 α) (b : Block) (v : Vector (TwoListQueue α) 16) : PQueue4 α :=
  match b with
  | .qn128 => { Q with qn128 := v } | .qn112 => { Q with qn112 := v }
  | .qn96 => { Q with qn96 := v } | .qn80 => { Q with qn80 := v }
  | .qn64 => { Q with qn64 := v } | .qn48 => { Q with qn48 := v }
  | .qn32 => { Q with qn32 := v } | .qn16 => { Q with qn16 := v }
  | .qp16 => { Q with qp16 := v } | .qp32 => { Q with qp32 := v }
  | .qp48 => { Q with qp48 := v } | .qp64 => { Q with qp64 := v }
  | .qp80 => { Q with qp80 := v } | .qp96 => { Q with qp96 := v }
  | .qp112 => { Q with qp112 := v } | .qp128 => { Q with qp128 := v }

/-- The queue of priority `P`. -/
def queueAt (Q : PQueue4 α) (P : Priority) : TwoListQueue α :=
  if h : P.val = 0 then Q.q0 else (Q.block (Block.ofPriority P.val))[P.index h]

theorem queueAt_zero (Q : PQueue4 α) {P : Priority} (h : P.val = 0) : Q.queueAt P = Q.q0 :=
  dif_pos h

theorem queueAt_block (Q : PQueue4 α) {P : Priority} (h : P.val ≠ 0) :
    Q.queueAt P = (Q.block (Block.ofPriority P.val))[P.index h] := dif_neg h

/-- The state with the queue of priority `P` replaced. -/
def setQueue (Q : PQueue4 α) (P : Priority) (q : TwoListQueue α) : PQueue4 α :=
  if h : P.val = 0 then { Q with q0 := q }
  else Q.setBlock (Block.ofPriority P.val) ((Q.block (Block.ofPriority P.val)).set (P.index h) q)

theorem setQueue_zero (Q : PQueue4 α) {P : Priority} (q) (h : P.val = 0) :
    Q.setQueue P q = { Q with q0 := q } := dif_pos h

theorem setQueue_block (Q : PQueue4 α) {P : Priority} (q) (h : P.val ≠ 0) :
    Q.setQueue P q = Q.setBlock (Block.ofPriority P.val)
      ((Q.block (Block.ofPriority P.val)).set (P.index h) q) := dif_neg h

@[simp] theorem block_setBlock_self (Q : PQueue4 α) (b : Block) (v) : (Q.setBlock b v).block b = v := by
  cases b <;> rfl

theorem block_setBlock_of_ne (Q : PQueue4 α) {b b' : Block} (v) (h : b' ≠ b) :
    (Q.setBlock b v).block b' = Q.block b' := by
  cases b <;> cases b' <;> first | rfl | exact absurd rfl h

@[simp] theorem q0_setBlock (Q : PQueue4 α) (b : Block) (v) : (Q.setBlock b v).q0 = Q.q0 := by
  cases b <;> rfl

@[simp] theorem block_mk_pc (Q : PQueue4 α) (c : Option Priority) (n : Int) (b : Block) :
    block { Q with pc := c, size := n } b = Q.block b := by
  cases b <;> rfl

@[simp] theorem setBlock_block (Q : PQueue4 α) (b : Block) : Q.setBlock b (Q.block b) = Q := by
  cases b <;> rfl

@[simp] theorem block_mk_q0 (Q : PQueue4 α) (q) (b : Block) : block { Q with q0 := q } b = Q.block b := by
  cases b <;> rfl

@[simp] theorem queueAt_mk_pc (Q : PQueue4 α) (c : Option Priority) (n : Int) (P : Priority) :
    queueAt { Q with pc := c, size := n } P = Q.queueAt P := by
  simp only [queueAt, block_mk_pc]

@[simp] theorem queueAt_setQueue_self (Q : PQueue4 α) (P : Priority) (q) :
    (Q.setQueue P q).queueAt P = q := by
  by_cases h : P.val = 0
  · rw [queueAt_zero _ h, setQueue_zero _ _ h]
  · simp only [queueAt_block _ h, setQueue_block _ _ h, block_setBlock_self, Fin.getElem_fin,
      Vector.getElem_set_self]

theorem queueAt_setQueue_of_ne (Q : PQueue4 α) {P P' : Priority} (q) (hne : P' ≠ P) :
    (Q.setQueue P q).queueAt P' = Q.queueAt P' := by
  have hv : P'.val ≠ P.val := fun h => hne (Priority.ext h)
  by_cases h' : P'.val = 0
  · rw [queueAt_zero _ h', queueAt_zero _ h', setQueue_block _ _ (by omega), q0_setBlock]
  · rw [queueAt_block _ h', queueAt_block _ h']
    by_cases h : P.val = 0
    · simp only [setQueue_zero _ _ h, block_mk_q0]
    · simp only [setQueue_block _ _ h]
      by_cases hb : Block.ofPriority P'.val = Block.ofPriority P.val
      · have hi : (P.index h).val ≠ (P'.index h').val := fun hi =>
          hne (Priority.eq_of_index h' h hb (Fin.ext hi.symm))
        simp only [hb, block_setBlock_self, Fin.getElem_fin, Vector.getElem_set_ne _ _ hi]
      · simp only [block_setBlock_of_ne _ _ hb]

@[simp] theorem setQueue_queueAt (Q : PQueue4 α) (P : Priority) : Q.setQueue P (Q.queueAt P) = Q := by
  by_cases h : P.val = 0
  · rw [setQueue_zero _ _ h, queueAt_zero _ h]
  · rw [setQueue_block _ _ h, queueAt_block _ h, Fin.getElem_fin, Vector.set_getElem_self,
      setBlock_block]

/-! ## Removing a unique value from one queue -/

/-- `queue_remove_unique_f/4`: scan `l`, the elements passed in `acc` reversed, out of `all`. -/
def queueRemoveUniqueScan (F : α → Bool) : List α → List α → List α → Bool × List α
  | [], _, all => (false, all)
  | x :: l, acc, all =>
    if F x then (true, acc.reverse ++ l) else queueRemoveUniqueScan F l (x :: acc) all

def queueRemoveUniqueF (F : α → Bool) : List α → Bool × List α
  | [] => (false, [])
  | l => queueRemoveUniqueScan F l [] l

/-- The front list is searched first, then the rear list, backwards. -/
def queueRemoveUnique (F : α → Bool) (q : TwoListQueue α) : Bool × TwoListQueue α :=
  match queueRemoveUniqueF F q.front with
  | (true, []) => (true, TwoListQueue.r2f q.rear)
  | (true, f) => (true, ⟨q.rear, f⟩)
  | (false, f) =>
    match queueRemoveUniqueF F q.rear with
    | (true, []) => (true, TwoListQueue.f2r f)
    | (true, r) => (true, ⟨r, f⟩)
    | (false, _) => (false, q)

/-! ## Operations -/

/-- The guard of the functions that take a priority. -/
def toPriority (P : Int) : Except Exn Priority :=
  if h : -128 ≤ P ∧ P ≤ 128 then .ok ⟨P, h.1, h.2⟩ else .error .exitBadarg

@[simp] theorem toPriority_val (P : Priority) : toPriority P.val = .ok P := dif_pos ⟨P.min_le, P.le_max⟩

/-- `{NewPc, NewSize, ...}` with the queue of `P` replaced: the current
priority is `c`, or `empty` once the size is 0. -/
def replace (Q : PQueue4 α) (c : Option Priority) (n : Int) (P : Priority) (q : TwoListQueue α) :
    PQueue4 α :=
  { Q.setQueue P q with pc := if n = 0 then none else c, size := n }

def new : PQueue4 α where
  pc := none
  size := 0
  qn128 := Vector.replicate 16 .new
  qn112 := Vector.replicate 16 .new
  qn96 := Vector.replicate 16 .new
  qn80 := Vector.replicate 16 .new
  qn64 := Vector.replicate 16 .new
  qn48 := Vector.replicate 16 .new
  qn32 := Vector.replicate 16 .new
  qn16 := Vector.replicate 16 .new
  q0 := .new
  qp16 := Vector.replicate 16 .new
  qp32 := Vector.replicate 16 .new
  qp48 := Vector.replicate 16 .new
  qp64 := Vector.replicate 16 .new
  qp80 := Vector.replicate 16 .new
  qp96 := Vector.replicate 16 .new
  qp112 := Vector.replicate 16 .new
  qp128 := Vector.replicate 16 .new

def isEmpty (Q : PQueue4 α) : Bool := Q.size = 0

def len (Q : PQueue4 α) : Int := Q.size

def filterPriority (P : Priority) (F : α → Bool) (Q : PQueue4 α) : PQueue4 α :=
  let q := (Q.queueAt P).filter F
  Q.replace Q.pc (Q.size - ((Q.queueAt P).len - q.len)) P q

def filterAll (P : Priority) (F : α → Bool) (Q : PQueue4 α) : PQueue4 α :=
  if Q.size = 0 then Q
  else if h : P.val = 128 then filterPriority P F Q
  else filterAll (P.next h) F (filterPriority P F Q)
termination_by (128 - P.val).toNat
decreasing_by have := P.le_max; simp only [Priority.next_val]; omega

/-- `filter/2` -/
def filter2 (F : α → Bool) (Q : PQueue4 α) : PQueue4 α :=
  match Q.pc with
  | none => Q
  | some Pc => filterAll Pc F Q

/-- `filter/3` -/
def filter3 (F : α → Bool) (P : Int) (Q : PQueue4 α) : Except Exn (PQueue4 α) := do
  return filterPriority (← toPriority P) F Q

def inHigher (P : Priority) (Q : PQueue4 α) (X : α) : PQueue4 α :=
  { Q.setQueue P ((Q.queueAt P).in X) with pc := some P, size := Q.size + 1 }

def inLower (P : Priority) (Q : PQueue4 α) (X : α) : PQueue4 α :=
  { Q.setQueue P ((Q.queueAt P).in X) with pc := Q.pc, size := Q.size + 1 }

/-- `in/3` -/
def in3 (X : α) (P : Int) (Q : PQueue4 α) : Except Exn (PQueue4 α) := do
  let P ← toPriority P
  match Q.pc with
  | none => return inHigher P Q X
  | some Pc => return if P < Pc then inHigher P Q X else inLower P Q X

/-- `in/2` -/
def in2 (X : α) (Q : PQueue4 α) : Except Exn (PQueue4 α) := in3 X 0 Q

/-- The clauses of `out_current` look for the first nonempty queue from `P`
upwards; past the last one the size is reset. -/
def outCurrent (P : Priority) (Q : PQueue4 α) : Option α × PQueue4 α :=
  match (Q.queueAt P).out with
  | (some v, q) => (some v, Q.replace (some P) (Q.size - 1) P q)
  | (none, q) =>
    if h : P.val = 128 then (none, Q.replace none 0 P q)
    else outCurrent (P.next h) Q
termination_by (128 - P.val).toNat
decreasing_by have := P.le_max; simp only [Priority.next_val]; omega

/-- `out_current` with the priority in the value. -/
def outCurrentP (P : Priority) (Q : PQueue4 α) : Option (α × Priority) × PQueue4 α :=
  match (Q.queueAt P).out with
  | (some v, q) => (some (v, P), Q.replace (some P) (Q.size - 1) P q)
  | (none, _) =>
    if h : P.val = 128 then (none, { Q with pc := none, size := 0 })
    else outCurrentP (P.next h) Q
termination_by (128 - P.val).toNat
decreasing_by have := P.le_max; simp only [Priority.next_val]; omega

def outSpecific (P : Priority) (Q : PQueue4 α) : Option α × PQueue4 α :=
  let (v, q) := (Q.queueAt P).out
  (v, Q.replace Q.pc (if v.isSome then Q.size - 1 else Q.size) P q)

/-- `out/1` -/
def out1 (Q : PQueue4 α) : Option α × PQueue4 α :=
  match Q.pc with
  | none => (none, Q)
  | some Pc => outCurrent Pc Q

/-- `out/2` -/
def out2 (P : Int) (Q : PQueue4 α) : Except Exn (Option α × PQueue4 α) := do
  let P ← toPriority P
  match Q.pc with
  | none => return (none, Q)
  | some _ => return outSpecific P Q

/-- `pout/1` -/
def pout (Q : PQueue4 α) : Option (α × Priority) × PQueue4 α :=
  match Q.pc with
  | none => (none, Q)
  | some Pc => outCurrentP Pc Q

def removeUniqueP (P : Priority) (F : α → Bool) (Q : PQueue4 α) : Bool × PQueue4 α :=
  let (v, q) := queueRemoveUnique F (Q.queueAt P)
  (v, Q.replace Q.pc (if v then Q.size - 1 else Q.size) P q)

/-- A miss must leave the whole state as it was: the source matches it against `Q`. -/
def removeUniqueAll [DecidableEq α] (P : Priority) (F : α → Bool) (Q : PQueue4 α) :
    Except Exn (Bool × PQueue4 α) :=
  if h : P.val = 128 then .ok (removeUniqueP P F Q)
  else
    match removeUniqueP P F Q with
    | (true, Q') => .ok (true, Q')
    | (false, Q') => if Q' = Q then removeUniqueAll (P.next h) F Q else .error .caseClause
termination_by (128 - P.val).toNat
decreasing_by have := P.le_max; simp only [Priority.next_val]; omega

/-- `remove_unique/2` -/
def removeUnique2 [DecidableEq α] (F : α → Bool) (Q : PQueue4 α) : Except Exn (Bool × PQueue4 α) :=
  if Q.size = 0 then .ok (false, Q)
  else
    match Q.pc with
    | none => .error .functionClause
    | some Pc => removeUniqueAll Pc F Q

/-- `remove_unique/3` -/
def removeUnique3 (F : α → Bool) (P : Int) (Q : PQueue4 α) : Except Exn (Bool × PQueue4 α) := do
  return removeUniqueP (← toPriority P) F Q

end PQueue4

end CloudI
