import Mathlib.Algebra.Order.Group.Int
import Mathlib.Algebra.Order.Ring.Nat
import Mathlib.Data.Fintype.Order
import CloudI.Framework.Exn
import CloudI.Framework.PriorityQueue
import CloudI.Framework.TwoListQueue

/-!
# The priority queue `pqueue3`

The queues of the priorities are in tuples of tuples, one to four deep; the
fields of the bits of a priority index are the indexes in the tuples
(`layerIndexes`), whose sizes are those of the fields (`layerSizes`). For every
number of priorities up to 65535 the indexes are inside the tuples and
different for different priorities (`exists_layers`). The current index is a
lower bound on the first priority that has elements, from which `out/1` and
`pout/1` look for it. With this the operations are those of the family of lists
(`implements`).
-/

namespace CloudI

namespace PQueue3

/-- The tuples of the layers, and the queues in those of the last layer. -/
inductive Bins (α : Type) where
  | queue (q : TwoListQueue α)
  | tuple (elements : List (Bins α))

/-- The options of `new/1`. -/
structure Options where
  priorities : Nat := 256
  middlePriorityZero : Bool := true

end PQueue3

/-- `{Size, Offset, I, Bins}`, where `I` is `empty` or at most `Size`. -/
structure PQueue3 (Size : Nat) (α : Type) where
  offset : Nat
  current : Option (Fin (Size + 1))
  bins : PQueue3.Bins α

namespace PQueue3

open PriorityFamily

variable {α β : Type} {Size : Nat}

/-! ## The layers -/

/-- `erlang:element/2`; what it takes out of a queue is a list, on which every function that is
called next raises `badarg`, as is said here. -/
def element (I : Nat) : Bins α → Except Exn (Bins α)
  | .queue _ => .error .badarg
  | .tuple l =>
    if I = 0 then .error .badarg
    else
      match l[I - 1]? with
      | some b => .ok b
      | none => .error .badarg

/-- `erlang:setelement/3` -/
def setelement (I : Nat) : Bins α → Bins α → Except Exn (Bins α)
  | .queue _, _ => .error .badarg
  | .tuple l, b => if I = 0 ∨ l.length < I then .error .badarg else .ok (.tuple (l.set (I - 1) b))

/-- `f` on the queue that the indexes lead to: the clauses of `in_queue/3` and
`out_queue/2` are one for each number of indexes. -/
def onQueue (f : TwoListQueue α → β × TwoListQueue α) : List Nat → Bins α → Except Exn (β × Bins α)
  | [], .queue q => .ok ((f q).1, .queue (f q).2)
  | [], .tuple _ => .error .badarg
  | I :: Is, Bins₁ => do
    let Bins₂ ← element I Bins₁
    let (Result, NewBins₂) ← onQueue f Is Bins₂
    return (Result, ← setelement I Bins₁ NewBins₂)

def inQueue (Is : List Nat) (Value : α) (B : Bins α) : Except Exn (Bins α) := do
  let (_, NewB) ← onQueue (fun q => ((), q.in Value)) Is B
  return NewB

def outQueue (Is : List Nat) (B : Bins α) : Except Exn (Option α × Bins α) := onQueue TwoListQueue.out Is B

def create : List Nat → Bins α
  | [] => .queue .new
  | I :: Is => .tuple (List.replicate (I + 1) (create Is))

/-- `<<I1:W1, I2:W2, ...>> = <<N:W>>`, where `W` is the sum of the widths. -/
def fields : List Nat → Nat → List Nat
  | [], _ => []
  | w :: ws, N => N / 2 ^ ws.sum % 2 ^ w :: fields ws N

def layerIndexes (Size PriorityIndex : Nat) : Except Exn (List Nat) :=
  if Size ≤ 127 then .ok [PriorityIndex + 1]
  else if Size ≤ 255 then .ok ((fields [4, 4] PriorityIndex).map (· + 1))
  else if Size ≤ 511 then .ok ((fields [4, 5] PriorityIndex).map (· + 1))
  else if Size ≤ 1023 then .ok ((fields [3, 3, 4] PriorityIndex).map (· + 1))
  else if Size ≤ 2047 then .ok ((fields [3, 4, 4] PriorityIndex).map (· + 1))
  else if Size ≤ 4095 then .ok ((fields [4, 4, 4] PriorityIndex).map (· + 1))
  else if Size ≤ 8191 then .ok ((fields [4, 4, 5] PriorityIndex).map (· + 1))
  else if Size ≤ 16383 then .ok ((fields [4, 5, 5] PriorityIndex).map (· + 1))
  else if Size ≤ 32767 then .ok ((fields [3, 4, 4, 4] PriorityIndex).map (· + 1))
  else if Size ≤ 65535 then .ok ((fields [4, 4, 4, 4] PriorityIndex).map (· + 1))
  else .error .ifClause

def layerSizes (Size : Nat) : Except Exn (List Nat) :=
  if Size ≤ 127 then .ok (fields [7] 127)
  else if Size ≤ 255 then .ok (fields [4, 4] 255)
  else if Size ≤ 511 then .ok (fields [4, 5] 511)
  else if Size ≤ 1023 then .ok (fields [3, 3, 4] 1023)
  else if Size ≤ 2047 then .ok (fields [3, 4, 4] 2047)
  else if Size ≤ 4095 then .ok (fields [4, 4, 4] 4095)
  else if Size ≤ 8191 then .ok (fields [4, 4, 5] 8191)
  else if Size ≤ 16383 then .ok (fields [4, 5, 5] 16383)
  else if Size ≤ 32767 then .ok (fields [3, 4, 4, 4] 32767)
  else if Size ≤ 65535 then .ok (fields [4, 4, 4, 4] 65535)
  else .error .ifClause

/-! ## Operations -/

/-- `erlang:round/1` of `n` halves. -/
def roundHalves (n : Nat) : Nat := (n + 1) / 2

/-- The index of priority 0. -/
def offsetOf (o : Options) : Nat := if o.middlePriorityZero then roundHalves (o.priorities + 1) - 1 else 0

/-- `new/1` -/
def new (o : Options) : Except Exn (PQueue3 o.priorities α) := do
  return { offset := offsetOf o, current := none, bins := create (← layerSizes o.priorities) }

/-- The guard of the functions that take a priority. -/
def priorityIndex (P : Int) (Q : PQueue3 Size α) : Except Exn (Fin (Size + 1)) :=
  if h : P + Q.offset < 0 ∨ P + Q.offset > Size then .error .exitBadarg
  else .ok ⟨(P + Q.offset).toNat, by omega⟩

/-- `in/3` -/
def in3 (Value : α) (P : Int) (Q : PQueue3 Size α) : Except Exn (PQueue3 Size α) := do
  let PriorityIndex ← Q.priorityIndex P
  let NewBins ← inQueue (← layerIndexes Size PriorityIndex) Value Q.bins
  match Q.current with
  | none => return { Q with current := some PriorityIndex, bins := NewBins }
  | some I =>
    if PriorityIndex < I then return { Q with current := some PriorityIndex, bins := NewBins }
    else return { Q with bins := NewBins }

/-- `in/2` -/
def in2 (Value : α) (Q : PQueue3 Size α) : Except Exn (PQueue3 Size α) := in3 Value 0 Q

def outCheck (I : Fin (Size + 1)) : Option α × Bins α → Except Exn (Option α × Option (Fin (Size + 1)) × Bins α)
  | (some Value, B) => .ok (some Value, some I, B)
  | (none, B) =>
    if h : I.val = Size then .ok (none, none, B)
    else do
      outCheck ⟨I.val + 1, by omega⟩ (← outQueue (← layerIndexes Size (I.val + 1)) B)
termination_by Size - I.val
decreasing_by omega

def poutCheck (Offset : Nat) (I : Fin (Size + 1)) :
    Option α × Bins α → Except Exn (Option (α × Int) × Option (Fin (Size + 1)) × Bins α)
  | (some Value, B) => .ok (some (Value, I.val - Offset), some I, B)
  | (none, B) =>
    if h : I.val = Size then .ok (none, none, B)
    else do
      poutCheck Offset ⟨I.val + 1, by omega⟩ (← outQueue (← layerIndexes Size (I.val + 1)) B)
termination_by Size - I.val
decreasing_by omega

/-- `out/1` -/
def out1 (Q : PQueue3 Size α) : Except Exn (Option α × PQueue3 Size α) :=
  match Q.current with
  | none => .ok (none, Q)
  | some I => do
    let (Result, NewI, NewBins) ← outCheck I (← outQueue (← layerIndexes Size I) Q.bins)
    return (Result, { Q with current := NewI, bins := NewBins })

/-- `out/2` -/
def out2 (P : Int) (Q : PQueue3 Size α) : Except Exn (Option α × PQueue3 Size α) := do
  let PriorityIndex ← Q.priorityIndex P
  match Q.current with
  | none => return (none, Q)
  | some _ =>
    let (Result, NewBins) ← outQueue (← layerIndexes Size PriorityIndex) Q.bins
    return (Result, { Q with bins := NewBins })

/-- `pout/1` -/
def pout (Q : PQueue3 Size α) : Except Exn (Option (α × Int) × PQueue3 Size α) :=
  match Q.current with
  | none => .ok (none, Q)
  | some I => do
    let (Result, NewI, NewBins) ← poutCheck Q.offset I (← outQueue (← layerIndexes Size I) Q.bins)
    return (Result, { Q with current := NewI, bins := NewBins })

/-! ## Paths in the tuples -/

/-- Tuples of the sizes that `create/1` gives them, with queues in the last ones. -/
def Shaped : List Nat → Bins α → Prop
  | [], b => ∃ q, b = .queue q
  | n :: ns, b => ∃ l, b = .tuple l ∧ l.length = n + 1 ∧ ∀ b' ∈ l, Shaped ns b'

/-- Every index is inside the tuple that it is for. -/
def Inside (Is ns : List Nat) : Prop := List.Forall₂ (fun I n => 1 ≤ I ∧ I ≤ n + 1) Is ns

/-- The queue that the indexes lead to. -/
def lookup : List Nat → Bins α → Option (TwoListQueue α)
  | [], .queue q => some q
  | [], .tuple _ => none
  | I :: Is, .tuple l => l[I - 1]? >>= lookup Is
  | _ :: _, .queue _ => none

theorem shaped_create (ns : List Nat) : Shaped ns (create ns : Bins α) := by
  induction ns with
  | nil => exact ⟨_, rfl⟩
  | cons n ns ih => exact ⟨_, rfl, List.length_replicate, fun b hb => List.eq_of_mem_replicate hb ▸ ih⟩

theorem lookup_create {Is ns : List Nat} (h : Inside Is ns) : lookup Is (create ns : Bins α) = some .new := by
  induction h with
  | nil => rfl
  | @cons I n Is ns hI _ ih =>
    simp only [create, lookup]
    rw [List.getElem?_replicate_of_lt (by omega)]
    exact ih

/-- Indexes that are inside lead to a queue; another path leads to the same queue as before. -/
theorem onQueue_spec (f : TwoListQueue α → β × TwoListQueue α) {Is ns : List Nat} (h : Inside Is ns) {b : Bins α}
    (hb : Shaped ns b) :
    ∃ q b', lookup Is b = some q ∧ onQueue f Is b = .ok ((f q).1, b') ∧ Shaped ns b' ∧
      lookup Is b' = some (f q).2 ∧ ∀ Js, Inside Js ns → Js ≠ Is → lookup Js b' = lookup Js b := by
  induction h generalizing b with
  | nil =>
    obtain ⟨q, rfl⟩ := hb
    refine ⟨q, _, rfl, rfl, ⟨_, rfl⟩, rfl, fun Js hJs hne => ?_⟩
    cases hJs
    exact absurd rfl hne
  | @cons I n Is ns hI hIs ih =>
    obtain ⟨l, rfl, hlen, hl⟩ := hb
    have hlt : I - 1 < l.length := by omega
    have hget : l[I - 1]? = some l[I - 1] := List.getElem?_eq_getElem hlt
    obtain ⟨q, b', hq, hon, hb', hq', hother⟩ := ih (hl l[I - 1] (List.getElem_mem hlt))
    refine ⟨q, .tuple (l.set (I - 1) b'), ?_, ?_, ⟨_, rfl, by rw [List.length_set, hlen], fun b'' hb'' => ?_⟩, ?_,
      fun Js hJs hne => ?_⟩
    · simp only [lookup, hget]
      exact hq
    · have helement : element I (.tuple l) = .ok l[I - 1] := by
        rw [element, if_neg (by omega), hget]
      have hset : setelement I (.tuple l) b' = .ok (.tuple (l.set (I - 1) b')) := by
        rw [setelement, if_neg (by omega)]
      rw [onQueue, helement, bind_ok rfl, hon, bind_ok rfl]
      simp only [hset]
      rfl
    · rcases List.mem_or_eq_of_mem_set hb'' with hm | rfl
      · exact hl b'' hm
      · exact hb'
    · simp only [lookup, List.getElem?_set_self hlt]
      exact hq'
    · cases hJs with
      | @cons J _ Js _ hJ hJs =>
        simp only [lookup]
        by_cases hIJ : I = J
        · subst hIJ
          rw [List.getElem?_set_self hlt, hget]
          exact hother Js hJs fun he => hne (he ▸ rfl)
        · rw [List.getElem?_set_ne (by omega)]

/-! ## The indexes of the priorities -/

theorem inside_fields (ws : List Nat) (N : Nat) :
    Inside ((fields ws N).map (· + 1)) (ws.map fun w => 2 ^ w - 1) := by
  induction ws with
  | nil => exact .nil
  | cons w ws ih =>
    have hlt : N / 2 ^ ws.sum % 2 ^ w < 2 ^ w := Nat.mod_lt _ (Nat.two_pow_pos w)
    refine .cons ⟨Nat.le_add_left 1 _, ?_⟩ ih
    show N / 2 ^ ws.sum % 2 ^ w + 1 ≤ 2 ^ w - 1 + 1
    omega

theorem fields_inj (ws : List Nat) {N M : Nat} (h : fields ws N = fields ws M) :
    N % 2 ^ ws.sum = M % 2 ^ ws.sum := by
  induction ws with
  | nil => rw [List.sum_nil, pow_zero, Nat.mod_one, Nat.mod_one]
  | cons w ws ih =>
    obtain ⟨hw, hws⟩ := List.cons.inj h
    rw [List.sum_cons, Nat.add_comm, pow_add, Nat.mod_mul, Nat.mod_mul, ih hws, hw]

/-- The sizes of the tuples, and the indexes of each priority index. -/
structure Layers (Size : Nat) (ns : List Nat) (index : Nat → List Nat) : Prop where
  sizes : layerSizes Size = .ok ns
  indexes : ∀ i, layerIndexes Size i = .ok (index i)
  inside : ∀ i ≤ Size, Inside (index i) ns
  inj : ∀ i ≤ Size, ∀ j ≤ Size, index i = index j → i = j

theorem layers_of_fields (ws : List Nat) (hSize : Size < 2 ^ ws.sum)
    (hs : layerSizes Size = .ok (ws.map fun w => 2 ^ w - 1))
    (hi : ∀ i, layerIndexes Size i = .ok ((fields ws i).map (· + 1))) :
    Layers Size (ws.map fun w => 2 ^ w - 1) (fun i => (fields ws i).map (· + 1)) where
  sizes := hs
  indexes := hi
  inside i _ := inside_fields ws i
  inj i hi j hj h := by
    have hmod := fields_inj ws (List.map_injective_iff.mpr (fun a b hab => Nat.succ.inj hab) h)
    rwa [Nat.mod_eq_of_lt (by omega), Nat.mod_eq_of_lt (by omega)] at hmod

/-- For each number of priorities the indexes are inside the tuples, and no two priorities share a queue. -/
theorem exists_layers (hSize : Size ≤ 65535) : ∃ ns index, Layers Size ns index := by
  by_cases h : Size ≤ 127
  · refine ⟨[127], fun i => [i + 1], ?_, fun i => ?_, fun i hi => ?_, fun i _ j _ hij => ?_⟩
    · rw [layerSizes, if_pos h]
      rfl
    · rw [layerIndexes, if_pos h]
    · exact .cons ⟨by omega, by omega⟩ .nil
    · simpa using hij
  · obtain ⟨ws, hws, hs, hi⟩ : ∃ ws : List Nat, Size < 2 ^ ws.sum ∧
        layerSizes Size = .ok (ws.map fun w => 2 ^ w - 1) ∧
        ∀ i, layerIndexes Size i = .ok ((fields ws i).map (· + 1)) := by
      simp only [layerSizes, layerIndexes, if_neg h]
      by_cases h₁ : Size ≤ 255
      · exact ⟨[4, 4], lt_of_le_of_lt h₁ (by decide), (if_pos h₁).trans rfl, fun _ => if_pos h₁⟩
      simp only [if_neg h₁]
      by_cases h₂ : Size ≤ 511
      · exact ⟨[4, 5], lt_of_le_of_lt h₂ (by decide), (if_pos h₂).trans rfl, fun _ => if_pos h₂⟩
      simp only [if_neg h₂]
      by_cases h₃ : Size ≤ 1023
      · exact ⟨[3, 3, 4], lt_of_le_of_lt h₃ (by decide), (if_pos h₃).trans rfl, fun _ => if_pos h₃⟩
      simp only [if_neg h₃]
      by_cases h₄ : Size ≤ 2047
      · exact ⟨[3, 4, 4], lt_of_le_of_lt h₄ (by decide), (if_pos h₄).trans rfl, fun _ => if_pos h₄⟩
      simp only [if_neg h₄]
      by_cases h₅ : Size ≤ 4095
      · exact ⟨[4, 4, 4], lt_of_le_of_lt h₅ (by decide), (if_pos h₅).trans rfl, fun _ => if_pos h₅⟩
      simp only [if_neg h₅]
      by_cases h₆ : Size ≤ 8191
      · exact ⟨[4, 4, 5], lt_of_le_of_lt h₆ (by decide), (if_pos h₆).trans rfl, fun _ => if_pos h₆⟩
      simp only [if_neg h₆]
      by_cases h₇ : Size ≤ 16383
      · exact ⟨[4, 5, 5], lt_of_le_of_lt h₇ (by decide), (if_pos h₇).trans rfl, fun _ => if_pos h₇⟩
      simp only [if_neg h₇]
      by_cases h₈ : Size ≤ 32767
      · exact ⟨[3, 4, 4, 4], lt_of_le_of_lt h₈ (by decide), (if_pos h₈).trans rfl, fun _ => if_pos h₈⟩
      simp only [if_neg h₈]
      exact ⟨[4, 4, 4, 4], lt_of_le_of_lt hSize (by decide), (if_pos hSize).trans rfl, fun _ => if_pos hSize⟩
    exact ⟨_, _, layers_of_fields ws hws hs hi⟩

/-! ## The contents -/

/-- The elements of each priority index. -/
def binContents (Size : Nat) (B : Bins α) : PriorityFamily (Fin (Size + 1)) α := fun i =>
  match layerIndexes Size i with
  | .ok Is => ((lookup Is B).map TwoListQueue.toList).getD []
  | .error _ => []

def contents (Q : PQueue3 Size α) : PriorityFamily (Fin (Size + 1)) α := binContents Size Q.bins

variable {ns : List Nat} {index : Nat → List Nat} {B : Bins α} {i I : Fin (Size + 1)}

theorem Layers.binContents (hL : Layers Size ns index) (B : Bins α) (i : Fin (Size + 1)) :
    binContents Size B i = ((lookup (index i) B).map TwoListQueue.toList).getD [] := by
  rw [PQueue3.binContents, hL.indexes]

theorem Layers.inside_fin (hL : Layers Size ns index) (i : Fin (Size + 1)) : Inside (index i) ns :=
  hL.inside i (by omega)

theorem Layers.binContents_create (hL : Layers Size ns index) :
    PQueue3.binContents Size (create ns : Bins α) = empty := by
  funext i
  rw [hL.binContents, lookup_create (hL.inside_fin i)]
  rfl

/-- What is done at the indexes of a priority is done to its list. -/
theorem Layers.onQueue (hL : Layers Size ns index) (hB : Shaped ns B)
    (f : TwoListQueue α → β × TwoListQueue α) (i : Fin (Size + 1)) :
    ∃ q B', q.toList = PQueue3.binContents Size B i ∧ PQueue3.onQueue f (index i) B = .ok ((f q).1, B') ∧
      Shaped ns B' ∧ PQueue3.binContents Size B' = (PQueue3.binContents Size B).set i (f q).2.toList := by
  obtain ⟨q, B', hq, hon, hB', hq', hother⟩ := onQueue_spec f (hL.inside_fin i) hB
  refine ⟨q, B', ?_, hon, hB', ?_⟩
  · rw [hL.binContents, hq]
    rfl
  · funext j
    by_cases hj : j = i
    · rw [hj, set_self, hL.binContents, hq']
      rfl
    · have hne : index j ≠ index i := fun he => hj (Fin.ext (hL.inj j (by omega) i (by omega) he))
      rw [set_of_ne _ _ hj, hL.binContents, hL.binContents, hother _ (hL.inside_fin j) hne]

theorem Layers.inQueue (hL : Layers Size ns index) (hB : Shaped ns B) (X : α) (i : Fin (Size + 1)) :
    ∃ B', PQueue3.inQueue (index i) X B = .ok B' ∧ Shaped ns B' ∧
      PQueue3.binContents Size B' = (PQueue3.binContents Size B).enq i X := by
  obtain ⟨q, B', hq, hon, hB', hc⟩ := hL.onQueue hB (fun q => ((), q.in X)) i
  refine ⟨B', ?_, hB', ?_⟩
  · rw [PQueue3.inQueue, hon]
    rfl
  · rw [hc, enq, ← hq, TwoListQueue.toList_in]

theorem Layers.outQueue (hL : Layers Size ns index) (hB : Shaped ns B) (i : Fin (Size + 1)) :
    ∃ B', PQueue3.outQueue (index i) B = .ok (((PQueue3.binContents Size B).deqAt i).1, B') ∧ Shaped ns B' ∧
      PQueue3.binContents Size B' = ((PQueue3.binContents Size B).deqAt i).2 := by
  obtain ⟨q, B', hq, hon, hB', hc⟩ := hL.onQueue hB TwoListQueue.out i
  refine ⟨B', ?_, hB', ?_⟩
  · rw [PQueue3.outQueue, hon, deqAt, ← hq, TwoListQueue.out_fst]
  · rw [hc, deqAt, ← hq, TwoListQueue.toList_out]

/-! ## What the operations do -/

/-- What a scan leaves: the first element was taken, and nothing is below the new index. -/
structure Scanned (ns : List Nat) (B : Bins α) (o : Option (α × Fin (Size + 1))) (NewI : Option (Fin (Size + 1)))
    (B' : Bins α) : Prop where
  deq : Deq (binContents Size B) o (binContents Size B')
  shaped : Shaped ns B'
  empty : NewI = none → ∀ i, binContents Size B' i = []
  below : ∀ I, NewI = some I → (binContents Size B').EmptyBelow I

theorem poutCheck_found {Offset : Nat} {B' : Bins α} {x : α} {l : List α} (hB' : Shaped ns B')
    (hl : binContents Size B I = x :: l) (hbelow : (binContents Size B).EmptyBelow I)
    (hout : outQueue (index I) B = .ok (((binContents Size B).deqAt I).1, B'))
    (hc : binContents Size B' = ((binContents Size B).deqAt I).2) :
    ∃ o NewI B', (outQueue (index I) B >>= poutCheck Offset I) =
        .ok (o.map fun y => (y.1, (y.2.val : Int) - Offset), NewI, B') ∧ Scanned ns B o NewI B' := by
  simp only [deqAt, hl, List.head?_cons, List.tail_cons] at hout hc
  refine ⟨some (x, I), some I, B', ?_, ⟨?_, hB', fun h => absurd h (Option.some_ne_none I), fun I' hI' => ?_⟩⟩
  · rw [hout, bind_ok rfl, poutCheck]
    rfl
  · rw [hc]
    exact .some hl hbelow
  · obtain rfl := Option.some.inj hI'
    intro i hi
    rw [hc, set_of_ne _ _ hi.ne, hbelow i hi]

theorem poutCheck_next (hL : Layers Size ns index) (Offset : Nat) (hI : I.val ≠ Size) (B : Bins α) :
    poutCheck Offset I (none, B) =
      outQueue (index (I.val + 1)) B >>= poutCheck Offset ⟨I.val + 1, by omega⟩ := by
  rw [poutCheck, dif_neg hI, hL.indexes]
  rfl

/-- From an index with nothing below it, the scan finds the first element; the
induction is on how many indexes are left. -/
theorem poutCheck_spec (hL : Layers Size ns index) (Offset n : Nat) {I : Fin (Size + 1)} {B : Bins α}
    (hn : Size - I.val = n) (hB : Shaped ns B) (hbelow : (binContents Size B).EmptyBelow I) :
    ∃ o NewI B', (outQueue (index I) B >>= poutCheck Offset I) =
        .ok (o.map fun y => (y.1, (y.2.val : Int) - Offset), NewI, B') ∧ Scanned ns B o NewI B' := by
  induction n using Nat.strong_induction_on generalizing I B with
  | _ n ih =>
    obtain ⟨B', hout, hB', hc⟩ := hL.outQueue hB I
    cases hl : binContents Size B I with
    | cons x l => exact poutCheck_found hB' hl hbelow hout hc
    | nil =>
      simp only [deqAt_of_nil hl] at hout hc
      have hle : ∀ i, i.val ≤ I.val → binContents Size B i = [] := fun i hi => by
        rcases eq_or_ne i I with rfl | hne
        · exact hl
        · exact hbelow i (lt_of_le_of_ne (Fin.le_def.mpr hi) hne)
      by_cases hI : I.val = Size
      · have hnil : ∀ i, binContents Size B i = [] := fun i => hle i (by omega)
        refine ⟨none, none, B', ?_, by rw [hc]; exact .none hnil, hB', fun _ => hc ▸ hnil,
          fun I h => absurd h.symm (Option.some_ne_none I)⟩
        rw [hout, bind_ok rfl, poutCheck, dif_pos hI]
        rfl
      · have hbelow' : (binContents Size B').EmptyBelow ⟨I.val + 1, by omega⟩ := fun i hi => by
          rw [hc]
          exact hle i (Nat.le_of_lt_succ (Fin.lt_def.mp hi))
        obtain ⟨o, NewI, B'', hscan, hs⟩ := ih (Size - (I.val + 1)) (by omega) rfl hB' hbelow'
        refine ⟨o, NewI, B'', ?_, hc ▸ hs.deq, hs.shaped, hs.empty, hs.below⟩
        rw [hout, bind_ok rfl, poutCheck_next hL Offset hI]
        exact hscan

theorem outCheck_eq (Offset : Nat) (I : Fin (Size + 1)) (x : Option α × Bins α) :
    outCheck I x = (poutCheck Offset I x).map fun y => (y.1.map Prod.fst, y.2) := by
  fun_induction outCheck I x with
  | case1 I Value B =>
    rw [poutCheck]
    rfl
  | case2 I B hI =>
    rw [poutCheck, dif_pos hI]
    rfl
  | case3 I B hI ih =>
    rw [poutCheck, dif_neg hI]
    cases layerIndexes Size (I.val + 1) with
    | error e => rfl
    | ok Is =>
      cases hout : outQueue Is B with
      | error e =>
        simp only [bind_ok rfl, hout]
        rfl
      | ok x =>
        simp only [bind_ok rfl, hout]
        exact ih x

theorem out1_eq (Q : PQueue3 Size α) : out1 Q = (pout Q).map fun y => (y.1.map Prod.fst, y.2) := by
  rw [out1, pout]
  split
  · rfl
  · rename_i I hI
    cases layerIndexes Size I with
    | error e => rfl
    | ok Is =>
      rw [bind_ok rfl, bind_ok rfl]
      cases outQueue Is Q.bins with
      | error e => rfl
      | ok x =>
        rw [bind_ok rfl, bind_ok rfl, outCheck_eq Q.offset]
        cases poutCheck Q.offset I x <;> rfl

/-- The tuples are those of the layers, and nothing is below the current index. -/
structure Sound (Offset : Nat) (ns : List Nat) (Q : PQueue3 Size α) : Prop where
  offset : Q.offset = Offset
  shaped : Shaped ns Q.bins
  empty : Q.current = none → ∀ i, Q.contents i = []
  below : ∀ I, Q.current = some I → Q.contents.EmptyBelow I

variable {Q : PQueue3 Size α} {Offset : Nat}

theorem Sound.priorityIndex (h : Q.Sound Offset ns) (i : Fin (Size + 1)) :
    Q.priorityIndex ((i.val : Int) - Offset) = .ok i := by
  have hi : ¬ ((i.val : Int) - Offset + Q.offset < 0 ∨ (i.val : Int) - Offset + Q.offset > Size) := by
    rw [h.offset]
    omega
  rw [PQueue3.priorityIndex, dif_neg hi]
  refine congrArg _ (Fin.ext ?_)
  show ((i.val : Int) - Offset + Q.offset).toNat = i.val
  rw [h.offset]
  omega

theorem in3_spec (hL : Layers Size ns index) (h : Q.Sound Offset ns) (X : α) (i : Fin (Size + 1)) :
    ∃ Q', in3 X ((i.val : Int) - Offset) Q = .ok Q' ∧ Q'.contents = Q.contents.enq i X ∧ Q'.Sound Offset ns := by
  obtain ⟨B', hin, hB', hc⟩ := hL.inQueue h.shaped X i
  rw [in3, h.priorityIndex, bind_ok rfl, hL.indexes, bind_ok rfl, hin, bind_ok rfl]
  -- a priority below all that have elements becomes the current one
  have hfirst : Q.contents.EmptyBelow i →
      ({ Q with current := some i, bins := B' } : PQueue3 Size α).Sound Offset ns := fun hb =>
    ⟨h.offset, hB', fun he => absurd he (Option.some_ne_none i), fun I hI => by
      obtain rfl := Option.some.inj hI
      exact (congrArg (EmptyBelow · i) hc).mpr (hb.enq (le_refl i) X)⟩
  split
  · rename_i hcur
    exact ⟨_, rfl, hc, hfirst fun j _ => h.empty hcur j⟩
  · rename_i I hcur
    split
    · rename_i hlt
      exact ⟨_, rfl, hc, hfirst fun j hj => h.below I hcur j (hj.trans hlt)⟩
    · rename_i hlt
      refine ⟨_, rfl, hc, h.offset, hB', fun he => ?_, fun I' hI' => ?_⟩
      · exact absurd (hcur.symm.trans he) (Option.some_ne_none I)
      · obtain rfl := Option.some.inj (hcur.symm.trans hI')
        exact (congrArg (EmptyBelow · I) hc).mpr ((h.below I hcur).enq (not_lt.mp hlt) X)

theorem pout_spec (hL : Layers Size ns index) (h : Q.Sound Offset ns) :
    ∃ o Q', pout Q = .ok (o.map fun y => (y.1, (y.2.val : Int) - Offset), Q') ∧ Deq Q.contents o Q'.contents ∧
      Q'.Sound Offset ns := by
  rw [pout]
  split
  · rename_i hcur
    exact ⟨none, Q, rfl, .none (h.empty hcur), h⟩
  · rename_i I hcur
    obtain ⟨o, NewI, B', hscan, hs⟩ := poutCheck_spec hL Offset _ rfl h.shaped (h.below I hcur)
    refine ⟨o, { Q with current := NewI, bins := B' }, ?_, hs.deq, h.offset, hs.shaped, hs.empty, hs.below⟩
    rw [hL.indexes, bind_ok rfl, h.offset]
    cases hout : outQueue (index I) Q.bins with
    | error e =>
      rw [hout] at hscan
      cases hscan
    | ok x =>
      rw [hout, bind_ok rfl] at hscan
      rw [bind_ok rfl, hscan]
      rfl

theorem out2_spec (hL : Layers Size ns index) (h : Q.Sound Offset ns) (i : Fin (Size + 1)) :
    ∃ Q', out2 ((i.val : Int) - Offset) Q = .ok ((Q.contents.deqAt i).1, Q') ∧
      Q'.contents = (Q.contents.deqAt i).2 ∧ Q'.Sound Offset ns := by
  rw [out2, h.priorityIndex, bind_ok rfl]
  split
  · rename_i hcur
    rw [deqAt_of_nil (h.empty hcur i)]
    exact ⟨Q, rfl, rfl, h⟩
  · rename_i I hcur
    obtain ⟨B', hout, hB', hc⟩ := hL.outQueue h.shaped i
    refine ⟨{ Q with bins := B' }, ?_, hc, h.offset, hB', fun he => ?_, fun I' hI' => ?_⟩
    · rw [hL.indexes, bind_ok rfl, hout]
      rfl
    · exact absurd (hcur.symm.trans he) (Option.some_ne_none I)
    · exact (congrArg (EmptyBelow · I') hc).mpr ((h.below I' hI').deqAt i)

/-- `new/1` returns an empty queue. -/
theorem new_spec (o : Options) (hL : Layers o.priorities ns index) :
    ∃ Q : PQueue3 o.priorities α, new o = .ok Q ∧ Q.contents = empty ∧ Q.Sound (offsetOf o) ns := by
  refine ⟨⟨offsetOf o, none, create ns⟩, ?_, hL.binContents_create, rfl, shaped_create ns, fun _ i => ?_,
    fun I h => absurd h.symm (Option.some_ne_none I)⟩
  · rw [new, hL.sizes]
    rfl
  · exact congrFun hL.binContents_create i

/-- `pqueue3` is a priority queue. -/
def operations (Size : Nat) (α : Type) : PriorityQueue Exn (PQueue3 Size α) Int α where
  enq₀ := in2
  enq := in3
  deq := out1
  deqAt := out2
  deqWith := pout

theorem implements (hL : Layers Size ns index) (Offset : Nat) :
    (operations Size α).Implements (fun i : Fin (Size + 1) => (i.val : Int) - Offset) 0 (Sound Offset ns) contents where
  enq₀ _ := rfl
  enq X i h := in3_spec hL h X i
  deq _ := out1_eq _
  deqAt i h := out2_spec hL h i
  deqWith h := pout_spec hL h

end PQueue3

end CloudI
