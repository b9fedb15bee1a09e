import CloudI.Api.Terms
import CloudI.Framework.Bytes

/-!
# The lengths in external terms

Which bytes of the data the lengths of an external term say that it has, with
the tag before index `i`. The terms in a term have their own.
-/

namespace CloudI.Api

theorem ofByte_eq_some {b : UInt8} {tag : Tag} (h : Tag.ofByte b = some tag) : b = tag.byte := by
  have hb := List.find?_some h
  exact (eq_of_beq hb).symm

/-- The number in `k` bytes at an index. -/
def number (k i : Nat) (data : List UInt8) : Nat := ofBe ((data.drop i).take k)

/-- The data starts as a term does. -/
def Started (data : List UInt8) : Prop := 1 < data.length ∧ data.head? = some tagVersion

/-- What decoders do not agree on: where the length of a small node is read,
from the index of its tag on, and where the bytes of a `NEW_FUN_EXT` start,
from its length on. -/
structure Layout where
  smallNode : Nat
  newFun : Nat

namespace Layout

variable (L : Layout)

/-- The name of a node whose tag is at an index: its start and its length. -/
def node (a : Nat) (data : List UInt8) : Nat × Nat :=
  match data[a]?.bind Tag.ofByte with
  | some .atomExt | some .atomUtf8Ext => (a + 3, number 2 (a + 1) data)
  | some .smallAtomExt | some .smallAtomUtf8Ext => (a + 2, number 1 (a + L.smallNode) data)
  | _ => (a + 1, 1)

/-- The index behind a node. -/
def nodeEnd (a : Nat) (data : List UInt8) : Nat := (L.node a data).1 + (L.node a data).2

theorem lt_nodeEnd (a : Nat) (data : List UInt8) : a < L.nodeEnd a data := by
  unfold nodeEnd node
  split <;> simp only <;> omega

variable {L} in
theorem node_le {a j : Nat} {data : List UInt8} (h : L.nodeEnd a data ≤ j) :
    (L.node a data).1 + (L.node a data).2 ≤ j := h

theorem node_le_nodeEnd (a : Nat) (data : List UInt8) :
    (L.node a data).1 + (L.node a data).2 ≤ L.nodeEnd a data := node_le (Nat.le_refl _)

/-- The parts of a term that have a length: their starts and their lengths. -/
def lengths (tag : Tag) (i : Nat) (data : List UInt8) : List (Nat × Nat) :=
  match tag with
  | .atomExt | .atomUtf8Ext | .stringExt => [(i + 2, number 2 i data)]
  | .smallAtomExt | .smallAtomUtf8Ext => [(i + 1, number 1 i data)]
  | .binaryExt => [(i + 4, number 4 i data)]
  | .bitBinaryExt => [(i + 5, number 4 i data)]
  | .smallBigExt => [(i + 2, number 1 i data)]
  | .largeBigExt => [(i + 5, number 4 i data)]
  | .newFunExt => [(i + L.newFun, number 4 i data)]
  | .referenceExt | .portExt | .pidExt => [L.node i data]
  | .newReferenceExt => [L.node (i + 2) data, (L.nodeEnd (i + 2) data + 1, 4 * number 2 i data)]
  | .exportExt => [L.node i data, L.node (L.nodeEnd i data) data]
  | .funExt => [L.node (i + 5) data, L.node (L.nodeEnd (i + 5) data + 9) data]
  | _ => []

end Layout

end CloudI.Api
