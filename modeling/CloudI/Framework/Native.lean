import CloudI.Framework.Bytes

/-!
# Integers in the native byte order

Integers in a fixed number of bytes, in the byte order of the machine. An integer that does not fit is cut to
its low bytes (`unsigned_bytes`, `signed_bytes`).
-/

namespace CloudI

inductive ByteOrder where
  | big
  | little
deriving DecidableEq

namespace ByteOrder

/-- Bytes that are most significant first, in this order, and back. -/
def order (o : ByteOrder) (l : List UInt8) : List UInt8 :=
  match o with
  | big => l
  | little => l.reverse

/-- The low `k` bytes of an integer. -/
def bytes (o : ByteOrder) (k : Nat) (n : Int) : List UInt8 := o.order (be k (n % 256 ^ k).toNat)

def unsigned (o : ByteOrder) (l : List UInt8) : Int := ofBe (o.order l)

/-- The number in two's complement. -/
def signed (o : ByteOrder) (l : List UInt8) : Int :=
  if 2 * o.unsigned l < 256 ^ l.length then o.unsigned l else o.unsigned l - 256 ^ l.length

variable (o : ByteOrder) {k : Nat} {n : Int}

@[simp] theorem length_order (l : List UInt8) : (o.order l).length = l.length := by
  cases o with
  | big => rfl
  | little => exact List.length_reverse

@[simp] theorem order_order (l : List UInt8) : o.order (o.order l) = l := by
  cases o with
  | big => rfl
  | little => exact List.reverse_reverse l

@[simp] theorem length_bytes (k : Nat) (n : Int) : (o.bytes k n).length = k := by
  rw [bytes, length_order, length_be]

theorem unsigned_bytes (k : Nat) (n : Int) : o.unsigned (o.bytes k n) = n % 256 ^ k := by
  have hpos : (0 : Int) < 256 ^ k := Int.pow_pos (by decide)
  have hnonneg := Int.emod_nonneg n (Int.ne_of_gt hpos)
  have hlt := Int.emod_lt_of_pos n hpos
  rw [unsigned, bytes, order_order, ofBe_be_of_lt, Int.toNat_of_nonneg hnonneg]
  have hcast : ((n % 256 ^ k).toNat : Int) < ((256 ^ k : Nat) : Int) := by
    rw [Int.toNat_of_nonneg hnonneg, Int.natCast_pow]
    exact hlt
  exact Int.ofNat_lt.mp hcast

/-- A number of one byte in two's complement. -/
theorem signed_byte (n : Int) : o.signed (o.bytes 1 n) = if 2 * (n % 256) < 256 then n % 256 else n % 256 - 256 := by
  rw [signed, unsigned_bytes, length_bytes, Int.pow_one]

theorem signed_byte_eq_iff : o.signed (o.bytes 1 n) = n ↔ -128 ≤ n ∧ n ≤ 127 := by
  rw [signed_byte]
  split <;> omega

end ByteOrder

end CloudI
