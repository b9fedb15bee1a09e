import Mathlib.Data.List.Induction
import Mathlib.Data.Nat.Digits.Lemmas
import Mathlib.Tactic.Ring

/-!
# Numbers as bytes

Numbers in a fixed number of bytes, most significant byte first (`be`, read back by `ofBe`), and numbers
in as many bytes as they need (`minimal`). A `Reader` reads a list of bytes in order; `Reader.Rest` says
what it has left, and each way to read is stated by it.
-/

namespace CloudI

/-- The number in `k` bytes, most significant byte first. -/
def be : Nat → Nat → List UInt8
  | 0, _ => []
  | k + 1, n => be k (n / 256) ++ [UInt8.ofNat n]

attribute [grind =] be

/-- The number that bytes stand for, most significant byte first. -/
def ofBe (l : List UInt8) : Nat := l.foldl (fun n b => n * 256 + b.toNat) 0

@[simp] theorem length_be (k n : Nat) : (be k n).length = k := by
  induction k generalizing n with
  | zero => rfl
  | succ k ih => rw [be, List.length_append, ih]; rfl

theorem ofBe_append (l : List UInt8) (b : UInt8) : ofBe (l ++ [b]) = ofBe l * 256 + b.toNat := by
  simp only [ofBe, List.foldl_append, List.foldl_cons, List.foldl_nil]

theorem ofBe_be (k n : Nat) : ofBe (be k n) = n % 256 ^ k := by
  induction k generalizing n with
  | zero => rw [Nat.pow_zero, Nat.mod_one]; rfl
  | succ k ih =>
    have hb : (UInt8.ofNat n).toNat = n % 256 := UInt8.toNat_ofNat'
    rw [be, ofBe_append, ih, hb, Nat.pow_succ, Nat.mul_comm (256 ^ k), Nat.mod_mul]
    ring

theorem ofBe_be_of_lt {k n : Nat} (h : n < 256 ^ k) : ofBe (be k n) = n := by
  rw [ofBe_be, Nat.mod_eq_of_lt h]

theorem ofBe_lt (l : List UInt8) : ofBe l < 256 ^ l.length := by
  induction l using List.reverseRecOn with
  | nil => decide
  | append_singleton l b ih =>
    have hb : b.toNat < 256 := b.toNat_lt
    rw [ofBe_append, List.length_append, List.length_singleton, Nat.pow_succ]
    omega

theorem be_ofBe (l : List UInt8) : be l.length (ofBe l) = l := by
  induction l using List.reverseRecOn with
  | nil => rfl
  | append_singleton l b ih =>
    have hb : b.toNat < 256 := b.toNat_lt
    have hdiv : (ofBe l * 256 + b.toNat) / 256 = ofBe l := by omega
    have hmod : UInt8.ofNat (ofBe l * 256 + b.toNat) = b := by
      apply UInt8.toNat_inj.mp
      rw [UInt8.toNat_ofNat']
      omega
    rw [ofBe_append, List.length_append, List.length_singleton, be, hdiv, ih, hmod]

theorem take_be (k d n : Nat) : (be (k + d) n).take k = be k (n / 256 ^ d) := by
  induction d generalizing n with
  | zero => rw [Nat.add_zero, Nat.pow_zero, Nat.div_one, List.take_of_length_le (Nat.le_of_eq (length_be k n))]
  | succ d ih =>
    rw [← Nat.add_assoc, be, List.take_append_of_le_length (by rw [length_be]; omega), ih, Nat.div_div_eq_div_mul,
      Nat.pow_succ']

theorem ofBe_zeros (d : Nat) (l : List UInt8) : ofBe (List.replicate d 0 ++ l) = ofBe l := by
  induction d with
  | zero => rfl
  | succ d ih => rw [List.replicate_succ, List.cons_append, ← ih]; rfl

theorem ofBe_append_zeros (d : Nat) (l : List UInt8) : ofBe (l ++ List.replicate d 0) = ofBe l * 256 ^ d := by
  induction d with
  | zero => rw [List.replicate_zero, List.append_nil, Nat.pow_zero, Nat.mul_one]
  | succ d ih =>
    rw [List.replicate_succ', ← List.append_assoc, ofBe_append, ih, Nat.pow_succ, ← Nat.mul_assoc]
    exact Nat.add_zero _

/-- The bytes of a number, least significant byte first and no more than it needs. -/
def minimal (n : Nat) : List UInt8 := (Nat.digits 256 n).map UInt8.ofNat

theorem ofBe_reverse (l : List UInt8) : ofBe l.reverse = Nat.ofDigits 256 (l.map UInt8.toNat) := by
  induction l with
  | nil => rfl
  | cons b l ih => rw [List.reverse_cons, ofBe_append, ih, List.map_cons, Nat.ofDigits_cons]; ring

theorem ofBe_minimal (n : Nat) : ofBe (minimal n).reverse = n := by
  have hmap : (minimal n).map UInt8.toNat = Nat.digits 256 n := by
    rw [minimal, List.map_map]
    conv_rhs => rw [← List.map_id (Nat.digits 256 n)]
    refine List.map_congr_left fun d hd => ?_
    have hlt : d < 256 := Nat.digits_lt_base (by decide) hd
    show (UInt8.ofNat d).toNat = d
    rw [UInt8.toNat_ofNat', Nat.mod_eq_of_lt hlt]
  rw [ofBe_reverse, hmap, Nat.ofDigits_digits]

theorem minimal_length_le {n k : Nat} (h : n < 256 ^ k) : (minimal n).length ≤ k := by
  rw [minimal, List.length_map]
  exact (Nat.digits_length_le_iff (by decide) n).mpr h

/-! ## Reading -/

/-- Bytes, and how many of them were read. -/
structure Reader where
  data : List UInt8
  pos : Nat

/-- What is left of the bytes from position `i`, where the reader is. -/
structure Reader.Rest (r : Reader) (i : Nat) (bytes : List UInt8) : Prop where
  pos : r.pos = i
  le : i ≤ r.data.length
  drop : r.data.drop i = bytes

namespace Reader

/-- Skip bytes, also past the end. -/
def seek (r : Reader) (n : Nat) : Reader := { r with pos := r.pos + n }

def len (r : Reader) : Nat := r.data.length - r.pos

@[simp] theorem seek_seek (r : Reader) (m n : Nat) : (r.seek m).seek n = r.seek (m + n) := by
  simp only [seek, Nat.add_assoc]

theorem rest_start (data : List UInt8) : Rest ⟨data, 0⟩ 0 data := ⟨rfl, Nat.zero_le _, rfl⟩

variable {r : Reader} {i : Nat} {bytes l : List UInt8}

theorem Rest.length (h : r.Rest i bytes) : r.data.length = i + bytes.length := by
  have hlen := congrArg List.length h.drop
  have hle := h.le
  rw [List.length_drop] at hlen
  omega

theorem Rest.seek (h : r.Rest i (l ++ bytes)) : (r.seek l.length).Rest (i + l.length) bytes := by
  refine ⟨congrArg (· + l.length) h.pos, ?_, ?_⟩
  · have hlen := h.length
    rw [List.length_append] at hlen
    exact hlen ▸ (by omega)
  · show r.data.drop (i + l.length) = bytes
    rw [← List.drop_drop, h.drop, List.drop_left]

theorem Rest.tail {b : UInt8} (h : r.Rest i (b :: bytes)) : (r.seek 1).Rest (i + 1) bytes :=
  Rest.seek (l := [b]) h

end Reader

end CloudI
