import CloudI.Framework.Bytes

/-!
# Messages in a stream of bytes

A stream has messages one after another, each after its length in four bytes (`framed`). It is read in
fragments, so that what was read so far ends at one of the `bounds` of the fragments.
-/

namespace CloudI

/-- A message after its length. -/
def frame (message : List UInt8) : List UInt8 := be 4 message.length ++ message

/-- The stream of messages. -/
def framed : List (List UInt8) → List UInt8
  | [] => []
  | m :: ms => frame m ++ framed ms

@[simp] theorem length_frame (m : List UInt8) : (frame m).length = 4 + m.length := by
  rw [frame, List.length_append, length_be]

theorem frame_append (m rest : List UInt8) : frame m ++ rest = be 4 m.length ++ (m ++ rest) := List.append_assoc _ _ _

theorem take_frame (m rest : List UInt8) : (frame m ++ rest).take 4 = be 4 m.length := by
  rw [frame_append, List.take_left' (length_be 4 _)]

theorem drop_frame (m rest : List UInt8) : (frame m ++ rest).drop 4 = m ++ rest := by
  rw [frame_append, List.drop_left' (length_be 4 _)]

/-- Where what was read of a stream can end: after what is in the buffer, and after each fragment. -/
def bounds : Nat → List (List UInt8) → List Nat
  | n, [] => [n]
  | n, f :: fs => n :: bounds (n + f.length) fs

theorem self_mem_bounds (n : Nat) (fs : List (List UInt8)) : n ∈ bounds n fs := by
  cases fs <;> exact List.mem_cons_self

theorem le_of_mem_bounds {n b : Nat} {fs : List (List UInt8)} (h : b ∈ bounds n fs) : n ≤ b := by
  induction fs generalizing n with
  | nil => exact Nat.le_of_eq (List.mem_singleton.mp h).symm
  | cons f fs ih =>
    rcases List.mem_cons.mp h with rfl | h
    · exact Nat.le_refl _
    · exact Nat.le_trans (Nat.le_add_right _ _) (ih h)

/-- What was read can be counted from another place of the stream. -/
theorem mem_bounds_add {n k b : Nat} {fs : List (List UInt8)} : b + k ∈ bounds (n + k) fs ↔ b ∈ bounds n fs := by
  induction fs generalizing n with
  | nil => simp only [bounds, List.mem_singleton, Nat.add_right_cancel_iff]
  | cons f fs ih =>
    simp only [bounds, List.mem_cons, Nat.add_right_cancel_iff]
    rw [show n + k + f.length = n + f.length + k by omega, ih]

end CloudI
