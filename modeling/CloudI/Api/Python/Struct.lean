import CloudI.Framework.Native
import CloudI.Framework.Slices

/-!
# `struct.unpack` of Python

Formats that start with `=`: native byte order, standard sizes, no alignment. `unpack` gives one value for each
character of the format (`Values`), and needs exactly as many bytes as the format has. Fields are unpacked one
after another (`unpack_cons`).
-/

namespace CloudI.Api.Python

open Slices (At)

/-- What ends a call without a result. -/
inductive Fault where
  | structError
  | unicodeDecodeError
  | assertionError
  | messageDecodingException
  | terminateException (timeout : Int)
  | parseException
deriving DecidableEq

/-- A character of a format: `%ds`, `c`, `I`, `b` or `B`. -/
inductive Format where
  | s (n : Int)
  | c
  | I
  | b
  | B

namespace Format

def size : Format → Nat
  | s n => n.toNat
  | c => 1
  | I => 4
  | b => 1
  | B => 1

/-- `%ds` of a negative number is no format. -/
def valid : Format → Bool
  | s n => 0 ≤ n
  | _ => true

/-- The type of the value: a string of bytes or a number. -/
@[reducible] def Value : Format → Type
  | s _ | c => List UInt8
  | I | b | B => Int

def read (o : ByteOrder) (l : List UInt8) : (f : Format) → f.Value
  | s _ | c => l
  | I | B => o.unsigned l
  | b => o.signed l

end Format

@[reducible] def Values : List Format → Type
  | [] => Unit
  | f :: fs => f.Value × Values fs

def unpackFields (o : ByteOrder) : (fs : List Format) → List UInt8 → Values fs
  | [], _ => ()
  | f :: fs, l => (f.read o (l.take f.size), unpackFields o fs (l.drop f.size))

def unpack (o : ByteOrder) (fs : List Format) (l : List UInt8) : Except Fault (Values fs) :=
  if fs.all Format.valid ∧ l.length = (fs.map Format.size).sum then .ok (unpackFields o fs l)
  else .error .structError

/-- `data[i:j]` -/
def sliceTo (data : List UInt8) (i j : Nat) : List UInt8 := (data.take j).drop i

/-- `data.decode('utf-8')` -/
def decodeUtf8 (data : List UInt8) : Except Fault String :=
  match String.fromUTF8? ⟨data.toArray⟩ with
  | some s => .ok s
  | none => .error .unicodeDecodeError

section

variable {o : ByteOrder} {data mid rest : List UInt8} {i j : Nat}

theorem sliceTo_at (h : At data i (mid ++ rest)) (hj : j = i + mid.length) : sliceTo data i j = mid := by
  rw [sliceTo, hj, List.drop_take, Nat.add_sub_cancel_left, h.take]

theorem unpack_nil : unpack o [] [] = .ok () := rfl

theorem unpack_cons {f : Format} {fs : List Format} {a l : List UInt8} {vs : Values fs} (hv : f.valid = true)
    (ha : a.length = f.size) (h : unpack o fs l = .ok vs) : unpack o (f :: fs) (a ++ l) = .ok (f.read o a, vs) := by
  unfold unpack at h
  split at h
  case isFalse => simp only [reduceCtorEq] at h
  case isTrue hc =>
    have hlen : (a ++ l).length = ((f :: fs).map Format.size).sum := by
      rw [List.length_append, ha, hc.2, List.map_cons, List.sum_cons]
    have hall : (f :: fs).all Format.valid = true := by rw [List.all_cons, hv, hc.1]; rfl
    rw [unpack, if_pos ⟨hall, hlen⟩, unpackFields, List.take_left' ha, List.drop_left' ha, Except.ok.inj h]

variable {fs : List Format} {vs : Values fs} {l : List UInt8} (h : unpack o fs l = .ok vs)
include h

theorem unpack_s (a : List UInt8) : unpack o (.s a.length :: fs) (a ++ l) = .ok (a, vs) :=
  unpack_cons (f := .s a.length) (decide_eq_true (Int.natCast_nonneg a.length)) (Int.toNat_natCast a.length).symm h

theorem unpack_c (b : UInt8) : unpack o (.c :: fs) ([b] ++ l) = .ok ([b], vs) := unpack_cons rfl rfl h

theorem unpack_I (n : Int) : unpack o (.I :: fs) (o.bytes 4 n ++ l) = .ok (n % 4294967296, vs) := by
  rw [unpack_cons rfl (o.length_bytes 4 n) h, Format.read, o.unsigned_bytes]
  rfl

theorem unpack_b (n : Int) : unpack o (.b :: fs) (o.bytes 1 n ++ l) = .ok (o.signed (o.bytes 1 n), vs) :=
  unpack_cons rfl (o.length_bytes 1 n) h

theorem unpack_B (n : Int) : unpack o (.B :: fs) (o.bytes 1 n ++ l) = .ok (n % 256, vs) := by
  rw [unpack_cons rfl (o.length_bytes 1 n) h, Format.read, o.unsigned_bytes]
  rfl

omit h

/-- The number of a message, or a count, on its own. -/
theorem unpack_number (n : Int) : unpack o [.I] (o.bytes 4 n) = .ok (n % 4294967296, ()) := by
  rw [← List.append_nil (o.bytes 4 n), unpack_I unpack_nil]

end

end CloudI.Api.Python
