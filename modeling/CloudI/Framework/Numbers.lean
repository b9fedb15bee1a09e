import Mathlib.Data.Rat.Floor
import CloudI.Framework.Exn

/-!
# Numbers

The numbers of Erlang are integers and floats. `FloatArithmetic` has what is
used of the floats of a machine: each is a rational number, and the result of
an operation is the float that its exact result is rounded to, unless it
overflows. Small integers are floats.
-/

namespace CloudI

/-- The floats of a machine. -/
structure FloatArithmetic (F : Type) where
  value : F → ℚ
  /-- the nearest float, with `none` for an overflow -/
  round : ℚ → Option F
  round_value : ∀ x, round (value x) = some x
  mono : ∀ {p q : ℚ} {x y : F}, p ≤ q → round p = some x → round q = some y → value x ≤ value y
  between : ∀ {p q r : ℚ}, p ≤ q → q ≤ r → round p ≠ none → round r ≠ none → round q ≠ none
  int : ∀ n : ℤ, |n| ≤ 2 ^ 53 → ∃ x, round n = some x ∧ value x = n

/-- A number of Erlang. -/
inductive Number (F : Type) where
  | integer (n : ℤ)
  | float (x : F)

/-- `erlang:round/1` -/
def erlangRound (q : ℚ) : ℤ := if 0 ≤ q then ⌊q + 1 / 2⌋ else -⌊-q + 1 / 2⌋

/-- `erlang:trunc/1` -/
def erlangTrunc (q : ℚ) : ℤ := if 0 ≤ q then ⌊q⌋ else ⌈q⌉

theorem le_erlangRound {m : ℤ} {q : ℚ} (h : m ≤ q) : m ≤ erlangRound q := by
  rw [erlangRound]
  split
  · exact Int.le_floor.mpr (by linarith)
  · have hlt : ⌊-q + 1 / 2⌋ < -m + 1 := by
      rw [Int.floor_lt]
      push_cast
      linarith
    omega

theorem erlangRound_le {m : ℤ} {q : ℚ} (h : q ≤ m) : erlangRound q ≤ m := by
  rw [erlangRound]
  split
  · have hlt : ⌊q + 1 / 2⌋ < m + 1 := by
      rw [Int.floor_lt]
      push_cast
      linarith
    omega
  · have hle : -m ≤ ⌊-q + 1 / 2⌋ := by
      rw [Int.le_floor]
      push_cast
      linarith
    omega

theorem erlangRound_natCast (n : ℕ) : erlangRound n = n :=
  le_antisymm (erlangRound_le (by rw [Int.cast_natCast])) (le_erlangRound (by rw [Int.cast_natCast]))

theorem erlangRound_mono {p q : ℚ} (h0 : 0 ≤ p) (h : p ≤ q) : erlangRound p ≤ erlangRound q := by
  rw [erlangRound, if_pos h0, erlangRound, if_pos (h0.trans h)]
  exact Int.floor_le_floor (by linarith)

namespace FloatArithmetic

variable {F : Type} (A : FloatArithmetic F)

/-- The rational number that a number is. -/
def numberValue : Number F → ℚ
  | .integer n => n
  | .float x => A.value x

/-- The float of a result. -/
def toFloat (q : ℚ) : Except Exn F :=
  match A.round q with
  | some x => .ok x
  | none => .error .badarith

/-- A number and an integer added, or subtracted. -/
def add (a : Number F) (k : ℤ) : Except Exn (Number F) :=
  match a with
  | .integer n => .ok (.integer (n + k))
  | .float x => (A.toFloat (A.value x + k)).map .float

/-- A float times a count. -/
def scale (x : F) (N : ℕ) : Except Exn F := do
  let y ← A.toFloat N
  A.toFloat (A.value x * A.value y)

variable {A} {x y z : F} {p q : ℚ} {N : ℕ}

theorem toFloat_ok : A.toFloat q = .ok x ↔ A.round q = some x := by
  rw [toFloat]
  cases A.round q with
  | none => exact ⟨fun h => (by cases h), fun h => (by cases h)⟩
  | some y => exact ⟨fun h => congrArg some (Except.ok.inj h), fun h => congrArg Except.ok (Option.some.inj h)⟩

theorem value_le_of_le (h : A.round q = some x) (hq : q ≤ A.value y) : A.value x ≤ A.value y :=
  A.mono hq h (A.round_value y)

theorem le_value_of_le (h : A.round q = some x) (hq : A.value y ≤ q) : A.value y ≤ A.value x :=
  A.mono hq (A.round_value y) h

/-- Less than a positive float can be taken away from it. -/
theorem add_neg {a : Number F} (ha : 0 < A.numberValue a) {k : ℕ} (hk : k ≤ 2 ^ 53) :
    ∃ b, A.add a (-k) = .ok b ∧ A.numberValue b ≤ A.numberValue a := by
  cases a with
  | integer n => exact ⟨_, rfl, by simp [numberValue]⟩
  | float x =>
    have hx : 0 < A.value x := ha
    have hlow : A.value x + ((-k : ℤ) : ℚ) ≤ A.value x := by
      push_cast
      linarith [(Nat.cast_nonneg k : (0 : ℚ) ≤ k)]
    obtain ⟨w, hw, -⟩ := A.int (-k) (by rw [abs_neg, Nat.abs_cast]; exact_mod_cast hk)
    have hround := A.between (p := ((-k : ℤ) : ℚ)) (q := A.value x + ((-k : ℤ) : ℚ)) (r := A.value x)
      (by linarith) hlow (by rw [hw]; exact Option.some_ne_none w)
      (by rw [A.round_value]; exact Option.some_ne_none x)
    obtain ⟨y, hy⟩ := Option.ne_none_iff_exists'.mp hround
    refine ⟨.float y, ?_, value_le_of_le hy hlow⟩
    rw [add, toFloat_ok.mpr hy]
    rfl

/-- A count that is small is a float. -/
theorem toFloat_count (hN : N ≤ 2 ^ 53) : ∃ y, A.toFloat N = .ok y ∧ A.value y = N := by
  obtain ⟨y, hy, hv⟩ := A.int N (by rw [Nat.abs_cast]; exact_mod_cast hN)
  exact ⟨y, toFloat_ok.mpr hy, hv⟩

theorem scale_eq (hN : N ≤ 2 ^ 53) (h : A.scale x N = .ok z) :
    ∃ y, A.value y = N ∧ A.round (A.value x * N) = some z := by
  obtain ⟨y, hy, hv⟩ := toFloat_count (A := A) hN
  rw [scale, bind_ok hy, toFloat_ok, hv] at h
  exact ⟨y, hv, h⟩

theorem le_scale (hN : N ≤ 2 ^ 53) (hx : 1 ≤ A.value x) (h : A.scale x N = .ok z) :
    (N : ℤ) ≤ erlangRound (A.value z) := by
  obtain ⟨y, hv, hz⟩ := scale_eq hN h
  have hle : A.value y ≤ A.value x * N := by
    rw [hv]
    exact le_mul_of_one_le_left (Nat.cast_nonneg N) hx
  rw [← erlangRound_natCast]
  exact erlangRound_mono (Nat.cast_nonneg N) (hv ▸ le_value_of_le hz hle)

theorem scale_nonneg (hx : 0 ≤ A.value x) (h : A.scale x N = .ok z) : 0 ≤ A.value z := by
  obtain ⟨y, hy, h⟩ := bind_eq_ok h
  obtain ⟨o, ho, hv⟩ := A.int 0 (by simp)
  have hy0 : A.value o ≤ A.value y := le_value_of_le (toFloat_ok.mp hy) (by rw [hv]; simp)
  rw [hv, Int.cast_zero] at hy0
  have hz0 : A.value o ≤ A.value z := by
    refine le_value_of_le (toFloat_ok.mp h) ?_
    rw [hv, Int.cast_zero]
    exact mul_nonneg hx hy0
  rwa [hv, Int.cast_zero] at hz0

theorem one_le_scale (hN : 0 < N) (hx : 1 ≤ A.value x) (h : A.scale x N = .ok z) : 1 ≤ A.value z := by
  obtain ⟨y, hy, h⟩ := bind_eq_ok h
  obtain ⟨o, ho, hv⟩ := A.int 1 (by norm_num)
  rw [Int.cast_one] at hv
  have hy1 : A.value o ≤ A.value y := le_value_of_le (toFloat_ok.mp hy) (by rw [hv]; exact_mod_cast hN)
  rw [hv] at hy1
  have hz1 : A.value o ≤ A.value z := by
    refine le_value_of_le (toFloat_ok.mp h) ?_
    rw [hv]
    exact one_le_mul_of_one_le_of_one_le hx hy1
  rwa [hv] at hz1

theorem scale_le (hN : N ≤ 2 ^ 53) (h0 : 0 ≤ A.value x) (hx : A.value x ≤ 1) (h : A.scale x N = .ok z) :
    erlangRound (A.value z) ≤ N := by
  obtain ⟨y, hv, hz⟩ := scale_eq hN h
  have hle : A.value x * N ≤ A.value y := by
    rw [hv]
    exact mul_le_of_le_one_left (Nat.cast_nonneg N) hx
  rw [← erlangRound_natCast]
  exact erlangRound_mono (scale_nonneg h0 h) (hv ▸ value_le_of_le hz hle)

end FloatArithmetic

/-- Floats that round nothing. -/
def exactFloats : FloatArithmetic ℚ where
  value := id
  round := some
  round_value _ := rfl
  mono h hx hy := by
    cases hx
    cases hy
    exact h
  between _ _ _ _ := Option.some_ne_none _
  int n _ := ⟨n, rfl, rfl⟩

end CloudI
