import CloudI.Configurator.CountProcess
import CloudI.Monitor.Server

/-!
# The change of a count of processes

Each process of a service may ask for more or for fewer processes, by the rate
of its requests. `pids_change/2` takes the mean of what the larger of the two
groups asks for, or of both: with exact arithmetic the count that it gives
stays between the limits of the service, and moves only the way all of the
processes ask for (`pids_change_bounded`).
-/

namespace CloudI.Monitor

open Configurator (CountProcessDynamic)

/-- `cloudi_math:ceil/1` -/
def ceil (X : ℚ) : ℤ := if X > erlangTrunc X then erlangTrunc X + 1 else erlangTrunc X

/-- What a process asks for, with its rate of requests. -/
inductive CountChange where
  | increase (RateCurrent : NNRat) (RateMax : ℚ) (CountProcessMax : ℤ)
  | decrease (RateCurrent : NNRat) (RateMin : ℚ) (CountProcessMin : ℤ)

/-- `count_process_dynamic_reinit/2`: what is asked for, the timer and the state. -/
def countProcessDynamicReinit : CountProcessDynamic ℚ → Except Exn (Option CountChange × ℕ × CountProcessDynamic ℚ)
  | s@⟨some .rateRequest, some Period, Count, some RateMax, some RateMin, some CountProcessMax,
      some CountProcessMin, _⟩ =>
    if Period = 0 then .error .badarith
    else
      let RateCurrent : NNRat := Count / Period
      let Change :=
        if RateCurrent > exactFloats.numberValue RateMax then
          some (.increase RateCurrent (exactFloats.numberValue RateMax) CountProcessMax)
        else if RateCurrent < exactFloats.numberValue RateMin then
          some (.decrease RateCurrent (exactFloats.numberValue RateMin) CountProcessMin)
        else none
      .ok (Change, Period * 1000, { s with count := 0 })
  | _ => .error .functionClause

/-- The record `pids_change`. -/
structure PidsChange where
  countProcess : ℕ
  countIncrease : ℕ := 0
  countDecrease : ℕ := 0
  increase : ℤ := 0
  decrease : ℤ := 0
  rate : ℚ := 0

/-- `/` -/
def divide (a b : ℚ) : Except Exn ℚ := if b = 0 then .error .badarith else .ok (a / b)

/-- What is rounded by `pids_change_loop/2` with no entries left. -/
def meanChange (p : PidsChange) : Except Exn ℚ :=
  if p.countIncrease = p.countDecrease then do
    let CountBoth := p.countIncrease + p.countDecrease
    let Increase ← divide p.increase p.countIncrease
    let IncreasePart ← divide p.countIncrease CountBoth
    let Decrease ← divide p.decrease p.countDecrease
    let DecreasePart ← divide p.countDecrease CountBoth
    .ok (Increase * IncreasePart + Decrease * DecreasePart - p.countProcess)
  else if p.countIncrease > p.countDecrease then
    (divide p.increase p.countIncrease).map (· - p.countProcess)
  else (divide p.decrease p.countDecrease).map (· - p.countProcess)

/-- The count that an `increase` entry asks for. -/
def increaseTo (CountProcess : ℕ) (RateCurrent RateMax : ℚ) (CountProcessMax : ℤ) : Except Exn ℤ :=
  if CountProcessMax ≤ CountProcess then .ok CountProcess
  else (divide (CountProcess * RateCurrent) RateMax).map fun x => min (ceil x) CountProcessMax

/-- The count that a `decrease` entry asks for. -/
def decreaseTo (CountProcess : ℕ) (RateCurrent RateMin : ℚ) (CountProcessMin : ℤ) : Except Exn ℤ :=
  if CountProcessMin ≥ CountProcess then .ok CountProcess
  else (divide (CountProcess * RateCurrent) RateMin).map fun x => max (Configurator.floor x) CountProcessMin

/-- `pids_change_loop/2` -/
def pidsChangeLoop : List CountChange → PidsChange → Except Exn (ℤ × ℚ)
  | [], p => do
    let Change ← meanChange p
    .ok (erlangRound Change, p.rate)
  | .increase RateCurrent RateMax CountProcessMax :: ChangeList, p =>
    if (RateCurrent : ℚ) > RateMax then do
      let To ← increaseTo p.countProcess RateCurrent RateMax CountProcessMax
      pidsChangeLoop ChangeList { p with countIncrease := p.countIncrease + 1, increase := p.increase + To
                                         rate := p.rate + RateCurrent }
    else .error .functionClause
  | .decrease RateCurrent RateMin CountProcessMin :: ChangeList, p =>
    if (RateCurrent : ℚ) < RateMin then do
      let To ← decreaseTo p.countProcess RateCurrent RateMin CountProcessMin
      pidsChangeLoop ChangeList { p with countDecrease := p.countDecrease + 1, decrease := p.decrease + To
                                         rate := p.rate + RateCurrent }
    else .error .functionClause

/-- `pids_change/2` -/
def pidsChange (ChangeList : List CountChange) (CountProcessCurrent : ℕ) : Except Exn (ℤ × ℚ) :=
  pidsChangeLoop ChangeList { countProcess := CountProcessCurrent }

/-! ## The entries -/

/-- The rate of an entry is beyond its own limit. -/
def CountChange.Limited : CountChange → Prop
  | .increase RateCurrent RateMax _ => RateCurrent > RateMax ∧ 0 < RateMax
  | .decrease RateCurrent RateMin _ => RateCurrent < RateMin

/-- The entries of one service have its limits. -/
def CountChange.OfService (CountMin CountMax : ℤ) : CountChange → Prop
  | .increase _ _ CountProcessMax => CountProcessMax = CountMax
  | .decrease _ _ CountProcessMin => CountProcessMin = CountMin

def CountChange.isIncrease : CountChange → Bool
  | .increase _ _ _ => true
  | .decrease _ _ _ => false

theorem divide_ok (a : ℚ) {b : ℚ} (h : b ≠ 0) : divide a b = .ok (a / b) := if_neg h

theorem le_ceil {n : ℕ} {q : ℚ} (h : (n : ℚ) ≤ q) : (n : ℤ) ≤ ceil q := by
  have htrunc : erlangTrunc q = ⌊q⌋ := if_pos ((Nat.cast_nonneg n).trans h)
  have hle : (n : ℤ) ≤ ⌊q⌋ := Int.le_floor.mpr (by exact_mod_cast h)
  rw [ceil, htrunc]
  split
  · omega
  · exact hle

theorem floor_le {n : ℕ} {q : ℚ} (h0 : 0 ≤ q) (h : q ≤ n) : Configurator.floor q ≤ n := by
  have htrunc : erlangTrunc q = ⌊q⌋ := if_pos h0
  have hle : ⌊q⌋ ≤ n := by
    have := Int.floor_le_floor h
    rwa [Int.floor_natCast] at this
  rw [Configurator.floor, htrunc]
  split
  · omega
  · exact hle

theorem increaseTo_bounds (C : ℕ) {r m : ℚ} (M : ℤ) (hm : 0 < m) (h : m < r) :
    ∃ To, increaseTo C r m M = .ok To ∧ C ≤ To ∧ To ≤ max (C : ℤ) M := by
  rw [increaseTo]
  split
  · exact ⟨C, rfl, le_refl _, le_max_left _ _⟩
  · rename_i hM
    rw [divide_ok _ hm.ne']
    refine ⟨_, rfl, le_min (le_ceil ?_) (by omega), (min_le_right _ _).trans (le_max_right _ _)⟩
    rw [le_div_iff₀ hm]
    exact mul_le_mul_of_nonneg_left h.le (Nat.cast_nonneg C)

theorem decreaseTo_bounds (C : ℕ) {r m : ℚ} (M : ℤ) (hr : 0 ≤ r) (h : r < m) :
    ∃ To, decreaseTo C r m M = .ok To ∧ min (C : ℤ) M ≤ To ∧ To ≤ C := by
  have hm : 0 < m := hr.trans_lt h
  rw [decreaseTo]
  split
  · exact ⟨C, rfl, min_le_left _ _, le_refl _⟩
  · rename_i hM
    rw [divide_ok _ hm.ne']
    refine ⟨_, rfl, (min_le_right _ _).trans (le_max_right _ _), max_le (floor_le ?_ ?_) (by omega)⟩
    · exact div_nonneg (mul_nonneg (Nat.cast_nonneg C) hr) hm.le
    · rw [div_le_iff₀ hm]
      exact mul_le_mul_of_nonneg_left h.le (Nat.cast_nonneg C)

/-! ## The mean -/

/-- The sums of what is asked for so far; an increase stays at or above the
count of processes, a decrease at or below. -/
structure PidsChange.Inv (C : ℕ) (CountMin CountMax : ℤ) (p : PidsChange) : Prop where
  countProcess : p.countProcess = C
  le_increase : p.countIncrease * (C : ℤ) ≤ p.increase
  increase_le : p.increase ≤ p.countIncrease * max (C : ℤ) CountMax
  le_decrease : p.countDecrease * min (C : ℤ) CountMin ≤ p.decrease
  decrease_le : p.decrease ≤ p.countDecrease * (C : ℤ)

section

variable {C : ℕ} {CountMin CountMax : ℤ} {p : PidsChange}

theorem div_bounds {n : ℕ} {x a b : ℤ} (hn : 0 < n) (ha : n * a ≤ x) (hb : x ≤ n * b) :
    (a : ℚ) ≤ x / n ∧ (x / n : ℚ) ≤ b := by
  have hn' : (0 : ℚ) < n := Nat.cast_pos.mpr hn
  rw [le_div_iff₀ hn', div_le_iff₀ hn', mul_comm, mul_comm (b : ℚ)]
  exact ⟨by exact_mod_cast ha, by exact_mod_cast hb⟩

theorem meanChange_bounds (h : p.Inv C CountMin CountMax) (hpos : 0 < p.countIncrease + p.countDecrease) :
    ∃ q, meanChange p = .ok q ∧ (min (C : ℤ) CountMin : ℤ) ≤ C + q ∧ C + q ≤ (max (C : ℤ) CountMax : ℤ) ∧
      (p.countDecrease = 0 → 0 ≤ q) ∧ (p.countIncrease = 0 → q ≤ 0) := by
  have hminC : ((min (C : ℤ) CountMin : ℤ) : ℚ) ≤ C := by exact_mod_cast min_le_left (C : ℤ) CountMin
  have hmaxC : (C : ℚ) ≤ (max (C : ℤ) CountMax : ℤ) := by exact_mod_cast le_max_left (C : ℤ) CountMax
  have hinc : 0 < p.countIncrease → (C : ℚ) ≤ p.increase / p.countIncrease ∧
      (p.increase / p.countIncrease : ℚ) ≤ (max (C : ℤ) CountMax : ℤ) := fun hci =>
    div_bounds hci h.le_increase h.increase_le
  have hdec : 0 < p.countDecrease → ((min (C : ℤ) CountMin : ℤ) : ℚ) ≤ p.decrease / p.countDecrease ∧
      (p.decrease / p.countDecrease : ℚ) ≤ C := fun hcd =>
    div_bounds hcd h.le_decrease h.decrease_le
  rw [meanChange, h.countProcess]
  split
  · -- both groups are as large: the mean of their means
    rename_i heq
    have hci : 0 < p.countIncrease := by omega
    have hcd : 0 < p.countDecrease := by omega
    obtain ⟨hi1, hi2⟩ := hinc hci
    obtain ⟨hd1, hd2⟩ := hdec hcd
    have hci' : (p.countIncrease : ℚ) ≠ 0 := Nat.cast_ne_zero.mpr hci.ne'
    have hcd' : (p.countDecrease : ℚ) ≠ 0 := Nat.cast_ne_zero.mpr hcd.ne'
    have hboth : ((p.countIncrease + p.countDecrease : ℕ) : ℚ) ≠ 0 := Nat.cast_ne_zero.mpr (by omega)
    have hhalf : (p.countIncrease : ℚ) / (p.countIncrease + p.countDecrease : ℕ) = 1 / 2 := by
      rw [← heq]
      push_cast
      field_simp
      norm_num
    have hhalf' : (p.countDecrease : ℚ) / (p.countIncrease + p.countDecrease : ℕ) = 1 / 2 := by
      rw [heq]
      push_cast
      field_simp
      norm_num
    refine ⟨p.increase / p.countIncrease * (1 / 2) + p.decrease / p.countDecrease * (1 / 2) - C, ?_, ?_, ?_, ?_, ?_⟩
    · rw [bind_ok (divide_ok _ hci'), bind_ok (divide_ok _ hboth), bind_ok (divide_ok _ hcd'),
        bind_ok (divide_ok _ hboth), hhalf, hhalf']
    · linarith
    · linarith
    · intro h0
      omega
    · intro h0
      omega
  · split
    · rename_i hgt
      have hci : 0 < p.countIncrease := by omega
      obtain ⟨hi1, hi2⟩ := hinc hci
      refine ⟨p.increase / p.countIncrease - C, ?_, ?_, ?_, fun _ => ?_, fun h0 => ?_⟩
      · rw [divide_ok _ (Nat.cast_ne_zero.mpr hci.ne')]
        rfl
      · linarith
      · linarith
      · linarith
      · omega
    · have hcd : 0 < p.countDecrease := by omega
      obtain ⟨hd1, hd2⟩ := hdec hcd
      refine ⟨p.decrease / p.countDecrease - C, ?_, ?_, ?_, fun h0 => ?_, fun _ => ?_⟩
      · rw [divide_ok _ (Nat.cast_ne_zero.mpr hcd.ne')]
        rfl
      · linarith
      · linarith
      · omega
      · linarith

theorem PidsChange.Inv.increase {To : ℤ} (h : p.Inv C CountMin CountMax) (h1 : C ≤ To) (h2 : To ≤ max (C : ℤ) CountMax)
    (r : ℚ) :
    ({ p with countIncrease := p.countIncrease + 1, increase := p.increase + To, rate := r } : PidsChange).Inv
      C CountMin CountMax where
  countProcess := h.countProcess
  le_increase := by
    have := h.le_increase
    push_cast
    linarith
  increase_le := by
    have := h.increase_le
    push_cast
    linarith
  le_decrease := h.le_decrease
  decrease_le := h.decrease_le

theorem PidsChange.Inv.decrease {To : ℤ} (h : p.Inv C CountMin CountMax) (h1 : min (C : ℤ) CountMin ≤ To) (h2 : To ≤ C)
    (r : ℚ) :
    ({ p with countDecrease := p.countDecrease + 1, decrease := p.decrease + To, rate := r } : PidsChange).Inv
      C CountMin CountMax where
  countProcess := h.countProcess
  le_increase := h.le_increase
  increase_le := h.increase_le
  le_decrease := by
    have := h.le_decrease
    push_cast
    linarith
  decrease_le := by
    have := h.decrease_le
    push_cast
    linarith

theorem pidsChangeLoop_bounds {l : List CountChange} (h : p.Inv C CountMin CountMax)
    (hpos : 0 < p.countIncrease + p.countDecrease + l.length) (hl : ∀ e ∈ l, e.Limited)
    (hs : ∀ e ∈ l, e.OfService CountMin CountMax) :
    ∃ Change Rate, pidsChangeLoop l p = .ok (Change, Rate) ∧ min (C : ℤ) CountMin ≤ C + Change ∧
      C + Change ≤ max (C : ℤ) CountMax ∧
      (p.countDecrease = 0 → (∀ e ∈ l, e.isIncrease) → 0 ≤ Change) ∧
      (p.countIncrease = 0 → (∀ e ∈ l, e.isIncrease = false) → Change ≤ 0) := by
  induction l generalizing p with
  | nil =>
    obtain ⟨q, hq, h1, h2, h3, h4⟩ := meanChange_bounds h hpos
    refine ⟨erlangRound q, p.rate, ?_, ?_, ?_, fun h0 _ => ?_, fun h0 _ => ?_⟩
    · rw [pidsChangeLoop, bind_ok hq]
    · have hle : min (C : ℤ) CountMin - C ≤ erlangRound q := le_erlangRound (by push_cast at h1 ⊢; linarith)
      linarith
    · have hle : erlangRound q ≤ max (C : ℤ) CountMax - C := erlangRound_le (by push_cast at h2 ⊢; linarith)
      linarith
    · exact le_erlangRound (by exact_mod_cast h3 h0)
    · exact erlangRound_le (by exact_mod_cast h4 h0)
  | cons e l ih =>
    have hl' := fun e' he' => hl e' (List.mem_cons_of_mem e he')
    have hs' := fun e' he' => hs e' (List.mem_cons_of_mem e he')
    have hlim := hl e List.mem_cons_self
    have hof := hs e List.mem_cons_self
    cases e with
    | increase r m M =>
      obtain rfl : M = CountMax := hof
      obtain ⟨To, hTo, h1, h2⟩ := increaseTo_bounds C M hlim.2 hlim.1
      obtain ⟨Change, Rate, hr, hge, hle, hinc, -⟩ := ih (h.increase h1 h2 (p.rate + r)) (by simp only; omega) hl' hs'
      refine ⟨Change, Rate, ?_, hge, hle, fun h0 hall => ?_, fun _ hall => ?_⟩
      · rw [pidsChangeLoop, if_pos hlim.1, bind_ok (by rw [h.countProcess]; exact hTo)]
        exact hr
      · exact hinc h0 fun e' he' => hall e' (List.mem_cons_of_mem _ he')
      · cases hall _ List.mem_cons_self
    | decrease r m M =>
      obtain rfl : M = CountMin := hof
      have hlt : (r : ℚ) < m := hlim
      obtain ⟨To, hTo, h1, h2⟩ := decreaseTo_bounds C M (NNRat.coe_nonneg r) hlt
      obtain ⟨Change, Rate, hr, hge, hle, -, hdec⟩ := ih (h.decrease h1 h2 (p.rate + r)) (by simp only; omega) hl' hs'
      refine ⟨Change, Rate, ?_, hge, hle, fun _ hall => ?_, fun h0 hall => ?_⟩
      · rw [pidsChangeLoop, if_pos hlt, bind_ok (by rw [h.countProcess]; exact hTo)]
        exact hr
      · cases hall _ List.mem_cons_self
      · exact hdec h0 fun e' he' => hall e' (List.mem_cons_of_mem _ he')

end

/-- The record before the entries. -/
theorem PidsChange.inv_init (C : ℕ) (CountMin CountMax : ℤ) :
    ({ countProcess := C } : PidsChange).Inv C CountMin CountMax := by
  constructor <;> simp

/-- What `pids_decrease_loop/2` leaves of enough processes. -/
theorem pidsDecreaseLoop_left {Pid Start : Type} {Count : ℕ} {ServiceL : List (Service Pid Start)} (Told : List Pid)
    (h : Count ≤ ServiceL.length) : ∃ Told', pidsDecreaseLoop Count ServiceL Told =
    .ok (ServiceL.drop Count, Told') := by
  induction Count generalizing ServiceL Told with
  | zero => exact ⟨Told, rfl⟩
  | succ Count ih =>
    cases ServiceL with
    | nil => cases h
    | cons s ServiceL => exact ih (s.pids ++ Told) (Nat.le_of_succ_le_succ h)

/-- The new count of processes of a service is between its limits, or the
count is outside of them and moves towards them at most. It moves only the way
all of the processes ask for; no division by zero occurs, and a decrease leaves
a process. -/
theorem pids_change_bounded {l : List CountChange} {C : ℕ} {CountMin CountMax : ℤ} (hne : l ≠ [])
    (hl : ∀ e ∈ l, e.Limited) (hs : ∀ e ∈ l, e.OfService CountMin CountMax) (hMin : 1 ≤ CountMin) (hC : 1 ≤ C) :
    ∃ Change Rate, pidsChange l C = .ok (Change, Rate) ∧
      min (C : ℤ) CountMin ≤ C + Change ∧ C + Change ≤ max (C : ℤ) CountMax ∧
      ((∀ e ∈ l, e.isIncrease) → C ≤ C + Change) ∧ ((∀ e ∈ l, e.isIncrease = false) → C + Change ≤ C) ∧
      ∀ {Pid Start : Type} (ServiceL : List (Service Pid Start)), ServiceL.length = C →
        ∃ Told, pidsDecreaseLoop (-Change).toNat ServiceL [] = .ok (ServiceL.drop (-Change).toNat, Told) ∧
          ServiceL.drop (-Change).toNat ≠ [] := by
  obtain ⟨Change, Rate, hr, hge, hle, hinc, hdec⟩ :=
    pidsChangeLoop_bounds (PidsChange.inv_init C CountMin CountMax) (by simpa [List.length_pos_iff] using hne) hl hs
  refine ⟨Change, Rate, hr, hge, hle, fun hall => ?_, fun hall => ?_, fun ServiceL hlen => ?_⟩
  · linarith [hinc rfl hall]
  · linarith [hdec rfl hall]
  · have hleft : (-Change).toNat < ServiceL.length := by
      have : 1 ≤ min (C : ℤ) CountMin := le_min (by omega) hMin
      omega
    obtain ⟨Told, hTold⟩ := pidsDecreaseLoop_left [] hleft.le
    refine ⟨Told, hTold, fun hn => ?_⟩
    rw [List.drop_eq_nil_iff] at hn
    omega

/-- One process asks for more and two for fewer. -/
theorem pids_change_bounded_three : ∃ Change Rate,
    pidsChange [.increase 30 20 8, .decrease 1 10 2, .decrease 5 10 2] 4 = .ok (Change, Rate) ∧
      2 ≤ 4 + Change ∧ 4 + Change ≤ 8 := by
  have hs : ∀ e ∈ [CountChange.increase 30 20 8, .decrease 1 10 2, .decrease 5 10 2], e.OfService 2 8 := by
    simp [CountChange.OfService]
  obtain ⟨Change, Rate, h, hmin, hmax, -⟩ := pids_change_bounded (C := 4) (List.cons_ne_nil _ _)
    (by simp [CountChange.Limited]; norm_num) hs (by norm_num) (by norm_num)
  exact ⟨Change, Rate, h, by simpa using hmin, by simpa using hmax⟩

end CloudI.Monitor
