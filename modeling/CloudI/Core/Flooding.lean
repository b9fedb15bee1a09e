import Mathlib.Algebra.Order.Field.Rat
import Mathlib.Data.Rat.Cast.Order
import Mathlib.Tactic.Linarith

/-!
# Flooding of the logger

`flooding_logger` of `cloudi_core_i_logger.erl` counts the messages of a process
in an interval, and warns when they come too fast. `protect` is what the
messages of a sequence are meant to come to. `flooding_iff` is that they do as
long as none comes too fast: the time left that the warning tells is a wrong
one, and while the messages keep coming too fast each of them gets a warning
and is logged (`discarded_iff`).
-/

namespace CloudI.Core

/-! ## The function -/

/-- `LOGGER_FLOODING_DELTA`, in microseconds -/
def loggerFloodingDelta : Int := 10

/-- `LOGGER_FLOODING_INTERVAL_MAX`, in milliseconds -/
def loggerFloodingIntervalMax : Int := 10000

/-- `LOGGER_FLOODING_INTERVAL_MIN`, in milliseconds -/
def loggerFloodingIntervalMin : Int := 5

/-- The entry `cloudi_logger` of the process dictionary. -/
structure FloodingEntry where
  timestamp : Int
  count : Nat
  flooding : Bool

/-- What `flooding_logger_warning/1` prints: the messages in a second, and the seconds that are left. -/
structure FloodingWarning where
  rate : Int
  secondsRemaining : ℚ
deriving DecidableEq

def floodingLoggerWarning (SecondsRemaining : ℚ) : FloodingWarning :=
  ⟨1000000 / loggerFloodingDelta, SecondsRemaining⟩

/-- `flooding_logger/1`, on timestamps in microseconds -/
def floodingLogger (Timestamp1 : Int) : Option FloodingEntry → (Bool × Option FloodingWarning) × FloodingEntry
  | none => ((false, none), ⟨Timestamp1, 1, false⟩)
  | some ⟨Timestamp0, Count0, Flooding⟩ =>
    let Count1 := Count0 + 1
    let MicroSecondsElapsed := Timestamp1 - Timestamp0
    if MicroSecondsElapsed > loggerFloodingIntervalMax * 1000 ∨ MicroSecondsElapsed < 0 then
      ((false, none), ⟨Timestamp1, 1, false⟩)
    else if MicroSecondsElapsed > loggerFloodingIntervalMin * 1000 ∧
        MicroSecondsElapsed.tdiv Count1 < loggerFloodingDelta then
      let SecondsRemaining : ℚ := loggerFloodingIntervalMax * 1000 - MicroSecondsElapsed / 1000000
      ((false, some (floodingLoggerWarning SecondsRemaining)), ⟨Timestamp0, Count1, true⟩)
    else ((Flooding, none), ⟨Timestamp0, Count1, Flooding⟩)

inductive Mode where
  | async
  | sync
deriving DecidableEq

/-- What becomes of a message. -/
inductive Fate where
  | discarded
  | logged (warning : Option FloodingWarning)
deriving DecidableEq

/-- `log_message_external/9`, for what it does with the message. -/
def logMessageExternal (mode : Mode) (Timestamp : Int) (entry : Option FloodingEntry) : Fate × FloodingEntry :=
  match floodingLogger Timestamp entry with
  | ((flooding, warning), entry) =>
    if flooding ∧ mode = .async then (.discarded, entry)
    else (.logged (if mode = .sync then none else warning), entry)

/-- The messages of a process, in async mode. -/
def logMessages : Option FloodingEntry → List Int → List Fate
  | _, [] => []
  | entry, t :: ts =>
    let (fate, entry) := logMessageExternal .async t entry
    fate :: logMessages (some entry) ts

/-! ## What is meant -/

/-- A timestamp that is not in the interval: after its end, or before its start. -/
def Outside (start t : Int) : Prop := t - start > loggerFloodingIntervalMax * 1000 ∨ t - start < 0

instance (start t : Int) : Decidable (Outside start t) := inferInstanceAs (Decidable (_ ∨ _))

/-- The messages up to `t`, `count` of them, come too fast: the average time per message is below the limit. -/
def TooFast (start : Int) (count : Nat) (t : Int) : Prop :=
  t - start > loggerFloodingIntervalMin * 1000 ∧ ((t - start : Int) : ℚ) / count < loggerFloodingDelta

instance (start : Int) (count : Nat) (t : Int) : Decidable (TooFast start count t) :=
  inferInstanceAs (Decidable (_ ∧ _))

/-- The seconds that are left of the interval. -/
def secondsLeft (start t : Int) : ℚ := (loggerFloodingIntervalMax * 1000 - (t - start)) / 1000000

/-- An interval starts with a message. The first one that comes too fast is logged with a warning, and all that come
after it in the interval are discarded. -/
def protect : Option FloodingEntry → List Int → List Fate
  | _, [] => []
  | none, t :: ts => .logged none :: protect (some ⟨t, 1, false⟩) ts
  | some ⟨start, count, silenced⟩, t :: ts =>
    if Outside start t then .logged none :: protect (some ⟨t, 1, false⟩) ts
    else if silenced then .discarded :: protect (some ⟨start, count + 1, true⟩) ts
    else if TooFast start (count + 1) t then
      .logged (some (floodingLoggerWarning (secondsLeft start t))) :: protect (some ⟨start, count + 1, true⟩) ts
    else .logged none :: protect (some ⟨start, count + 1, false⟩) ts

/-- No message comes too fast in its interval. -/
def Calm : Option (Int × Nat) → List Int → Prop
  | _, [] => True
  | none, t :: ts => Calm (some (t, 1)) ts
  | some (start, count), t :: ts =>
    if Outside start t then Calm (some (t, 1)) ts
    else ¬TooFast start (count + 1) t ∧ Calm (some (start, count + 1)) ts

/-! ## The messages of a process -/

theorem tdiv_lt_iff {e : Int} {count : Nat} (he : 0 ≤ e) (hc : 0 < count) :
    e.tdiv count < loggerFloodingDelta ↔ (e : ℚ) / count < loggerFloodingDelta := by
  have hpos : (0 : ℚ) < count := Nat.cast_pos.mpr hc
  rw [Int.tdiv_eq_ediv_of_nonneg he, Int.ediv_lt_iff_lt_mul (Int.natCast_pos.mpr hc), div_lt_iff₀ hpos]
  norm_cast

/-- The branches of `flooding_logger`. -/
theorem floodingLogger_outside {start t : Int} (h : Outside start t) (count : Nat) (flooding : Bool) :
    floodingLogger t (some ⟨start, count, flooding⟩) = ((false, none), ⟨t, 1, false⟩) :=
  if_pos h

theorem floodingLogger_fast {start t : Int} {count : Nat} (h : ¬Outside start t) (hf : TooFast start (count + 1) t)
    (flooding : Bool) :
    floodingLogger t (some ⟨start, count, flooding⟩) = ((false, some (floodingLoggerWarning
      (loggerFloodingIntervalMax * 1000 - (t - start : Int) / 1000000))), ⟨start, count + 1, true⟩) := by
  have he : 0 ≤ t - start := Int.not_lt.mp fun hlt => h (.inr hlt)
  exact (if_neg h).trans (if_pos ⟨hf.1, (tdiv_lt_iff he (Nat.succ_pos count)).mpr hf.2⟩)

theorem floodingLogger_slow {start t : Int} {count : Nat} (h : ¬Outside start t) (hf : ¬TooFast start (count + 1) t)
    (flooding : Bool) :
    floodingLogger t (some ⟨start, count, flooding⟩) = ((flooding, none), ⟨start, count + 1, flooding⟩) := by
  have he : 0 ≤ t - start := Int.not_lt.mp fun hlt => h (.inr hlt)
  exact (if_neg h).trans (if_neg fun hd => hf ⟨hd.1, (tdiv_lt_iff he (Nat.succ_pos count)).mp hd.2⟩)

/-- Where a process was warned, a message of the interval is discarded only if it does not come too fast. -/
theorem discarded_iff {start t : Int} {count : Nat} (h : ¬Outside start t) :
    (logMessageExternal .async t (some ⟨start, count, true⟩)).1 = .discarded ↔ ¬TooFast start (count + 1) t := by
  unfold logMessageExternal
  by_cases hf : TooFast start (count + 1) t
  · rw [floodingLogger_fast h hf]
    exact ⟨nofun, absurd hf⟩
  · rw [floodingLogger_slow h hf]
    exact ⟨fun _ => hf, fun _ => rfl⟩

/-- The seconds that the warning tells are not those that are left. -/
theorem warning_ne (start t : Int) :
    floodingLoggerWarning (loggerFloodingIntervalMax * 1000 - (t - start : Int) / 1000000) ≠
      floodingLoggerWarning (secondsLeft start t) := by
  intro h
  have hs : (loggerFloodingIntervalMax * 1000 - (t - start : Int) / 1000000 : ℚ) =
      (loggerFloodingIntervalMax * 1000 - (t - start)) / 1000000 := (FloodingWarning.mk.inj h).2
  unfold loggerFloodingIntervalMax at hs
  push_cast at hs
  linarith

theorem logMessages_iff (start : Int) (count : Nat) (ts : List Int) :
    logMessages (some ⟨start, count, false⟩) ts = protect (some ⟨start, count, false⟩) ts ↔
      Calm (some (start, count)) ts := by
  induction ts generalizing start count with
  | nil => exact ⟨fun _ => trivial, fun _ => rfl⟩
  | cons t ts ih =>
    unfold logMessages logMessageExternal protect Calm
    by_cases h : Outside start t
    · rw [floodingLogger_outside h, if_pos h, if_pos h]
      simpa using ih t 1
    · rw [if_neg h, if_neg h]
      by_cases hf : TooFast start (count + 1) t
      · rw [floodingLogger_fast h hf, if_neg Bool.false_ne_true, if_pos hf]
        refine iff_of_false (fun heq => ?_) fun hc => hc.1 hf
        have hfate : Fate.logged (some (floodingLoggerWarning _)) = Fate.logged (some (floodingLoggerWarning _)) :=
          (List.cons.inj heq).1
        exact warning_ne start t (Option.some.inj (Fate.logged.inj hfate))
      · rw [floodingLogger_slow h hf]
        simpa [hf] using ih start (count + 1)

/-- The messages of a process come to what is meant as long as none of them comes too fast, and not otherwise. -/
theorem flooding_iff (ts : List Int) : logMessages none ts = protect none ts ↔ Calm none ts := by
  cases ts with
  | nil => exact ⟨fun _ => trivial, fun _ => rfl⟩
  | cons t ts =>
    rw [Calm, ← logMessages_iff]
    exact List.cons_eq_cons.trans (and_iff_right rfl)

theorem not_calm (count n : Nat) (hn : 500 ≤ count + n) :
    ¬Calm (some (0, count)) (List.replicate n 0 ++ [5001]) := by
  induction n generalizing count with
  | zero =>
    have hout : ¬Outside 0 5001 := by decide
    intro h
    rw [List.replicate_zero, List.nil_append, Calm, if_neg hout] at h
    refine h.1 ⟨by decide, ?_⟩
    have hcount : (501 : ℚ) ≤ (count + 1 : Nat) := by exact_mod_cast Nat.succ_le_succ hn
    rw [div_lt_iff₀ (by linarith)]
    unfold loggerFloodingDelta
    push_cast at hcount ⊢
    linarith
  | succ n ih =>
    have hout : ¬Outside 0 0 := by decide
    intro h
    rw [List.replicate_succ, List.cons_append, Calm, if_neg hout] at h
    exact ih (count + 1) (by omega) h.2

/-- The message 5001 microseconds after 600 messages gets a warning with wrong seconds. -/
theorem flooding_warned :
    logMessages none (0 :: (List.replicate 599 0 ++ [5001])) ≠ protect none (0 :: (List.replicate 599 0 ++ [5001])) :=
  fun h => not_calm 1 599 (by decide) (((List.cons_eq_cons.trans (and_iff_right rfl)).trans
      (logMessages_iff 0 1 _)).mp h)

end CloudI.Core
