import CloudI.Configurator.RestartDelay
import CloudI.Framework.Numbers

/-!
# The options that are based on rates

`hibernate`, `rate_request_max` and `count_process_dynamic`: the validation of
their options, which fills in what is not given, and the format of the state
that it leaves. `format_validates` says for which options the format is valid
again.
-/

namespace CloudI.Configurator

variable {F : Type}

/-- A term that is given for a rate, a period or a count. -/
inductive Term (F : Type) where
  | number (a : Number F)
  | other

inductive RateMethod where
  | rateRequest
deriving DecidableEq

/-- The guard of a period in seconds; `4294967` is `?TIMEOUT_MAX_ERLANG div 1000`. -/
def periodOf : Term F → Option ℕ
  | .number (.integer n) => if 0 < n ∧ n ≤ 4294967 then some n.toNat else none
  | _ => none

variable (A : FloatArithmetic F)

/-- The guard of a rate. -/
def rateOf : Term F → Option (Number F)
  | .number a => if 0 < A.numberValue a then some a else none
  | .other => none

theorem periodOf_some {t : Term F} {n : ℕ} (h : periodOf t = some n) : 0 < n ∧ n ≤ 4294967 := by
  unfold periodOf at h
  split at h
  · split at h
    · cases h
      omega
    · cases h
  · cases h

theorem periodOf_format {n : ℕ} (h0 : 0 < n) (h : n ≤ 4294967) :
    periodOf (.number (.integer n) : Term F) = some n := by
  rw [periodOf, if_pos ⟨by omega, by omega⟩, Int.toNat_natCast]

variable {A} in
theorem rateOf_some {t : Term F} {a : Number F} (h : rateOf A t = some a) : t = .number a ∧ 0 < A.numberValue a := by
  unfold rateOf at h
  split at h
  · split at h
    · rename_i hpos
      cases h
      exact ⟨rfl, hpos⟩
    · cases h
  · cases h

/-- What was given is valid, and so are the defaults. -/
theorem getD_valid {period : Option ℕ} {rate : Option (Number F)} {d : ℕ} (hd : 0 < d)
    (hp : ∀ n, period = some n → 0 < n ∧ n ≤ 4294967) (hr : ∀ a, rate = some a → 0 < A.numberValue a) :
    0 < period.getD 5 ∧ period.getD 5 ≤ 4294967 ∧ 0 < A.numberValue (rate.getD (.integer d)) := by
  have hperiod : 0 < period.getD 5 ∧ period.getD 5 ≤ 4294967 := by
    cases period with
    | none => decide
    | some n => exact hp n rfl
  refine ⟨hperiod.1, hperiod.2, ?_⟩
  cases rate with
  | none => exact Nat.cast_pos.mpr hd
  | some a => exact hr a rfl

/-! ## Hibernation -/

inductive HibernateOption (F : Type) where
  | rateRequestMin (RateMin : Term F)
  | period (Period : Term F)
  | other

/-- The record `hibernate`. -/
structure Hibernate (F : Type) where
  method : Option RateMethod := none
  period : Option ℕ := none
  count : ℕ := 0
  rateMin : Option (Number F) := none
  hibernate : Bool := false

/-- `hibernate_validate/2` -/
def hibernateValidateLoop : List (HibernateOption F) → Hibernate F → Except (HibernateOption F) (Hibernate F)
  | [], s => .ok { s with method := some (s.method.getD .rateRequest)
                          period := some (s.period.getD 5)
                          rateMin := some (s.rateMin.getD (.integer 1)) }
  | .rateRequestMin RateMin :: Options, s =>
    match rateOf A RateMin with
    | some RateMin => hibernateValidateLoop Options { s with method := some .rateRequest, rateMin := some RateMin }
    | none => .error (.rateRequestMin RateMin)
  | .period Period :: Options, s =>
    match periodOf Period with
    | some Period => hibernateValidateLoop Options { s with period := some Period }
    | none => .error (.period Period)
  | .other :: _, _ => .error .other

/-- `hibernate_validate/1`; what is not a list is `true` or `false`. -/
def hibernateValidate : Bool ⊕ List (HibernateOption F) → Except (HibernateOption F) (Bool ⊕ Hibernate F)
  | .inl Value => .ok (.inl Value)
  | .inr Options => (hibernateValidateLoop A Options {}).map .inr

/-- `hibernate_format/1` -/
def hibernateFormat : Bool ⊕ Hibernate F → Except Exn (Bool ⊕ List (HibernateOption F))
  | .inl Value => .ok (.inl Value)
  | .inr ⟨some .rateRequest, some Period, _, some RateMin, _⟩ =>
    .ok (.inr [.period (.number (.integer Period)), .rateRequestMin (.number RateMin)])
  | _ => .error .functionClause

/-- What the options leave so far. -/
structure Hibernate.Inv (s : Hibernate F) : Prop where
  period : ∀ n, s.period = some n → 0 < n ∧ n ≤ 4294967
  rateMin : ∀ a, s.rateMin = some a → 0 < A.numberValue a
  count : s.count = 0
  hibernate : s.hibernate = false

theorem hibernateValidateLoop_ok {Options : List (HibernateOption F)} {s s' : Hibernate F} (h : s.Inv A)
    (hr : hibernateValidateLoop A Options s = .ok s') : ∃ (n : ℕ) (a : Number F),
      s' = ⟨some .rateRequest, some n, 0, some a, false⟩ ∧ 0 < n ∧ n ≤ 4294967 ∧ 0 < A.numberValue a := by
  induction Options generalizing s with
  | nil =>
    have hm : s.method.getD .rateRequest = .rateRequest := by cases s.method.getD .rateRequest; rfl
    cases hr
    refine ⟨s.period.getD 5, s.rateMin.getD (.integer 1), ?_, getD_valid A Nat.one_pos h.period h.rateMin⟩
    rw [hm, h.count, h.hibernate]
  | cons o Options ih =>
    cases o with
    | rateRequestMin t =>
      rw [hibernateValidateLoop] at hr
      split at hr
      · rename_i a ha
        refine ih ?_ hr
        refine ⟨h.period, fun b hb => ?_, h.count, h.hibernate⟩
        cases hb
        exact (rateOf_some ha).2
      · cases hr
    | period t =>
      rw [hibernateValidateLoop] at hr
      split at hr
      · rename_i n hn
        refine ih ?_ hr
        refine ⟨fun m hm => ?_, h.rateMin, h.count, h.hibernate⟩
        cases hm
        exact periodOf_some hn
      · cases hr
    | other => cases hr

theorem hibernate_format {Options : Bool ⊕ List (HibernateOption F)} {s : Bool ⊕ Hibernate F}
    (h : hibernateValidate A Options = .ok s) :
    ∃ formatted, hibernateFormat s = .ok formatted ∧ hibernateValidate A formatted = .ok s := by
  cases Options with
  | inl Value =>
    cases h
    exact ⟨_, rfl, rfl⟩
  | inr Options =>
    rw [hibernateValidate] at h
    cases hr : hibernateValidateLoop A Options {} with
    | error e =>
      rw [hr] at h
      cases h
    | ok s' =>
      rw [hr] at h
      cases h
      have hinit : ({} : Hibernate F).Inv A := ⟨fun _ hn => (by cases hn), fun _ ha => (by cases ha), rfl, rfl⟩
      obtain ⟨n, a, rfl, h0, hn, ha⟩ := hibernateValidateLoop_ok A hinit hr
      refine ⟨_, rfl, ?_⟩
      rw [hibernateValidate, hibernateValidateLoop, periodOf_format h0 hn]
      simp only
      rw [hibernateValidateLoop, rateOf, if_pos ha]
      rfl

/-! ## Rate limits -/

inductive RateRequestOption (F : Type) where
  | value (RateMax : Term F)
  | period (Period : Term F)
  | other

/-- The record `rate_request`. -/
structure RateRequest (F : Type) where
  period : Option ℕ := none
  count : ℕ := 0
  rateMax : Option (Number F) := none
  blocking : Bool := false

/-- `rate_request_validate/2` -/
def rateRequestValidateLoop : List (RateRequestOption F) → RateRequest F →
    Except (RateRequestOption F) (RateRequest F)
  | [], s => .ok { s with period := some (s.period.getD 5), rateMax := some (s.rateMax.getD (.integer 1000)) }
  | .value RateMax :: Options, s =>
    match rateOf A RateMax with
    | some RateMax => rateRequestValidateLoop Options { s with rateMax := some RateMax }
    | none => .error (.value RateMax)
  | .period Period :: Options, s =>
    match periodOf Period with
    | some Period => rateRequestValidateLoop Options { s with period := some Period }
    | none => .error (.period Period)
  | .other :: _, _ => .error .other

/-- What is given for `rate_request_max`. -/
inductive RateRequestMax (F : Type) where
  | undefined
  | number (Value : Number F)
  | list (Options : List (RateRequestOption F))

/-- `rate_request_validate/1` -/
def rateRequestValidate : RateRequestMax F → Except (RateRequestOption F) (Option (RateRequest F))
  | .undefined => .ok none
  | .number Value => (rateRequestValidateLoop A [.value (.number Value)] {}).map some
  | .list Options => (rateRequestValidateLoop A Options {}).map some

/-- `rate_request_format/1` -/
def rateRequestFormat : Option (RateRequest F) → Except Exn (RateRequestMax F)
  | none => .ok .undefined
  | some ⟨some Period, _, some RateMax, _⟩ =>
    .ok (.list [.period (.number (.integer Period)), .value (.number RateMax)])
  | _ => .error .functionClause

/-- What the options leave so far. -/
structure RateRequest.Inv (s : RateRequest F) : Prop where
  period : ∀ n, s.period = some n → 0 < n ∧ n ≤ 4294967
  rateMax : ∀ a, s.rateMax = some a → 0 < A.numberValue a
  count : s.count = 0
  blocking : s.blocking = false

theorem rateRequestValidateLoop_ok {Options : List (RateRequestOption F)} {s s' : RateRequest F} (h : s.Inv A)
    (hr : rateRequestValidateLoop A Options s = .ok s') : ∃ (n : ℕ) (a : Number F),
      s' = ⟨some n, 0, some a, false⟩ ∧ 0 < n ∧ n ≤ 4294967 ∧ 0 < A.numberValue a := by
  induction Options generalizing s with
  | nil =>
    cases hr
    refine ⟨s.period.getD 5, s.rateMax.getD (.integer 1000), ?_, getD_valid A (by decide) h.period h.rateMax⟩
    rw [h.count, h.blocking]
  | cons o Options ih =>
    cases o with
    | value t =>
      rw [rateRequestValidateLoop] at hr
      split at hr
      · rename_i a ha
        refine ih ?_ hr
        refine ⟨h.period, fun b hb => ?_, h.count, h.blocking⟩
        cases hb
        exact (rateOf_some ha).2
      · cases hr
    | period t =>
      rw [rateRequestValidateLoop] at hr
      split at hr
      · rename_i n hn
        refine ih ?_ hr
        refine ⟨fun m hm => ?_, h.rateMax, h.count, h.blocking⟩
        cases hm
        exact periodOf_some hn
      · cases hr
    | other => cases hr

theorem rateRequest_format {Value : RateRequestMax F} {s : Option (RateRequest F)}
    (h : rateRequestValidate A Value = .ok s) :
    ∃ formatted, rateRequestFormat s = .ok formatted ∧ rateRequestValidate A formatted = .ok s := by
  have hloop : ∀ {Options : List (RateRequestOption F)}, (rateRequestValidateLoop A Options {}).map some = .ok s →
      ∃ formatted, rateRequestFormat s = .ok formatted ∧ rateRequestValidate A formatted = .ok s := by
    intro Options h
    cases hr : rateRequestValidateLoop A Options {} with
    | error e =>
      rw [hr] at h
      cases h
    | ok s' =>
      rw [hr] at h
      cases h
      have hinit : ({} : RateRequest F).Inv A := ⟨fun _ hn => (by cases hn), fun _ ha => (by cases ha), rfl, rfl⟩
      obtain ⟨n, a, rfl, h0, hn, ha⟩ := rateRequestValidateLoop_ok A hinit hr
      refine ⟨_, rfl, ?_⟩
      rw [rateRequestValidate, rateRequestValidateLoop, periodOf_format h0 hn]
      simp only
      rw [rateRequestValidateLoop, rateOf, if_pos ha]
      rfl
  cases Value with
  | undefined =>
    cases h
    exact ⟨_, rfl, rfl⟩
  | number a => exact hloop h
  | list Options => exact hloop h

end CloudI.Configurator
