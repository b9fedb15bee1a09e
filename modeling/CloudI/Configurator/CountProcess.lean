import CloudI.Configurator.RateBased

/-!
# The options of a dynamic count of processes

`count_process_dynamic_validate/2` fills in the lower rate from the upper one
and each count from the other. What it leaves is formatted with all of its
fields, and `format_validates` says when they are valid again: a lower rate
that was filled in has to be positive, and a count that was rounded has to be
on its side of the count of processes.
-/

namespace CloudI.Configurator

variable {F : Type} (A : FloatArithmetic F)

/-- `cloudi_math:floor/1` -/
def floor (X : ℚ) : ℤ := if X < erlangTrunc X then erlangTrunc X - 1 else erlangTrunc X

/-- `cloudi_concurrency:count/1` -/
def concurrencyCount (schedulers : ℕ) : Number F → Except Exn ℕ
  | .integer I => if 0 < I then .ok I.toNat else .error .functionClause
  | .float I =>
    if 1 < A.value I then (A.scale I schedulers).map fun x => (floor (A.value x)).toNat
    else if 0 < A.value I ∧ A.value I < 1 then
      (A.scale I schedulers).map fun x => (max 1 (erlangRound (A.value x))).toNat
    else if A.value I = 1 then .ok schedulers
    else .error .ifClause

inductive CountProcessOption (F : Type) where
  | rateRequestMax (RateMax : Term F)
  | rateRequestMin (RateMin : Term F)
  | countMax (CountMax : Term F)
  | countMin (CountMin : Term F)
  | period (Period : Term F)
  | other

/-- What is wrong with the options: one of them, or that two limits are equal. -/
inductive CountProcessError (F : Type) where
  | option (Invalid : CountProcessOption F)
  | rateRequestMax
  | countMax
  | raised (e : Exn)

/-- The record `count_process_dynamic`. -/
structure CountProcessDynamic (F : Type) where
  method : Option RateMethod := none
  period : Option ℕ := none
  count : ℕ := 0
  rateMax : Option (Number F) := none
  rateMin : Option (Number F) := none
  countProcessMax : Option ℤ := none
  countProcessMin : Option ℤ := none
  terminate : Bool := false

/-- An exception is no reply. -/
def orRaised {α : Type} : Except Exn α → Except (CountProcessError F) α
  | .ok a => .ok a
  | .error e => .error (.raised e)

/-- `erlang:round(X * CountProcess)` of a float -/
def roundCount (CountProcess : ℕ) (X : F) : Except Exn ℤ :=
  (A.scale X CountProcess).map fun x => erlangRound (A.value x)

/-- The guard of `count_max`, and the count. -/
def countMaxOf (CountProcess : ℕ) : Term F → Option (Except Exn ℤ)
  | .number (.float X) => if 1 ≤ A.value X then some (roundCount A CountProcess X) else none
  | .number (.integer n) => if CountProcess ≤ n then some (.ok n) else none
  | .other => none

/-- The guard of `count_min`, and the count. -/
def countMinOf (CountProcess : ℕ) : Term F → Option (Except Exn ℤ)
  | .number (.float X) =>
    if 0 < A.value X ∧ A.value X ≤ 1 then some ((roundCount A CountProcess X).map (max 1)) else none
  | .number (.integer n) => if 0 < n ∧ n ≤ CountProcess then some (.ok n) else none
  | .other => none

/-- One option of `count_process_dynamic_validate/3`. -/
def countProcessOption (CountProcess : ℕ) (o : CountProcessOption F) (s : CountProcessDynamic F) :
    Except (CountProcessError F) (CountProcessDynamic F) :=
  match o with
  | .rateRequestMax t =>
    match rateOf A t with
    | none => .error (.option o)
    | some RateMax => do
      let NewRateMin ← s.rateMin.elim (orRaised (A.add RateMax (-10))) .ok
      if A.numberValue NewRateMin ≤ A.numberValue RateMax then
        .ok { s with method := some .rateRequest, rateMax := some RateMax, rateMin := some NewRateMin }
      else .error (.option o)
  | .rateRequestMin t =>
    match rateOf A t with
    | none => .error (.option o)
    | some RateMin => do
      let NewRateMax ← s.rateMax.elim (orRaised (A.add RateMin 10)) .ok
      if A.numberValue RateMin ≤ A.numberValue NewRateMax then
        .ok { s with method := some .rateRequest, rateMax := some NewRateMax, rateMin := some RateMin }
      else .error (.option o)
  | .countMax t =>
    match countMaxOf A CountProcess t with
    | none => .error (.option o)
    | some CountMax => do
      let NewCountMax ← orRaised CountMax
      let NewCountMin := s.countProcessMin.getD CountProcess
      if NewCountMin ≤ NewCountMax then
        .ok { s with countProcessMax := some NewCountMax, countProcessMin := some NewCountMin }
      else .error (.option o)
  | .countMin t =>
    match countMinOf A CountProcess t with
    | none => .error (.option o)
    | some CountMin => do
      let NewCountMin ← orRaised CountMin
      let NewCountMax := s.countProcessMax.getD CountProcess
      if NewCountMin ≤ NewCountMax then
        .ok { s with countProcessMax := some NewCountMax, countProcessMin := some NewCountMin }
      else .error (.option o)
  | .period t =>
    match periodOf t with
    | none => .error (.option o)
    | some Period => .ok { s with period := some Period }
  | .other => .error (.option o)

/-- `erlang:round(4.0 * CountProcess)` -/
def countMaxDefault (CountProcess : ℕ) : Except Exn ℤ := do
  let X ← A.toFloat 4
  roundCount A CountProcess X

/-- `erlang:max(1, erlang:round(0.5 * CountProcess))` -/
def countMinDefault (CountProcess : ℕ) : Except Exn ℤ := do
  let X ← A.toFloat (1 / 2)
  (roundCount A CountProcess X).map (max 1)

/-- `count_process_dynamic_validate/3` with no options left. -/
def countProcessDone (CountProcess : ℕ) (s : CountProcessDynamic F) :
    Except (CountProcessError F) (CountProcessDynamic F) := do
  let NewRateMax := s.rateMax.getD (.integer 1000)
  let NewRateMin := s.rateMin.getD (.integer 100)
  let NewCountMax ← s.countProcessMax.elim (orRaised (countMaxDefault A CountProcess)) .ok
  let NewCountMin ← s.countProcessMin.elim (orRaised (countMinDefault A CountProcess)) .ok
  if A.numberValue NewRateMin = A.numberValue NewRateMax then .error .rateRequestMax
  else if NewCountMin = NewCountMax then .error .countMax
  else .ok { s with method := some (s.method.getD .rateRequest), period := some (s.period.getD 5)
                    rateMax := some NewRateMax, rateMin := some NewRateMin
                    countProcessMax := some NewCountMax, countProcessMin := some NewCountMin }

/-- `count_process_dynamic_validate/3` -/
def countProcessValidateLoop (CountProcess : ℕ) : List (CountProcessOption F) → CountProcessDynamic F →
    Except (CountProcessError F) (CountProcessDynamic F)
  | [], s => countProcessDone A CountProcess s
  | o :: Options, s => do
    let s' ← countProcessOption A CountProcess o s
    countProcessValidateLoop CountProcess Options s'

/-- `count_process_dynamic_validate/2`, with `none` for `false` -/
def countProcessValidate (schedulers : ℕ) (Options : Option (List (CountProcessOption F))) (CountProcess : Number F) :
    Except (CountProcessError F) (Option (CountProcessDynamic F)) :=
  match Options with
  | none => .ok none
  | some Options => do
    let CountProcessInteger ← orRaised (concurrencyCount A schedulers CountProcess)
    (countProcessValidateLoop A CountProcessInteger Options {}).map some

/-- `count_process_dynamic_format/1` of a record -/
def countProcessFormatList : CountProcessDynamic F → Except Exn (List (CountProcessOption F))
  | ⟨some .rateRequest, some Period, _, some RateMax, some RateMin, some CountProcessMax, some CountProcessMin, _⟩ =>
    .ok [.period (.number (.integer Period)), .rateRequestMax (.number RateMax), .rateRequestMin (.number RateMin),
      .countMax (.number (.integer CountProcessMax)), .countMin (.number (.integer CountProcessMin))]
  | _ => .error .functionClause

/-- `count_process_dynamic_format/1` -/
def countProcessFormat : Option (CountProcessDynamic F) → Except Exn (Option (List (CountProcessOption F)))
  | none => .ok none
  | some s => (countProcessFormatList s).map some

/-! ## What is accepted -/

/-- What the options leave so far. -/
structure CountProcessDynamic.Inv (s : CountProcessDynamic F) : Prop where
  period : ∀ n, s.period = some n → 0 < n ∧ n ≤ 4294967
  rates : s.rateMax = none ↔ s.rateMin = none
  rate : ∀ a b, s.rateMax = some a → s.rateMin = some b → 0 < A.numberValue a ∧ A.numberValue b ≤ A.numberValue a
  countMin : ∀ d, s.countProcessMin = some d → 0 < d
  zero : s.count = 0
  terminate : s.terminate = false

/-- A record with all of its fields. -/
def countProcessRecord (n : ℕ) (a b : Number F) (c d : ℤ) : CountProcessDynamic F :=
  ⟨some .rateRequest, some n, 0, some a, some b, some c, some d, false⟩

/-- The records that the options can lead to. -/
structure AcceptedCounts (n : ℕ) (a b : Number F) (c d : ℤ) : Prop where
  period : 0 < n ∧ n ≤ 4294967
  rate : 0 < A.numberValue a
  rates : A.numberValue b < A.numberValue a
  counts : d ≠ c
  countMin : 0 < d

variable {A} {N : ℕ} {s s' : CountProcessDynamic F}

theorem orRaised_ok {α : Type} {x : Except Exn α} {a : α}
    (h : (orRaised x : Except (CountProcessError F) α) = .ok a) : x = .ok a := by
  cases x with
  | ok b => exact congrArg _ (Except.ok.inj h)
  | error e => cases h

theorem elim_ok {α ε : Type} {o : Option α} {x : Except ε α} {a : α} (h : o.elim x .ok = .ok a) :
    o = some a ∨ (o = none ∧ x = .ok a) := by
  cases o with
  | none => exact .inr ⟨rfl, h⟩
  | some b => exact .inl (congrArg some (Except.ok.inj h))

theorem max_one_pos {x : Except Exn ℤ} {m : ℤ} (h : x.map (max 1) = .ok m) : 0 < m := by
  cases x with
  | error e => cases h
  | ok n =>
    cases h
    exact lt_of_lt_of_le one_pos (le_max_left 1 n)

theorem countMinOf_pos {t : Term F} {x : Except Exn ℤ} {m : ℤ} (h : countMinOf A N t = some x) (hx : x = .ok m) :
    0 < m := by
  unfold countMinOf at h
  split at h
  · split at h
    · cases h
      exact max_one_pos hx
    · cases h
  · split at h
    · rename_i hn
      cases h
      cases hx
      exact hn.1
    · cases h
  · cases h

/-- The rates after an option that gives both. -/
theorem CountProcessDynamic.Inv.setRates (h : s.Inv A) {a b : Number F} (ha : 0 < A.numberValue a)
    (hb : A.numberValue b ≤ A.numberValue a) :
    ({ s with method := some .rateRequest, rateMax := some a, rateMin := some b } : CountProcessDynamic F).Inv A where
  period := h.period
  rates := iff_of_false (Option.some_ne_none a) (Option.some_ne_none b)
  rate a' b' ha' hb' := by
    cases ha'
    cases hb'
    exact ⟨ha, hb⟩
  countMin := h.countMin
  zero := h.zero
  terminate := h.terminate

/-- The counts after an option that gives both. -/
theorem CountProcessDynamic.Inv.setCounts (h : s.Inv A) (c : ℤ) {d : ℤ} (hd : 0 < d) :
    ({ s with countProcessMax := some c, countProcessMin := some d } : CountProcessDynamic F).Inv A where
  period := h.period
  rates := h.rates
  rate := h.rate
  countMin d' hd' := by
    cases hd'
    exact hd
  zero := h.zero
  terminate := h.terminate

theorem rateRequestMax_ok {t : Term F} (hr : countProcessOption A N (.rateRequestMax t) s = .ok s') :
    ∃ a b, t = .number a ∧ 0 < A.numberValue a ∧ A.numberValue b ≤ A.numberValue a ∧
      (s.rateMin = some b ∨ (s.rateMin = none ∧ A.add a (-10) = .ok b)) ∧
      s' = { s with method := some .rateRequest, rateMax := some a, rateMin := some b } := by
  rw [countProcessOption] at hr
  split at hr
  · cases hr
  · rename_i a ha
    obtain ⟨b, hb, hr⟩ := bind_eq_ok hr
    split at hr
    · rename_i hle
      cases hr
      obtain ⟨rfl, hpos⟩ := rateOf_some ha
      exact ⟨a, b, rfl, hpos, hle, (elim_ok hb).imp_right fun h => ⟨h.1, orRaised_ok h.2⟩, rfl⟩
    · cases hr

theorem rateRequestMin_ok {t : Term F} (hr : countProcessOption A N (.rateRequestMin t) s = .ok s') :
    ∃ a b, t = .number b ∧ 0 < A.numberValue b ∧ A.numberValue b ≤ A.numberValue a ∧
      s' = { s with method := some .rateRequest, rateMax := some a, rateMin := some b } := by
  rw [countProcessOption] at hr
  split at hr
  · cases hr
  · rename_i b hb
    obtain ⟨a, ha, hr⟩ := bind_eq_ok hr
    split at hr
    · rename_i hle
      cases hr
      obtain ⟨rfl, hpos⟩ := rateOf_some hb
      exact ⟨a, b, rfl, hpos, hle, rfl⟩
    · cases hr

theorem countMax_ok {t : Term F} (hr : countProcessOption A N (.countMax t) s = .ok s') :
    ∃ c, countMaxOf A N t = some (.ok c) ∧ s.countProcessMin.getD N ≤ c ∧
      s' = { s with countProcessMax := some c, countProcessMin := some (s.countProcessMin.getD N) } := by
  rw [countProcessOption] at hr
  split at hr
  · cases hr
  · rename_i x hx
    obtain ⟨c, hc, hr⟩ := bind_eq_ok hr
    simp only at hr
    split at hr
    · rename_i hle
      cases hr
      exact ⟨c, hx.trans (congrArg some (orRaised_ok hc)), hle, rfl⟩
    · cases hr

theorem countMin_ok {t : Term F} (hr : countProcessOption A N (.countMin t) s = .ok s') :
    ∃ d, countMinOf A N t = some (.ok d) ∧ d ≤ s.countProcessMax.getD N ∧
      s' = { s with countProcessMax := some (s.countProcessMax.getD N), countProcessMin := some d } := by
  rw [countProcessOption] at hr
  split at hr
  · cases hr
  · rename_i x hx
    obtain ⟨d, hd, hr⟩ := bind_eq_ok hr
    simp only at hr
    split at hr
    · rename_i hle
      cases hr
      exact ⟨d, hx.trans (congrArg some (orRaised_ok hd)), hle, rfl⟩
    · cases hr

theorem period_ok {t : Term F} (hr : countProcessOption A N (.period t) s = .ok s') :
    ∃ n, (0 < n ∧ n ≤ 4294967) ∧ s' = { s with period := some n } := by
  rw [countProcessOption] at hr
  split at hr
  · cases hr
  · rename_i n hn
    cases hr
    exact ⟨n, periodOf_some hn, rfl⟩

theorem countProcessOption_inv (hN : 0 < N) {o : CountProcessOption F} (h : s.Inv A)
    (hr : countProcessOption A N o s = .ok s') : s'.Inv A := by
  cases o with
  | rateRequestMax t =>
    obtain ⟨a, b, -, ha, hb, -, rfl⟩ := rateRequestMax_ok hr
    exact h.setRates ha hb
  | rateRequestMin t =>
    obtain ⟨a, b, -, hb, hle, rfl⟩ := rateRequestMin_ok hr
    exact h.setRates (hb.trans_le hle) hle
  | countMax t =>
    obtain ⟨c, -, -, rfl⟩ := countMax_ok hr
    refine h.setCounts c ?_
    cases hd : s.countProcessMin with
    | none => exact Int.natCast_pos.mpr hN
    | some d => exact h.countMin d hd
  | countMin t =>
    obtain ⟨d, hd, -, rfl⟩ := countMin_ok hr
    exact h.setCounts _ (countMinOf_pos hd rfl)
  | period t =>
    obtain ⟨n, hn, rfl⟩ := period_ok hr
    refine ⟨fun m hm => ?_, h.rates, h.rate, h.countMin, h.zero, h.terminate⟩
    cases hm
    exact hn
  | other => cases hr

theorem CountProcessDynamic.inv_init : ({} : CountProcessDynamic F).Inv A where
  period _ h := by cases h
  rates := Iff.rfl
  rate _ _ h := by cases h
  countMin _ h := by cases h
  zero := rfl
  terminate := rfl

theorem countProcessDone_ok (hr : countProcessDone A N s = .ok s') : ∃ c d,
    (s.countProcessMax = some c ∨ (s.countProcessMax = none ∧ countMaxDefault A N = .ok c)) ∧
    (s.countProcessMin = some d ∨ (s.countProcessMin = none ∧ countMinDefault A N = .ok d)) ∧
    A.numberValue (s.rateMin.getD (.integer 100)) ≠ A.numberValue (s.rateMax.getD (.integer 1000)) ∧ d ≠ c ∧
    s' = ⟨some (s.method.getD .rateRequest), some (s.period.getD 5), s.count, some (s.rateMax.getD (.integer 1000)),
      some (s.rateMin.getD (.integer 100)), some c, some d, s.terminate⟩ := by
  obtain ⟨c, hc, hr⟩ := bind_eq_ok hr
  obtain ⟨d, hd, hr⟩ := bind_eq_ok hr
  split at hr
  · cases hr
  · rename_i hrate
    split at hr
    · cases hr
    · rename_i hcount
      cases hr
      exact ⟨c, d, (elim_ok hc).imp_right fun h => ⟨h.1, orRaised_ok h.2⟩,
        (elim_ok hd).imp_right fun h => ⟨h.1, orRaised_ok h.2⟩, hrate, hcount, rfl⟩

theorem countProcessDone_accepted (h : s.Inv A) (hr : countProcessDone A N s = .ok s') :
    ∃ n a b c d, s' = countProcessRecord n a b c d ∧ AcceptedCounts A n a b c d := by
  obtain ⟨c, d, -, hd, hrate, hcount, rfl⟩ := countProcessDone_ok hr
  have hm : s.method.getD .rateRequest = .rateRequest := by cases s.method.getD .rateRequest; rfl
  refine ⟨_, _, _, c, d, by rw [hm, h.zero, h.terminate]; rfl, ?_, ?_, ?_, hcount, ?_⟩
  · cases hn : s.period with
    | none => decide
    | some n => exact h.period n hn
  · cases ha : s.rateMax with
    | none => simp [FloatArithmetic.numberValue]
    | some a =>
      obtain ⟨b, hb⟩ := Option.ne_none_iff_exists'.mp fun hn => Option.some_ne_none a (ha ▸ h.rates.mpr hn)
      exact (h.rate a b ha hb).1
  · refine lt_of_le_of_ne ?_ hrate
    cases ha : s.rateMax with
    | none =>
      rw [h.rates.mp ha]
      norm_num [FloatArithmetic.numberValue]
    | some a =>
      obtain ⟨b, hb⟩ := Option.ne_none_iff_exists'.mp fun hn => Option.some_ne_none a (ha ▸ h.rates.mpr hn)
      rw [hb]
      exact (h.rate a b ha hb).2
  · rcases hd with hd | ⟨-, hd⟩
    · exact h.countMin d hd
    · obtain ⟨x, -, hd⟩ := bind_eq_ok hd
      exact max_one_pos hd

theorem countProcessValidateLoop_accepted (hN : 0 < N) {Options : List (CountProcessOption F)} (h : s.Inv A)
    (hr : countProcessValidateLoop A N Options s = .ok s') :
    ∃ n a b c d, s' = countProcessRecord n a b c d ∧ AcceptedCounts A n a b c d := by
  induction Options generalizing s with
  | nil => exact countProcessDone_accepted h hr
  | cons o Options ih =>
    obtain ⟨s₁, ho, hr⟩ := bind_eq_ok hr
    exact ih (countProcessOption_inv hN h ho) hr

/-- The format of an accepted record is valid exactly when the lower rate is
positive and the counts are on their sides of the count of processes. -/
theorem countProcess_format {n : ℕ} {a b : Number F} {c d : ℤ} (h : AcceptedCounts A n a b c d) :
    ∃ Options, countProcessFormatList (countProcessRecord n a b c d) = .ok Options ∧
      (countProcessValidateLoop A N Options {} = .ok (countProcessRecord n a b c d) ↔
        0 < A.numberValue b ∧ N ≤ c ∧ d ≤ N) := by
  refine ⟨_, rfl, fun hr => ?_, fun ⟨hb, hc, hd⟩ => ?_⟩
  · obtain ⟨s₁, -, hr⟩ := bind_eq_ok hr
    obtain ⟨s₂, -, hr⟩ := bind_eq_ok hr
    obtain ⟨s₃, h₃, hr⟩ := bind_eq_ok hr
    obtain ⟨s₄, h₄, hr⟩ := bind_eq_ok hr
    obtain ⟨s₅, h₅, -⟩ := bind_eq_ok hr
    obtain ⟨-, b', hb', hpos, -⟩ := rateRequestMin_ok h₃
    cases hb'
    obtain ⟨c', hc', -⟩ := countMax_ok h₄
    obtain ⟨d', hd', -⟩ := countMin_ok h₅
    rw [countMaxOf] at hc'
    rw [countMinOf] at hd'
    split at hc'
    · rename_i hc
      split at hd'
      · rename_i hd
        exact ⟨hpos, hc, hd.2⟩
      · cases hd'
    · cases hc'
  · have hperiod : countProcessOption A N (.period (.number (.integer n))) {} =
        .ok { ({} : CountProcessDynamic F) with period := some n } := by
      rw [countProcessOption, periodOf_format h.period.1 h.period.2]
    obtain ⟨b', hb', hle⟩ := FloatArithmetic.add_neg h.rate (k := 10) (by norm_num)
    have hmax : countProcessOption A N (.rateRequestMax (.number a)) { period := some n } =
        .ok { method := some .rateRequest, period := some n, rateMax := some a, rateMin := some b' } := by
      have hadd : (orRaised (A.add a (-10)) : Except (CountProcessError F) (Number F)) = .ok b' := congrArg orRaised hb'
      rw [countProcessOption, rateOf, if_pos h.rate]
      exact (bind_ok hadd _).trans (if_pos hle)
    have hmin : countProcessOption A N (.rateRequestMin (.number b))
        { method := some .rateRequest, period := some n, rateMax := some a, rateMin := some b' } =
        .ok { method := some .rateRequest, period := some n, rateMax := some a, rateMin := some b } := by
      rw [countProcessOption, rateOf, if_pos hb]
      exact if_pos h.rates.le
    have hcmax : countProcessOption A N (.countMax (.number (.integer c)))
        { method := some .rateRequest, period := some n, rateMax := some a, rateMin := some b } =
        .ok { method := some .rateRequest, period := some n, rateMax := some a, rateMin := some b
              countProcessMax := some c, countProcessMin := some (N : ℤ) } := by
      rw [countProcessOption, countMaxOf, if_pos hc]
      exact if_pos hc
    have hcmin : countProcessOption A N (.countMin (.number (.integer d)))
        { method := some .rateRequest, period := some n, rateMax := some a, rateMin := some b
          countProcessMax := some c, countProcessMin := some (N : ℤ) } =
        .ok (countProcessRecord n a b c d) := by
      rw [countProcessOption, countMinOf, if_pos ⟨h.countMin, hd⟩]
      exact if_pos (hd.trans hc)
    rw [countProcessValidateLoop, bind_ok hperiod, countProcessValidateLoop, bind_ok hmax, countProcessValidateLoop,
      bind_ok hmin, countProcessValidateLoop, bind_ok hcmax, countProcessValidateLoop, bind_ok hcmin]
    exact (if_neg h.rates.ne).trans (if_neg h.counts)

/-! ## What the options give -/

def rateMaxTerm : CountProcessOption F → Option (Term F)
  | .rateRequestMax t => some t
  | _ => none

def rateMinTerm : CountProcessOption F → Option (Term F)
  | .rateRequestMin t => some t
  | _ => none

def countMaxTerm : CountProcessOption F → Option (Term F)
  | .countMax t => some t
  | _ => none

def countMinTerm : CountProcessOption F → Option (Term F)
  | .countMin t => some t
  | _ => none

/-- The last option of a kind decides. -/
def lastOf (term : CountProcessOption F → Option (Term F)) (Options : List (CountProcessOption F)) : Option (Term F) :=
  Options.reverse.findSome? term

variable (A) in
/-- The lower rate: the last that is given, that of the state, what is less
than the first upper rate, or the default. -/
def GivenRate (last first : Option (Term F)) (RateMin : Option (Number F)) (b : Number F) : Prop :=
  match last with
  | some t => rateOf A t = some b
  | none =>
    match RateMin with
    | some b' => b = b'
    | none =>
      match first with
      | some t => ∃ a, t = .number a ∧ A.add a (-10) = .ok b
      | none => b = .integer 100

variable (N) in
/-- A count: the last that is given, that of the state, the count of processes
when only the other is given, or the default. -/
def GivenCount (countOf : Term F → Option (Except Exn ℤ)) (this other : Option (Term F)) (Default : Except Exn ℤ)
    (Count : Option ℤ) (c : ℤ) : Prop :=
  match this with
  | some t => countOf t = some (.ok c)
  | none =>
    match Count with
    | some c' => c = c'
    | none => if other = none then Default = .ok c else c = N

section

variable {term : CountProcessOption F → Option (Term F)} {o : CountProcessOption F}
  {Options : List (CountProcessOption F)}

theorem lastOf_cons : lastOf term (o :: Options) = (lastOf term Options).or (term o) := by
  rw [lastOf, List.reverse_cons, List.findSome?_append, List.findSome?_singleton]
  rfl

variable {countOf : Term F → Option (Except Exn ℤ)} {this other : Option (Term F)} {Default : Except Exn ℤ} {t : Term F}
  {c m : ℤ} {Count : Option ℤ}

theorem GivenCount.given (hm : countOf t = some (.ok m)) (h : GivenCount N countOf this other Default (some m) c) :
    GivenCount N countOf (this.or (some t)) other Default Count c := by
  cases this with
  | some u => exact h
  | none =>
    obtain rfl : c = m := h
    exact hm

theorem GivenCount.derived (h : GivenCount N countOf this other Default (some (Count.getD N)) c) :
    GivenCount N countOf this (other.or (some t)) Default Count c := by
  cases this with
  | some u => exact h
  | none =>
    cases Count with
    | some c' => exact h
    | none =>
      cases other with
      | none => exact h
      | some u => exact h

end

theorem GivenRate.given {last first first' : Option (Term F)} {t : Term F} {b b' : Number F}
    {RateMin : Option (Number F)}
    (hb : rateOf A t = some b') (h : GivenRate A last first (some b') b) :
    GivenRate A (last.or (some t)) first' RateMin b := by
  cases last with
  | some u => exact h
  | none =>
    obtain rfl : b = b' := h
    exact hb

/-- The rates and the counts that accepted options leave. -/
theorem countProcessValidateLoop_given {Options : List (CountProcessOption F)} {n : ℕ} {a b : Number F} {c d : ℤ}
    (h : s.Inv A) (hN : 0 < N) (hr : countProcessValidateLoop A N Options s = .ok (countProcessRecord n a b c d)) :
    GivenRate A (lastOf rateMinTerm Options) (Options.findSome? rateMaxTerm) s.rateMin b ∧
      GivenCount N (countMaxOf A N) (lastOf countMaxTerm Options) (lastOf countMinTerm Options) (countMaxDefault A N)
        s.countProcessMax c ∧
      GivenCount N (countMinOf A N) (lastOf countMinTerm Options) (lastOf countMaxTerm Options) (countMinDefault A N)
        s.countProcessMin d := by
  induction Options generalizing s with
  | nil =>
    obtain ⟨c', d', hc, hd, -, -, he⟩ := countProcessDone_ok hr
    have hb : b = s.rateMin.getD (.integer 100) := Option.some.inj (congrArg CountProcessDynamic.rateMin he)
    obtain rfl : c = c' := Option.some.inj (congrArg CountProcessDynamic.countProcessMax he)
    obtain rfl : d = d' := Option.some.inj (congrArg CountProcessDynamic.countProcessMin he)
    refine ⟨?_, ?_, ?_⟩
    · cases hs : s.rateMin with
      | none =>
        rw [hs] at hb
        exact hb
      | some b' =>
        rw [hs] at hb
        exact hb
    · rcases hc with hc | ⟨hn, hc⟩
      · rw [hc]
        exact rfl
      · rw [hn]
        exact hc
    · rcases hd with hd | ⟨hn, hd⟩
      · rw [hd]
        exact rfl
      · rw [hn]
        exact hd
  | cons o Options ih =>
    obtain ⟨s₁, ho, hr⟩ := bind_eq_ok hr
    obtain ⟨hrate, hmax, hmin⟩ := ih (countProcessOption_inv hN h ho) hr
    rw [lastOf_cons, lastOf_cons, lastOf_cons]
    cases o with
    | rateRequestMax t =>
      obtain ⟨a', b', rfl, ha, -, hb, rfl⟩ := rateRequestMax_ok ho
      simp only [countMaxTerm, countMinTerm, rateMinTerm, Option.or_none]
      refine ⟨?_, hmax, hmin⟩
      cases hl : lastOf rateMinTerm Options with
      | some u => rwa [hl] at hrate
      | none =>
        rw [hl] at hrate
        obtain rfl : b = b' := hrate
        rcases hb with hb | ⟨hn, hb⟩
        · rw [hb]
          exact rfl
        · rw [hn]
          exact ⟨a', rfl, hb⟩
    | rateRequestMin t =>
      obtain ⟨a', b', rfl, hb, -, rfl⟩ := rateRequestMin_ok ho
      simp only [countMaxTerm, countMinTerm, rateMinTerm, Option.or_none]
      exact ⟨GivenRate.given (if_pos hb) hrate, hmax, hmin⟩
    | countMax t =>
      obtain ⟨c', hc, -, rfl⟩ := countMax_ok ho
      simp only [countMaxTerm, countMinTerm, rateMinTerm, Option.or_none]
      exact ⟨hrate, GivenCount.given hc hmax, GivenCount.derived hmin⟩
    | countMin t =>
      obtain ⟨d', hd, -, rfl⟩ := countMin_ok ho
      simp only [countMaxTerm, countMinTerm, rateMinTerm, Option.or_none]
      exact ⟨hrate, GivenCount.derived hmax, GivenCount.given hd hmin⟩
    | period t =>
      obtain ⟨n', -, rfl⟩ := period_ok ho
      simp only [countMaxTerm, countMinTerm, rateMinTerm, Option.or_none]
      exact ⟨hrate, hmax, hmin⟩
    | other => cases ho

/-! ## What is valid again -/

variable (A) in
/-- The lower rate is given, or what is less than the first upper rate is positive. -/
def RatesKept (Options : List (CountProcessOption F)) : Prop :=
  lastOf rateMinTerm Options ≠ none ∨
    ∀ a b, Options.findSome? rateMaxTerm = some (.number a) → A.add a (-10) = .ok b → 0 < A.numberValue b

variable (A N) in
/-- The upper count that is given, or else the default when no count is given,
is not rounded below the count of processes, and the lower count not above it. -/
structure CountsKept (Options : List (CountProcessOption F)) : Prop where
  countMax : ∀ t c, lastOf countMaxTerm Options = some t → countMaxOf A N t = some (.ok c) → N ≤ c
  countMin : ∀ t d, lastOf countMinTerm Options = some t → countMinOf A N t = some (.ok d) → d ≤ N
  default : lastOf countMaxTerm Options = none → lastOf countMinTerm Options = none →
    (∀ c, countMaxDefault A N = .ok c → N ≤ c) ∧ ∀ d, countMinDefault A N = .ok d → d ≤ N

theorem GivenRate.pos_iff {Options : List (CountProcessOption F)} {b : Number F}
    (h : GivenRate A (lastOf rateMinTerm Options) (Options.findSome? rateMaxTerm) none b) :
    0 < A.numberValue b ↔ RatesKept A Options := by
  rw [RatesKept]
  cases hl : lastOf rateMinTerm Options with
  | some t =>
    rw [hl] at h
    exact iff_of_true (rateOf_some h).2 (.inl (Option.some_ne_none t))
  | none =>
    rw [hl] at h
    cases hf : Options.findSome? rateMaxTerm with
    | some t =>
      rw [hf] at h
      obtain ⟨a, rfl, hb⟩ := h
      refine ⟨fun hpos => .inr fun a' b' ha' hb' => ?_, fun hk => ?_⟩
      · cases ha'
        cases hb.symm.trans hb'
        exact hpos
      · exact (hk.resolve_left fun hn => hn rfl) a b rfl hb
    | none =>
      rw [hf] at h
      obtain rfl : b = .integer 100 := h
      exact iff_of_true (by norm_num [FloatArithmetic.numberValue]) (.inr fun _ _ hn => by cases hn)

theorem GivenCount.iff {Options : List (CountProcessOption F)} {c d : ℤ}
    (hc : GivenCount N (countMaxOf A N) (lastOf countMaxTerm Options) (lastOf countMinTerm Options)
      (countMaxDefault A N)
      none c)
    (hd : GivenCount N (countMinOf A N) (lastOf countMinTerm Options) (lastOf countMaxTerm Options)
      (countMinDefault A N)
      none d) : (N ≤ c ∧ d ≤ N) ↔ CountsKept A N Options := by
  refine ⟨fun ⟨hNc, hdN⟩ => ⟨fun t c' ht hc' => ?_, fun t d' ht hd' => ?_, fun hmax hmin => ?_⟩, fun h => ⟨?_, ?_⟩⟩
  · rw [ht] at hc
    cases hc.symm.trans hc'
    exact hNc
  · rw [ht] at hd
    cases hd.symm.trans hd'
    exact hdN
  · rw [hmax, hmin] at hc hd
    refine ⟨fun c' hc' => ?_, fun d' hd' => ?_⟩
    · cases hc.symm.trans hc'
      exact hNc
    · cases hd.symm.trans hd'
      exact hdN
  · cases hmax : lastOf countMaxTerm Options with
    | some t =>
      rw [hmax] at hc
      exact h.countMax t c hmax hc
    | none =>
      cases hmin : lastOf countMinTerm Options with
      | some t =>
        rw [hmax, hmin] at hc
        exact le_of_eq (Eq.symm hc)
      | none =>
        rw [hmax, hmin] at hc
        exact (h.default hmax hmin).1 c hc
  · cases hmin : lastOf countMinTerm Options with
    | some t =>
      rw [hmin] at hd
      exact h.countMin t d hmin hd
    | none =>
      cases hmax : lastOf countMaxTerm Options with
      | some t =>
        rw [hmax, hmin] at hd
        exact le_of_eq hd
      | none =>
        rw [hmax, hmin] at hd
        exact (h.default hmax hmin).2 d hd

/-- A float times a small count of processes is not rounded beyond it. -/
theorem countsKept (h0 : 0 < N) (hN : N ≤ 2 ^ 53) (Options : List (CountProcessOption F)) : CountsKept A N Options where
  countMax t c _ hc := by
    unfold countMaxOf at hc
    split at hc
    · split at hc
      · rename_i x hx
        obtain ⟨z, hz, hr⟩ := map_eq_ok (Option.some.inj hc)
        exact hr ▸ FloatArithmetic.le_scale hN hx hz
      · cases hc
    · split at hc
      · rename_i n hn
        cases hc
        exact hn
      · cases hc
    · cases hc
  countMin t d _ hd := by
    unfold countMinOf at hd
    split at hd
    · split at hd
      · rename_i x hx
        obtain ⟨m, hm, rfl⟩ := map_eq_ok (Option.some.inj hd)
        obtain ⟨z, hz, rfl⟩ := map_eq_ok hm
        exact max_le (by omega) (FloatArithmetic.scale_le hN hx.1.le hx.2 hz)
      · cases hd
    · split at hd
      · rename_i n hn
        cases hd
        exact hn.2
      · cases hd
    · cases hd
  default _ _ := by
    refine ⟨fun c hc => ?_, fun d hd => ?_⟩
    · obtain ⟨x, hx, hc⟩ := bind_eq_ok hc
      obtain ⟨z, hz, rfl⟩ := map_eq_ok hc
      obtain ⟨y, hy, hv⟩ := A.int 1 (by norm_num)
      refine FloatArithmetic.le_scale hN ?_ hz
      have hle := FloatArithmetic.le_value_of_le (FloatArithmetic.toFloat_ok.mp hx) (y := y) (by rw [hv]; norm_num)
      rwa [hv, Int.cast_one] at hle
    · obtain ⟨x, hx, hd⟩ := bind_eq_ok hd
      obtain ⟨m, hm, rfl⟩ := map_eq_ok hd
      obtain ⟨z, hz, rfl⟩ := map_eq_ok hm
      obtain ⟨o, ho, hvo⟩ := A.int 0 (by norm_num)
      obtain ⟨y, hy, hv⟩ := A.int 1 (by norm_num)
      have hle := FloatArithmetic.value_le_of_le (FloatArithmetic.toFloat_ok.mp hx) (y := y) (by rw [hv]; norm_num)
      have hge := FloatArithmetic.le_value_of_le (FloatArithmetic.toFloat_ok.mp hx) (y := o) (by rw [hvo]; norm_num)
      rw [hv, Int.cast_one] at hle
      rw [hvo, Int.cast_zero] at hge
      exact max_le (by omega) (FloatArithmetic.scale_le hN hge hle hz)

theorem floor_pos {q : ℚ} (h : 1 ≤ q) : 0 < floor q := by
  have htrunc : erlangTrunc q = ⌊q⌋ := if_pos (by linarith)
  rw [floor, htrunc, if_neg (not_lt.mpr (Int.floor_le q))]
  exact Int.floor_pos.mpr h

theorem concurrencyCount_pos {schedulers : ℕ} (hs : 0 < schedulers) {CountProcess : Number F}
    (h : concurrencyCount A schedulers CountProcess = .ok N) : 0 < N := by
  unfold concurrencyCount at h
  split at h
  · split at h
    · cases h
      omega
    · cases h
  · split at h
    · rename_i hI
      obtain ⟨z, hz, rfl⟩ := map_eq_ok h
      exact Int.lt_toNat.mpr (floor_pos (FloatArithmetic.one_le_scale hs hI.le hz))
    · split at h
      · obtain ⟨z, hz, rfl⟩ := map_eq_ok h
        exact Int.lt_toNat.mpr (lt_of_lt_of_le one_pos (le_max_left 1 _))
      · split at h
        · cases h
          exact hs
        · cases h

variable (A) in
/-- The format of what the options leave is valid again. -/
def FormatKept (schedulers : ℕ) (Options : Option (List (CountProcessOption F))) (CountProcess : Number F) : Prop :=
  ∀ L N, Options = some L → concurrencyCount A schedulers CountProcess = .ok N → RatesKept A L ∧ CountsKept A N L

theorem countProcessValidate_format {schedulers : ℕ} (hs : 0 < schedulers) {CountProcess : Number F}
    {Options : Option (List (CountProcessOption F))} {s : Option (CountProcessDynamic F)}
    (h : countProcessValidate A schedulers Options CountProcess = .ok s) :
    (∃ formatted, countProcessFormat s = .ok formatted ∧
      countProcessValidate A schedulers formatted CountProcess = .ok s) ↔
          FormatKept A schedulers Options CountProcess := by
  cases Options with
  | none =>
    cases h
    exact iff_of_true ⟨none, rfl, rfl⟩ fun L N hL => by cases hL
  | some L =>
    obtain ⟨N, hN, h⟩ := bind_eq_ok h
    have hN := orRaised_ok hN
    obtain ⟨s', hs', rfl⟩ := map_eq_ok h
    have hpos := concurrencyCount_pos hs hN
    obtain ⟨n, a, b, c, d, rfl, haccepted⟩ :=
      countProcessValidateLoop_accepted hpos CountProcessDynamic.inv_init hs'
    obtain ⟨hrate, hmax, hmin⟩ := countProcessValidateLoop_given CountProcessDynamic.inv_init hpos hs'
    obtain ⟨formatted, hf, hiff⟩ := countProcess_format (N := N) haccepted
    have hkept : (0 < A.numberValue b ∧ N ≤ c ∧ d ≤ N) ↔ RatesKept A L ∧ CountsKept A N L :=
      and_congr hrate.pos_iff (GivenCount.iff hmax hmin)
    have hcount : (orRaised (concurrencyCount A schedulers CountProcess) : Except (CountProcessError F) ℕ) = .ok N :=
      congrArg orRaised hN
    have hvalid : (∃ f, countProcessFormat (some (countProcessRecord n a b c d)) = .ok f ∧
        countProcessValidate A schedulers f CountProcess = .ok (some (countProcessRecord n a b c d))) ↔
        countProcessValidateLoop A N formatted {} = .ok (countProcessRecord n a b c d) := by
      rw [countProcessFormat, hf]
      constructor
      · rintro ⟨f, hf', hv⟩
        cases hf'
        obtain ⟨N', hN', hv⟩ := bind_eq_ok hv
        cases hcount.symm.trans hN'
        obtain ⟨r, hr, he⟩ := map_eq_ok hv
        cases he
        exact hr
      · intro hv
        refine ⟨some formatted, rfl, (bind_ok hcount _).trans ?_⟩
        rw [hv]
        rfl
    rw [hvalid, hiff, hkept]
    refine ⟨fun hk L' N' hL' hN' => ?_, fun hk => hk L N rfl hN⟩
    cases hL'
    cases hN.symm.trans hN'
    exact hk

theorem restartDelay_format {Options : Option (List RestartDelayOption)} {s : Option RestartDelayState}
    (h : restartDelayValidate Options = .ok s) :
    ∃ formatted, restartDelayFormat s = .ok formatted ∧ restartDelayValidate formatted = .ok s := by
  cases Options with
  | none =>
    cases h
    exact ⟨none, rfl, rfl⟩
  | some L =>
    obtain ⟨s', hs', rfl⟩ := map_eq_ok h
    obtain ⟨formatted, hf, hv⟩ :=
      restartDelayValidate_format (restartDelayValidateLoop_accepted RestartDelayState.inv_init hs')
    refine ⟨some formatted, ?_, ?_⟩
    · rw [restartDelayFormat, hf]
      rfl
    · rw [restartDelayValidate, hv]
      rfl

/-- The formats of `hibernate`, `restart_delay` and `rate_request_max` lead to
the same state again. That of `count_process_dynamic` does when the rates and
the counts are kept. -/
theorem format_validates (A : FloatArithmetic F) {schedulers : ℕ} (hs : 0 < schedulers) :
    (∀ Options s, hibernateValidate A Options = .ok s →
      ∃ formatted, hibernateFormat s = .ok formatted ∧ hibernateValidate A formatted = .ok s) ∧
    (∀ Options s, restartDelayValidate Options = .ok s →
      ∃ formatted, restartDelayFormat s = .ok formatted ∧ restartDelayValidate formatted = .ok s) ∧
    (∀ Value s, rateRequestValidate A Value = .ok s →
      ∃ formatted, rateRequestFormat s = .ok formatted ∧ rateRequestValidate A formatted = .ok s) ∧
    ∀ Options CountProcess s, countProcessValidate A schedulers Options CountProcess = .ok s →
      ((∃ formatted, countProcessFormat s = .ok formatted ∧
        countProcessValidate A schedulers formatted CountProcess = .ok s) ↔
      FormatKept A schedulers Options CountProcess) :=
  ⟨fun _ _ => hibernate_format A, fun _ _ => restartDelay_format, fun _ _ => rateRequest_format A,
    fun _ _ _ => countProcessValidate_format hs⟩

/-- An upper rate alone, for two processes. -/
theorem rateRequestMax_alone {M : ℤ} (hM : 0 < M) :
    countProcessValidate exactFloats 1 (some [.rateRequestMax (.number (.integer M))]) (.integer 2) =
      .ok (some (countProcessRecord 5 (.integer M) (.integer (M + -10)) 8 1)) := by
  have hpos : 0 < exactFloats.numberValue (.integer M) := by
    rw [FloatArithmetic.numberValue]
    exact_mod_cast hM
  have hlt : exactFloats.numberValue (.integer (M + -10)) < exactFloats.numberValue (.integer M) := by
    simp [FloatArithmetic.numberValue]
  have ho : countProcessOption exactFloats 2 (.rateRequestMax (.number (.integer M))) {} =
      .ok { method := some .rateRequest, rateMax := some (.integer M), rateMin := some (.integer (M + -10)) } := by
    rw [countProcessOption, rateOf, if_pos hpos]
    exact if_pos hlt.le
  have hmax : countMaxDefault exactFloats 2 = .ok 8 := by
    have h8 : erlangRound (4 * 2) = 8 := by
      rw [show (4 * 2 : ℚ) = ((8 : ℕ) : ℚ) by norm_num, erlangRound_natCast]
      rfl
    exact congrArg Except.ok h8
  have hmin : countMinDefault exactFloats 2 = .ok 1 := by
    have h1 : max 1 (erlangRound (1 / 2 * 2)) = 1 := by
      rw [show (1 / 2 * 2 : ℚ) = ((1 : ℕ) : ℚ) by norm_num, erlangRound_natCast]
      rfl
    exact congrArg Except.ok h1
  have hdone : countProcessDone exactFloats 2
      { method := some .rateRequest, rateMax := some (.integer M), rateMin := some (.integer (M + -10)) } =
      .ok (countProcessRecord 5 (.integer M) (.integer (M + -10)) 8 1) := by
    rw [countProcessDone, Option.elim_none, Option.elim_none, hmax, hmin]
    exact (if_neg hlt.ne).trans (if_neg (by decide))
  have hloop : countProcessValidateLoop exactFloats 2 [.rateRequestMax (.number (.integer M))] {} =
      .ok (countProcessRecord 5 (.integer M) (.integer (M + -10)) 8 1) := by
    rw [countProcessValidateLoop, bind_ok ho, countProcessValidateLoop, hdone]
  rw [countProcessValidate]
  exact (bind_ok rfl _).trans (congrArg (Except.map some) hloop)

/-- An upper rate of 500 for two processes. -/
theorem format_validates_max : ∃ s formatted,
    countProcessValidate exactFloats 1 (some [.rateRequestMax (.number (.integer 500))]) (.integer 2) = .ok s ∧
      countProcessFormat s = .ok formatted ∧
      countProcessValidate exactFloats 1 formatted (.integer 2) = .ok s := by
  have h := rateRequestMax_alone (M := 500) (by norm_num)
  have hkept : FormatKept exactFloats 1 (some [.rateRequestMax (.number (.integer 500))]) (.integer 2) := by
    intro L N hL hN
    cases hL
    cases hN
    refine ⟨.inr fun a b ha hb => ?_, countsKept two_pos (by norm_num) _⟩
    cases ha
    cases hb
    norm_num [FloatArithmetic.numberValue]
  obtain ⟨formatted, hf, hv⟩ := ((format_validates exactFloats one_pos).2.2.2 _ _ _ h).mpr hkept
  exact ⟨_, formatted, h, hf, hv⟩

/-- The lower rate of `-5` that comes with an upper rate of 5 is formatted,
and is not a valid lower rate. -/
theorem format_validates_negative : ¬ ∀ Options CountProcess s,
    countProcessValidate exactFloats 1 Options CountProcess = .ok s →
      ∃ formatted, countProcessFormat s = .ok formatted ∧
        countProcessValidate exactFloats 1 formatted CountProcess = .ok s := by
  intro hall
  have h := rateRequestMax_alone (M := 5) (by norm_num)
  have hkept := (countProcessValidate_format one_pos h).mp (hall _ _ _ h)
  have hpos := (hkept _ 2 rfl rfl).1.resolve_left (fun hn => hn rfl) (.integer 5) _ rfl rfl
  norm_num [FloatArithmetic.numberValue] at hpos

end CloudI.Configurator
