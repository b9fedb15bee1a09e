import Mathlib.Order.MinMax
import Mathlib.Order.Monotone.Basic
import CloudI.Monitor.RestartIntensity

/-!
# The options of the delay before a restart

`restart_delay_validate/1` takes the options in the order in which they are
given; `Accepted` says what it can leave, `restart_delay_format` gives options
that lead to the same state again (`restartDelayValidate_format`), and
`restart_delay_bounded` is what the monitor relies on.
-/

namespace CloudI.Configurator

open Monitor

/-- A term that is given for a limit. -/
inductive Limit where
  | integer (n : Int)
  | limitMin
  | limitMax
  | other
deriving DecidableEq

/-- The guard of an option, and `?LIMIT_ASSIGN` -/
def limitAssign (Min Max : Nat) : Limit → Option Nat
  | .integer n => if Min ≤ n ∧ n ≤ Max then some n.toNat else none
  | .limitMin => some Min
  | .limitMax => some Max
  | .other => none

/-- `?LIMIT_FORMAT` -/
def limitFormat (Value Min Max : Nat) : Limit :=
  if Value = Min then .limitMin else if Value = Max then .limitMax else .integer Value

inductive RestartDelayOption where
  | timeExponentialMin (TimeMin : Limit)
  | timeExponentialMax (TimeMax : Limit)
  | timeLinearSlope (TimeSlope : Limit)
  | timeLinearMin (TimeMin : Limit)
  | timeLinearMax (TimeMax : Limit)
  | timeAbsolute (TimeValue : Limit)
  | other

/-- What is wrong with the options: one of them, or that `time_absolute` is not used. -/
inductive RestartDelayError where
  | option (Invalid : RestartDelayOption)
  | timeAbsolute
  | raised (e : Exn)

/-- The record `restart_delay`. -/
structure RestartDelayState where
  method : Option RestartDelayMethod := none
  timeMin : Option Nat := none
  timeMax : Option Nat := none
  timeSlope : Option Nat := none
deriving DecidableEq

/-- An option belongs to the method that the options before it chose. -/
def RestartDelayState.Fits (s : RestartDelayState) (m : RestartDelayMethod) : Prop :=
  s.method = none ∨ s.method = some m

instance (s : RestartDelayState) (m : RestartDelayMethod) : Decidable (s.Fits m) :=
  inferInstanceAs (Decidable (_ ∨ _))

/-- `time_exponential_min` and `time_linear_min` -/
def timeMinOption (m : RestartDelayMethod) (Min TimeMaxDefault : Nat) (Option : RestartDelayOption) (TimeMin : Limit)
    (s : RestartDelayState) : Except RestartDelayError RestartDelayState :=
  if s.Fits m then
    match limitAssign Min TIMEOUT_MAX_ERLANG TimeMin with
    | some NewTimeMin =>
      let NewTimeMax := s.timeMax.getD (max NewTimeMin TimeMaxDefault)
      if NewTimeMin ≤ NewTimeMax then
        .ok { s with method := some m, timeMin := some NewTimeMin, timeMax := some NewTimeMax }
      else .error (.option Option)
    | none => .error (.option Option)
  else .error (.option Option)

/-- `time_exponential_max` and `time_linear_max` -/
def timeMaxOption (m : RestartDelayMethod) (TimeMinDefault : Nat) (Option : RestartDelayOption) (TimeMax : Limit)
    (s : RestartDelayState) : Except RestartDelayError RestartDelayState :=
  if s.Fits m then
    match limitAssign 1 TIMEOUT_MAX_ERLANG TimeMax with
    | some NewTimeMax =>
      let NewTimeMin := s.timeMin.getD (min NewTimeMax TimeMinDefault)
      if NewTimeMin ≤ NewTimeMax then
        .ok { s with method := some m, timeMin := some NewTimeMin, timeMax := some NewTimeMax }
      else .error (.option Option)
    | none => .error (.option Option)
  else .error (.option Option)

/-- One option of `restart_delay_validate/2`. -/
def restartDelayOption (o : RestartDelayOption) (s : RestartDelayState) :
    Except RestartDelayError RestartDelayState :=
  match o with
  | .timeExponentialMin TimeMin => timeMinOption .exponential 1 500 o TimeMin s
  | .timeExponentialMax TimeMax => timeMaxOption .exponential 1 o TimeMax s
  | .timeLinearSlope TimeSlope =>
    match TimeSlope with
    | .integer n =>
      if s.Fits .linear ∧ 1 ≤ n then .ok { s with method := some .linear, timeSlope := some n.toNat }
      else .error (.option o)
    | _ => .error (.option o)
  | .timeLinearMin TimeMin => timeMinOption .linear 0 250 o TimeMin s
  | .timeLinearMax TimeMax => timeMaxOption .linear 0 o TimeMax s
  | .timeAbsolute TimeValue =>
    if s.Fits .absolute then
      match limitAssign 1 TIMEOUT_MAX_ERLANG TimeValue with
      | some NewTimeValue =>
        .ok { s with method := some .absolute, timeMin := some NewTimeValue, timeMax := some NewTimeValue }
      | none => .error (.option o)
    else .error (.option o)
  | .other => .error (.option o)

/-- A time that no option gave, by the method. -/
def timeDefault (Exponential Linear : Nat) : RestartDelayMethod → Except RestartDelayError Nat
  | .exponential => .ok Exponential
  | .linear => .ok Linear
  | .absolute => .error (.raised .ifClause)

/-- `restart_delay_validate/2` with no options left. -/
def restartDelayDone (s : RestartDelayState) : Except RestartDelayError RestartDelayState := do
  let NewMethod := s.method.getD .exponential
  let NewTimeMin ← s.timeMin.elim (timeDefault 1 0 NewMethod) .ok
  let NewTimeMax ← s.timeMax.elim (timeDefault 500 250 NewMethod) .ok
  let NewTimeSlope := if s.timeSlope = none ∧ NewMethod = .linear then some 50 else s.timeSlope
  if (NewMethod = .exponential ∨ NewMethod = .linear) ∧ NewTimeMin = NewTimeMax then .error .timeAbsolute
  else .ok ⟨some NewMethod, some NewTimeMin, some NewTimeMax, NewTimeSlope⟩

/-- `restart_delay_validate/2` -/
def restartDelayValidateLoop : List RestartDelayOption → RestartDelayState →
    Except RestartDelayError RestartDelayState
  | [], s => restartDelayDone s
  | o :: Options, s => do
    let s' ← restartDelayOption o s
    restartDelayValidateLoop Options s'

/-- `restart_delay_validate/1`, with `none` for `false` -/
def restartDelayValidate : Option (List RestartDelayOption) → Except RestartDelayError (Option RestartDelayState)
  | none => .ok none
  | some Options => (restartDelayValidateLoop Options {}).map some

/-- `restart_delay_format/1` of a record -/
def restartDelayFormatList : RestartDelayState → Except Exn (List RestartDelayOption)
  | ⟨some .exponential, some TimeMin, some TimeMax, _⟩ =>
    .ok [.timeExponentialMin (limitFormat TimeMin 1 TIMEOUT_MAX_ERLANG),
      .timeExponentialMax (limitFormat TimeMax 1 TIMEOUT_MAX_ERLANG)]
  | ⟨some .linear, some TimeMin, some TimeMax, some TimeSlope⟩ =>
    .ok [.timeLinearMin (limitFormat TimeMin 0 TIMEOUT_MAX_ERLANG), .timeLinearSlope (.integer TimeSlope),
      .timeLinearMax (limitFormat TimeMax 1 TIMEOUT_MAX_ERLANG)]
  | ⟨some .absolute, some TimeMin, some TimeMax, _⟩ =>
    if TimeMin = TimeMax then .ok [.timeAbsolute (limitFormat TimeMin 1 TIMEOUT_MAX_ERLANG)]
    else .error .functionClause
  | _ => .error .functionClause

/-- `restart_delay_format/1` -/
def restartDelayFormat : Option RestartDelayState → Except Exn (Option (List RestartDelayOption))
  | none => .ok none
  | some s => (restartDelayFormatList s).map some

/-! ## What is accepted -/

/-- What the options leave so far. -/
structure RestartDelayState.Inv (s : RestartDelayState) : Prop where
  both : s.timeMin = none ↔ s.timeMax = none
  bounds : ∀ a b, s.timeMin = some a → s.timeMax = some b → a ≤ b ∧ b ≤ TIMEOUT_MAX_ERLANG ∧
    (s.method = some .exponential → 1 ≤ a) ∧ (s.method = some .absolute → a = b ∧ 1 ≤ a)
  chosen : s.method = none → s = {}
  absolute : s.method = some .absolute → s.timeMin ≠ none
  slope : ∀ k, s.timeSlope = some k → s.method = some .linear ∧ 1 ≤ k

/-- The records that the options can lead to, by the method. -/
inductive Accepted : RestartDelayState → Prop
  | exponential {a b : Nat} : 1 ≤ a → a < b → b ≤ TIMEOUT_MAX_ERLANG →
      Accepted ⟨some .exponential, some a, some b, none⟩
  | linear {a b k : Nat} : a < b → b ≤ TIMEOUT_MAX_ERLANG → 1 ≤ k → Accepted ⟨some .linear, some a, some b, some k⟩
  | absolute {a : Nat} : 1 ≤ a → a ≤ TIMEOUT_MAX_ERLANG → Accepted ⟨some .absolute, some a, some a, none⟩

theorem limitAssign_some {Min n : Nat} {t : Limit} (hMin : Min ≤ TIMEOUT_MAX_ERLANG)
    (h : limitAssign Min TIMEOUT_MAX_ERLANG t = some n) : Min ≤ n ∧ n ≤ TIMEOUT_MAX_ERLANG := by
  cases t with
  | integer m =>
    rw [limitAssign] at h
    split at h
    · cases h
      omega
    · cases h
  | limitMin =>
    cases h
    exact ⟨le_refl _, hMin⟩
  | limitMax =>
    cases h
    exact ⟨hMin, le_refl _⟩
  | other => cases h

/-- A limit that is formatted is assigned again. -/
theorem limitAssign_format {Min Max n : Nat} (hMin : Min ≤ n) (hMax : n ≤ Max) :
    limitAssign Min Max (limitFormat n Min Max) = some n := by
  rw [limitFormat]
  split
  · rename_i h
    rw [limitAssign, h]
  · split
    · rename_i h
      rw [limitAssign, h]
    · rw [limitAssign, if_pos ⟨by omega, by omega⟩, Int.toNat_natCast]

theorem RestartDelayState.inv_init : ({} : RestartDelayState).Inv where
  both := Iff.rfl
  bounds _ _ h := by cases h
  chosen _ := rfl
  absolute h := by cases h
  slope _ h := by cases h

variable {s s' : RestartDelayState} {m : RestartDelayMethod}

/-- The slope of a state that an option of a method without slope fits. -/
theorem RestartDelayState.Inv.slope_none (h : s.Inv) (hm : s.Fits m) (hne : m ≠ .linear) :
    s.timeSlope = none := by
  cases hk : s.timeSlope with
  | none => rfl
  | some k =>
    have hl := (h.slope k hk).1
    rcases hm with hm | hm
    · cases hm.symm.trans hl
    · exact absurd (Option.some.inj (hm.symm.trans hl)) hne

/-- Both times are stored by an option of a method with two times. -/
theorem RestartDelayState.Inv.times (h : s.Inv) (hm : s.Fits m) (hne : m ≠ .absolute)
    {a b : Nat} (hab : a ≤ b) (hb : b ≤ TIMEOUT_MAX_ERLANG) (ha : m = .exponential → 1 ≤ a) :
    ({ s with method := some m, timeMin := some a, timeMax := some b } : RestartDelayState).Inv where
  both := iff_of_false (Option.some_ne_none a) (Option.some_ne_none b)
  bounds a' b' ha' hb' := by
    cases ha'
    cases hb'
    exact ⟨hab, hb, fun he => ha (Option.some.inj he), fun he => absurd (Option.some.inj he) hne⟩
  chosen hn := by cases hn
  absolute _ := Option.some_ne_none a
  slope k hk := by
    obtain ⟨hl, hk'⟩ := h.slope k hk
    rcases hm with hm | hm
    · cases hm.symm.trans hl
    · exact ⟨hm.symm.trans hl, hk'⟩

theorem timeMinOption_inv (h : s.Inv) {Min Default : Nat} {o : RestartDelayOption} {t : Limit}
    (hne : m ≠ .absolute) (hMin : Min ≤ 1) (hexp : m = .exponential → Min = 1) (hDefault : Default ≤ 500)
    (hr : timeMinOption m Min Default o t s = .ok s') : s'.Inv := by
  rw [timeMinOption] at hr
  split at hr
  · rename_i hm
    split at hr
    · rename_i a ha
      simp only at hr
      split at hr
      · rename_i hle
        cases hr
        obtain ⟨ha1, ha2⟩ := limitAssign_some (hMin.trans (by decide)) ha
        refine h.times hm hne hle ?_ fun he => hexp he ▸ ha1
        cases hb : s.timeMax with
        | none =>
          refine max_le ha2 (hDefault.trans (by decide))
        | some b =>
          obtain ⟨a', ha'⟩ := Option.ne_none_iff_exists'.mp fun hn => Option.some_ne_none b (hb ▸ h.both.mp hn)
          exact (h.bounds a' b ha' hb).2.1
      · cases hr
    · cases hr
  · cases hr

theorem timeMaxOption_inv (h : s.Inv) {Default : Nat} {o : RestartDelayOption} {t : Limit}
    (hne : m ≠ .absolute) (hexp : m = .exponential → Default = 1) (hr : timeMaxOption m Default o t s = .ok s') :
    s'.Inv := by
  rw [timeMaxOption] at hr
  split at hr
  · rename_i hm
    split at hr
    · rename_i b hb
      simp only at hr
      split at hr
      · rename_i hle
        cases hr
        obtain ⟨hb1, hb2⟩ := limitAssign_some (by decide) hb
        refine h.times hm hne hle hb2 fun he => ?_
        cases ha : s.timeMin with
        | none =>
          rw [Option.getD_none, hexp he]
          exact le_min hb1 (le_refl 1)
        | some a =>
          obtain ⟨b', hb'⟩ := Option.ne_none_iff_exists'.mp fun hn => Option.some_ne_none a (ha ▸ h.both.mpr hn)
          refine (h.bounds a b' ha hb').2.2.1 ?_
          rcases hm with hm | hm
          · rw [h.chosen hm] at ha
            cases ha
          · rw [hm, he]
      · cases hr
    · cases hr
  · cases hr

theorem restartDelayOption_inv {o : RestartDelayOption} (h : s.Inv) (hr : restartDelayOption o s = .ok s') :
    s'.Inv := by
  cases o with
  | timeExponentialMin t =>
    exact timeMinOption_inv h (by decide) (le_refl 1) (fun _ => rfl) (le_refl 500) hr
  | timeExponentialMax t => exact timeMaxOption_inv h (by decide) (fun _ => rfl) hr
  | timeLinearSlope t =>
    cases t with
    | integer n =>
      rw [restartDelayOption] at hr
      split at hr
      · rename_i hn
        cases hr
        refine ⟨h.both, fun a b ha hb => ?_, (fun hm => by cases hm), (fun hm => by cases hm), fun k hk => ?_⟩
        · obtain ⟨hab, hb', -, -⟩ := h.bounds a b ha hb
          exact ⟨hab, hb', (fun he => by cases he), fun he => by cases he⟩
        · cases hk
          exact ⟨rfl, by omega⟩
      · cases hr
    | _ => cases hr
  | timeLinearMin t => exact timeMinOption_inv h (by decide) (Nat.zero_le 1) (fun he => by cases he) (by decide) hr
  | timeLinearMax t => exact timeMaxOption_inv h (by decide) (fun he => by cases he) hr
  | timeAbsolute t =>
    rw [restartDelayOption] at hr
    split at hr
    · rename_i hm
      split at hr
      · rename_i a ha
        cases hr
        obtain ⟨ha1, ha2⟩ := limitAssign_some (by decide) ha
        refine ⟨iff_of_false (Option.some_ne_none a) (Option.some_ne_none a), fun a' b' ha' hb' => ?_,
          (fun hn => by cases hn), fun _ => Option.some_ne_none a, fun k hk => ?_⟩
        · cases ha'
          cases hb'
          exact ⟨le_refl a, ha2, (fun he => by cases he), fun _ => ⟨rfl, ha1⟩⟩
        · rw [h.slope_none hm (by decide)] at hk
          cases hk
      · cases hr
    · cases hr
  | other => cases hr

theorem timeDefault_ok {Exponential Linear n : Nat} {o : Option Nat}
    (h : o.elim (timeDefault Exponential Linear m) .ok = .ok n) :
    o = some n ∨ (o = none ∧ (m = .exponential ∧ n = Exponential ∨ m = .linear ∧ n = Linear)) := by
  cases o with
  | some k => exact .inl (congrArg some (Except.ok.inj h))
  | none =>
    cases m with
    | exponential => exact .inr ⟨rfl, .inl ⟨rfl, (Except.ok.inj h).symm⟩⟩
    | linear => exact .inr ⟨rfl, .inr ⟨rfl, (Except.ok.inj h).symm⟩⟩
    | absolute => cases h

theorem restartDelayDone_accepted (h : s.Inv) (hr : restartDelayDone s = .ok s') : Accepted s' := by
  obtain ⟨a, ha, hr⟩ := bind_eq_ok hr
  obtain ⟨b, hb, hr⟩ := bind_eq_ok hr
  simp only at hr
  split at hr
  · cases hr
  · rename_i hne
    cases hr
    -- the times are those of the state, or the defaults of its method
    have htimes : a ≤ b ∧ b ≤ TIMEOUT_MAX_ERLANG ∧ (s.method.getD .exponential = .exponential → 1 ≤ a) ∧
        (s.method.getD .exponential = .absolute → a = b ∧ 1 ≤ a) := by
      rcases timeDefault_ok ha with ha | ⟨ha, hma⟩ <;> rcases timeDefault_ok hb with hb | ⟨hb, hmb⟩
      · have hm : s.method ≠ none := fun hn => by rw [h.chosen hn] at ha; cases ha
        obtain ⟨m, hm⟩ := Option.ne_none_iff_exists'.mp hm
        have hbounds := h.bounds a b ha hb
        rw [hm] at hbounds ⊢
        exact ⟨hbounds.1, hbounds.2.1, fun he => hbounds.2.2.1 (congrArg some he),
          fun he => hbounds.2.2.2 (congrArg some he)⟩
      · exact absurd (h.both.mpr hb) (by rw [ha]; exact Option.some_ne_none a)
      · exact absurd (h.both.mp ha) (by rw [hb]; exact Option.some_ne_none b)
      · rcases hma with ⟨hma, rfl⟩ | ⟨hma, rfl⟩ <;> rcases hmb with ⟨hmb, rfl⟩ | ⟨hmb, rfl⟩ <;> rw [hma] at hmb ⊢
        · exact ⟨by decide, by decide, fun _ => by decide, fun he => by cases he⟩
        · cases hmb
        · cases hmb
        · exact ⟨by decide, by decide, (fun he => by cases he), fun he => by cases he⟩
    obtain ⟨hab, hb', hexp, habs⟩ := htimes
    cases hm : s.method.getD .exponential with
    | exponential =>
      rw [hm] at hne hexp
      have hslope : s.timeSlope = none := by
        refine h.slope_none (m := .exponential) ?_ (by decide)
        cases hs : s.method with
        | none => exact .inl hs
        | some m =>
          rw [hs] at hm
          exact .inr (hs.trans (congrArg some hm))
      rw [hslope, if_neg fun hn => by cases hn.2]
      exact .exponential (hexp rfl) (lt_of_le_of_ne hab fun he => hne ⟨.inl rfl, he⟩) hb'
    | linear =>
      rw [hm] at hne
      have hlt : a < b := lt_of_le_of_ne hab fun he => hne ⟨.inr rfl, he⟩
      cases hk : s.timeSlope with
      | none =>
        rw [if_pos ⟨rfl, rfl⟩]
        exact .linear hlt hb' (by decide)
      | some k =>
        rw [if_neg fun hn => by cases hn.1]
        exact .linear hlt hb' (h.slope k hk).2
    | absolute =>
      rw [hm] at habs
      obtain ⟨rfl, ha1⟩ := habs rfl
      have hslope : s.timeSlope = none := by
        refine h.slope_none (m := .absolute) ?_ (by decide)
        cases hs : s.method with
        | none => exact .inl hs
        | some m =>
          rw [hs] at hm
          exact .inr (hs.trans (congrArg some hm))
      rw [hslope, if_neg fun hn => by cases hn.2]
      exact .absolute ha1 hb'

theorem restartDelayValidateLoop_accepted {Options : List RestartDelayOption} (h : s.Inv)
    (hr : restartDelayValidateLoop Options s = .ok s') : Accepted s' := by
  induction Options generalizing s with
  | nil => exact restartDelayDone_accepted h hr
  | cons o Options ih =>
    obtain ⟨s₁, ho, hr⟩ := bind_eq_ok hr
    exact ih (restartDelayOption_inv h ho) hr

/-- A state that the options lead to is led to by its format. -/
theorem restartDelayValidate_format (h : Accepted s) : ∃ Options, restartDelayFormatList s = .ok Options ∧
    restartDelayValidateLoop Options {} = .ok s := by
  cases h with
  | @exponential a b h1 hab hb =>
    refine ⟨_, rfl, ?_⟩
    have ha := limitAssign_format h1 (hab.le.trans hb)
    have hb' := limitAssign_format (h1.trans hab.le) hb
    have hmin : restartDelayOption (.timeExponentialMin (limitFormat a 1 TIMEOUT_MAX_ERLANG)) {} =
        .ok ⟨some .exponential, some a, some (max a 500), none⟩ := by
      rw [restartDelayOption, timeMinOption, if_pos (.inl rfl), ha]
      exact if_pos (le_max_left a 500)
    have hmax : restartDelayOption (.timeExponentialMax (limitFormat b 1 TIMEOUT_MAX_ERLANG))
        ⟨some .exponential, some a, some (max a 500), none⟩ = .ok ⟨some .exponential, some a, some b, none⟩ := by
      rw [restartDelayOption, timeMaxOption, if_pos (.inr rfl), hb']
      exact if_pos hab.le
    rw [restartDelayValidateLoop, bind_ok hmin, restartDelayValidateLoop, bind_ok hmax]
    exact if_neg fun hn => hab.ne hn.2
  | @linear a b k hab hb hk =>
    refine ⟨_, rfl, ?_⟩
    have ha := limitAssign_format (Nat.zero_le a) (hab.le.trans hb)
    have hb' := limitAssign_format (Nat.one_le_of_lt hab) hb
    have hmin : restartDelayOption (.timeLinearMin (limitFormat a 0 TIMEOUT_MAX_ERLANG)) {} =
        .ok ⟨some .linear, some a, some (max a 250), none⟩ := by
      rw [restartDelayOption, timeMinOption, if_pos (.inl rfl), ha]
      exact if_pos (le_max_left a 250)
    have hslope : restartDelayOption (.timeLinearSlope (.integer k)) ⟨some .linear, some a, some (max a 250), none⟩ =
        .ok ⟨some .linear, some a, some (max a 250), some k⟩ := by
      rw [restartDelayOption]
      exact if_pos ⟨.inr rfl, by omega⟩
    have hmax : restartDelayOption (.timeLinearMax (limitFormat b 1 TIMEOUT_MAX_ERLANG))
        ⟨some .linear, some a, some (max a 250), some k⟩ = .ok ⟨some .linear, some a, some b, some k⟩ := by
      rw [restartDelayOption, timeMaxOption, if_pos (.inr rfl), hb']
      exact if_pos hab.le
    rw [restartDelayValidateLoop, bind_ok hmin, restartDelayValidateLoop, bind_ok hslope, restartDelayValidateLoop,
      bind_ok hmax]
    exact if_neg fun hn => hab.ne hn.2
  | @absolute a h1 ha =>
    refine ⟨_, if_pos rfl, ?_⟩
    have habs : restartDelayOption (.timeAbsolute (limitFormat a 1 TIMEOUT_MAX_ERLANG)) {} =
        .ok ⟨some .absolute, some a, some a, none⟩ := by
      rw [restartDelayOption, if_pos (.inl rfl), limitAssign_format h1 ha]
    rw [restartDelayValidateLoop, bind_ok habs]
    rfl

/-! ## The delay -/

/-- The record as the monitor has it. -/
def ofRestartDelay (d : RestartDelay) : RestartDelayState :=
  ⟨some d.method, some d.timeMin, some d.timeMax, if d.method = .linear then some d.timeSlope else none⟩

theorem Accepted.delay (h : Accepted s) : ∃ d, s = ofRestartDelay d ∧ d.timeMin ≤ d.timeMax := by
  cases h with
  | @exponential a b _ hab hb => exact ⟨⟨.exponential, a, b, 0, hb, fun he => by cases he⟩, rfl, hab.le⟩
  | @linear a b k hab hb _ => exact ⟨⟨.linear, a, b, k, hb, fun he => by cases he⟩, rfl, hab.le⟩
  | @absolute a _ ha => exact ⟨⟨.absolute, a, a, 0, ha, fun _ => rfl⟩, rfl, le_refl a⟩

/-- A time that is cut at the largest one. -/
theorem cut_eq (a b : Nat) : (if a > b then b else a) = min a b := by
  split <;> omega

theorem restartDelayValueNow_bounds {d : RestartDelay} (h : d.timeMin ≤ d.timeMax) (N : Nat) :
    d.timeMin ≤ restartDelayValueNow N d ∧ restartDelayValueNow N d ≤ d.timeMax := by
  rw [restartDelayValueNow]
  split
  · rw [cut_eq]
    refine ⟨le_min ?_ h, min_le_right _ _⟩
    exact Nat.le_mul_of_pos_left _ (by rw [Nat.one_shiftLeft]; exact Nat.two_pow_pos N)
  · rw [cut_eq]
    exact ⟨le_min (Nat.le_add_left _ _) h, min_le_right _ _⟩
  · exact ⟨le_refl _, h⟩

theorem restartDelayValueNow_mono (d : RestartDelay) : Monotone fun N => restartDelayValueNow N d := by
  intro N N' hN
  simp only [restartDelayValueNow]
  split
  · rw [cut_eq, cut_eq, Nat.one_shiftLeft, Nat.one_shiftLeft]
    exact min_le_min (Nat.mul_le_mul_right _ (Nat.pow_le_pow_right (by decide) hN)) (le_refl _)
  · rw [cut_eq, cut_eq]
    exact min_le_min (Nat.add_le_add_right (Nat.mul_le_mul_left _ hN) _) (le_refl _)
  · exact le_refl _

theorem restartStage3_clause {Pid Start : Type} (seconds : Nat → Nat) (i : Nat) (p : Monitor.Service Pid Start) :
    restartStage3 seconds i p ≠ .error .caseClause := by
  fun_induction restartStage3 seconds i p with
  | case1 => exact fun h => by cases h
  | case2 _ _ _ _ _ _ _ _ ih => exact ih
  | case3 => exact fun h => by cases h
  | case4 => exact fun h => by cases h
  | case5 => exact fun h => by cases h

/-- The delay of accepted options lies between their times, grows with the
number of restarts, and is one that `restart_stage2/5` has a clause for. -/
theorem restart_delay_bounded {Options : List RestartDelayOption}
    (h : restartDelayValidate (some Options) = .ok (some s)) :
    ∃ d, s = ofRestartDelay d ∧
      (∀ N, d.timeMin ≤ restartDelayValueNow N d ∧ restartDelayValueNow N d ≤ d.timeMax ∧
        restartDelayValueNow N d ≤ TIMEOUT_MAX_ERLANG) ∧
      Monotone (fun N => restartDelayValueNow N d) ∧
      ∀ {Pid Start : Type} (seconds : Nat → Nat) (i : Nat) (p : Monitor.Service Pid Start), p.restartDelay = some d →
        restartStage2 seconds i p ≠ .error .caseClause := by
  cases hr : restartDelayValidateLoop Options {} with
  | error e =>
    rw [restartDelayValidate, hr] at h
    cases h
  | ok t =>
    rw [restartDelayValidate, hr] at h
    cases h
    obtain ⟨d, hd, hle⟩ := (restartDelayValidateLoop_accepted RestartDelayState.inv_init hr).delay
    refine ⟨d, hd, fun N => ?_, restartDelayValueNow_mono d, fun seconds i p hp => ?_⟩
    · obtain ⟨hmin, hmax⟩ := restartDelayValueNow_bounds hle N
      exact ⟨hmin, hmax, restartDelayValueNow_le N d⟩
    · rw [restartStage2, hp]
      split
      · exact fun he => by cases he
      · simp only [restartDelayValue, if_pos (restartDelayValueNow_le _ d)]
        split
        · exact restartStage3_clause _ _ _
        · exact fun he => by cases he

/-- A delay that grows by a quarter of a second up to a second. -/
theorem restart_delay_bounded_linear : ∃ d : RestartDelay, d.timeMin = 100 ∧ d.timeMax = 1000 ∧
    (∀ N, 100 ≤ restartDelayValueNow N d ∧ restartDelayValueNow N d ≤ 1000) ∧
    Monotone fun N => restartDelayValueNow N d := by
  obtain ⟨d, hd, hle, hmono, -⟩ := restart_delay_bounded
      (show restartDelayValidate (some [.timeLinearMin (.integer 100),
    .timeLinearSlope (.integer 250), .timeLinearMax (.integer 1000)]) = _ from rfl)
  have hmin : 100 = d.timeMin := Option.some.inj (congrArg RestartDelayState.timeMin hd)
  have hmax : 1000 = d.timeMax := Option.some.inj (congrArg RestartDelayState.timeMax hd)
  refine ⟨d, hmin.symm, hmax.symm, fun N => ?_, hmono⟩
  rw [← hmin, ← hmax] at hle
  exact ⟨(hle N).1, (hle N).2.1⟩

end CloudI.Configurator
