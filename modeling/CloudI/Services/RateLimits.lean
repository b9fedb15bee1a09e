import CloudI.Configurator.RateBased
import CloudI.Framework.Timers

/-!
# The timers of the rates

A process that handles service requests counts them for `rate_request_max` and
for `hibernate`, and a timer of each starts a new count. An update starts a
timer for the new options and leaves the old one running. `rate_limited` says
what holds when every update comes with no such timer left: each message comes
at most once, and between two of them no more requests are accepted than the
rate allows for a period.
-/

namespace CloudI.Services.RateLimits

open Configurator

inductive Message where
  | rateRequestMaxRate
  | hibernateRate
deriving DecidableEq

variable {F : Type} (A : FloatArithmetic F)

/-- `Count / Period` -/
def divide (Count Period : ℕ) : Except Exn F := do
  let x ← A.toFloat Count
  let y ← A.toFloat Period
  if A.value y = 0 then .error .badarith else A.toFloat (A.value x / A.value y)

/-! ## The rates -/

/-- `rate_request_init/1`, with the time of the timer. -/
def rateRequestInit (s : RateRequest F) : Except Exn (ℕ × RateRequest F) :=
  match s.period with
  | some Period => .ok (Period * 1000, { s with count := 0, blocking := false })
  | none => .error .badarith

/-- `rate_request_reinit/1`, with the time of the timer; what it logs is left out. -/
def rateRequestReinit : Option (RateRequest F) → Except Exn (Option ℕ × Option (RateRequest F))
  | none => .ok (none, none)
  | some s =>
    match s.period with
    | some Period => .ok (some (Period * 1000), some { s with count := 0, blocking := false })
    | none => .error .badarith

/-- `rate_request_request/1` -/
def rateRequestRequest (s : RateRequest F) : Except Exn (Bool × RateRequest F) :=
  if s.blocking then .ok (false, s)
  else
    match s.period with
    | none => .error .badarith
    | some Period => do
      let Rate ← divide A (s.count + 1) Period
      let NewBlocking := s.rateMax.elim false fun RateMax => A.numberValue RateMax < A.value Rate
      if NewBlocking then .ok (false, { s with blocking := true })
      else .ok (true, { s with count := s.count + 1 })

/-- `hibernate_init/1`, with the time of the timer. -/
def hibernateInit (s : Hibernate F) : Except Exn (ℕ × Hibernate F) :=
  match s.method, s.period with
  | none, _ => .error .functionClause
  | some .rateRequest, none => .error .badarith
  | some .rateRequest, some Period => .ok (Period * 1000, { s with count := 0 })

/-- `hibernate_reinit/1`, with the time of the timer. -/
def hibernateReinit : Bool ⊕ Hibernate F → Except Exn (Bool × Option ℕ × (Bool ⊕ Hibernate F))
  | .inl Value => .ok (Value, none, .inl Value)
  | .inr s =>
    match s.method, s.period with
    | none, _ => .error .functionClause
    | some .rateRequest, none => .error .badarith
    | some .rateRequest, some Period => do
      let RateCurrent ← divide A s.count Period
      let Value := s.rateMin.elim true fun RateMin => decide (A.value RateCurrent < A.numberValue RateMin)
      .ok (Value, some (Period * 1000), .inr { s with count := 0, hibernate := Value })

/-- `hibernate_request/1` -/
def hibernateRequest (s : Hibernate F) : Except Exn (Hibernate F) :=
  match s.method with
  | some .rateRequest => .ok { s with count := s.count + 1 }
  | none => .error .functionClause

/-! ## The process -/

/-- A process that handles service requests. -/
structure World (F : Type) where
  rateRequestMax : Option (RateRequest F)
  hibernate : Bool ⊕ Hibernate F
  timers : Timers Message

/-- The limit of `rate_request_max`, started when there is one. -/
def startRate (rate : Option (RateRequest F)) (w : World F) : Except Exn (World F) :=
  match rate with
  | none => .ok { w with rateRequestMax := none }
  | some s => do
    let (Time, NewRateRequest) ← rateRequestInit s
    .ok { w with rateRequestMax := some NewRateRequest, timers := (w.timers.sendAfter Time .rateRequestMaxRate).2 }

/-- The limit of `hibernate`, started when it is not a boolean. -/
def startHibernate (hibernate : Bool ⊕ Hibernate F) (w : World F) : Except Exn (World F) :=
  match hibernate with
  | .inl Value => .ok { w with hibernate := .inl Value }
  | .inr s => do
    let (Time, NewHibernate) ← hibernateInit s
    .ok { w with hibernate := .inr NewHibernate, timers := (w.timers.sendAfter Time .hibernateRate).2 }

/-- `check_init_receive/1` -/
def checkInitReceive (rate : Option (RateRequest F)) (hibernate : Bool ⊕ Hibernate F) : Except Exn (World F) := do
  let w ← startRate rate ⟨rate, hibernate, .new⟩
  startHibernate hibernate w

/-- The part of a `config_service_update` for the rates: the options whose keys it has. -/
structure Plan (F : Type) where
  rateRequestMax : Option (Option (RateRequest F))
  hibernate : Option (Bool ⊕ Hibernate F)

/-- `update_state/2` -/
def updateState (p : Plan F) (w : World F) : Except Exn (World F) := do
  let w ← p.rateRequestMax.elim (.ok w) fun rate => startRate rate w
  p.hibernate.elim (.ok w) fun hibernate => startHibernate hibernate w

/-- `handle_info` of `cloudi_rate_request_max_rate` -/
def handleRate (w : World F) : Except Exn (World F) := do
  let (Time, NewRateRequest) ← rateRequestReinit w.rateRequestMax
  .ok { w with rateRequestMax := NewRateRequest
               timers := Time.elim w.timers fun Time => (w.timers.sendAfter Time .rateRequestMaxRate).2 }

/-- `handle_info` of `cloudi_hibernate_rate` -/
def handleHibernate (w : World F) : Except Exn (World F) := do
  let (_, Time, NewHibernate) ← hibernateReinit A w.hibernate
  .ok { w with hibernate := NewHibernate
               timers := Time.elim w.timers fun Time => (w.timers.sendAfter Time .hibernateRate).2 }

/-- `check_incoming/2` of a service request. -/
def checkIncoming (w : World F) : Except Exn (World F) :=
  match w.hibernate with
  | .inl _ => .ok w
  | .inr s => (hibernateRequest s).map fun NewHibernate => { w with hibernate := .inr NewHibernate }

/-- A service request: whether `rate_request_request/1` accepted it, with
`none` when there is no limit. -/
def handleRequest (w : World F) : Except Exn (Option Bool × World F) :=
  match w.rateRequestMax with
  | none => do
    let w' ← checkIncoming w
    .ok (none, w')
  | some s => do
    let (RateRequestOk, NewRateRequest) ← rateRequestRequest A s
    let w' : World F := { w with rateRequestMax := some NewRateRequest }
    if RateRequestOk then do
      let w'' ← checkIncoming w'
      .ok (some true, w'')
    else .ok (some false, w')

/-- What happens to the process. -/
inductive Action (F : Type) where
  | elapse
  | rate
  | hibernate
  | request (accepted : Option Bool)
  | update (p : Plan F)

/-- Options that the configuration accepted. -/
def ValidRate (rate : Option (RateRequest F)) : Prop := ∃ Value, rateRequestValidate A Value = .ok rate

def ValidHibernate (hibernate : Bool ⊕ Hibernate F) : Prop := ∃ Options, hibernateValidate A Options = .ok hibernate

structure Plan.Valid (p : Plan F) : Prop where
  rate : ∀ rate, p.rateRequestMax = some rate → ValidRate A rate
  hibernate : ∀ hibernate, p.hibernate = some hibernate → ValidHibernate A hibernate

inductive Step : World F → Action F → World F → Prop
  | elapse {w : World F} {t : Timers Message} : Timers.Elapse w.timers t → Step w .elapse { w with timers := t }
  | rate {w w' : World F} {t : Timers Message} : Timers.Receive .rateRequestMaxRate w.timers t →
      handleRate { w with timers := t } = .ok w' → Step w .rate w'
  | hibernate {w w' : World F} {t : Timers Message} : Timers.Receive .hibernateRate w.timers t →
      handleHibernate A { w with timers := t } = .ok w' → Step w .hibernate w'
  | request {w w' : World F} {accepted : Option Bool} : handleRequest A w = .ok (accepted, w') →
      Step w (.request accepted) w'
  | update {w w' : World F} {p : Plan F} : p.Valid A → updateState p w = .ok w' → Step w (.update p) w'

/-- An update with a limit comes with no timer of the limit left. -/
structure Meets (w : World F) (p : Plan F) : Prop where
  rate : ∀ s, p.rateRequestMax = some (some s) → w.timers.Quiet .rateRequestMaxRate
  hibernate : ∀ s, p.hibernate = some (.inr s) → w.timers.Quiet .hibernateRate

/-- The condition on an action. -/
def Covered (w : World F) : Action F → Prop
  | .update p => Meets w p
  | _ => True

/-- The runs whose actions meet a condition. -/
inductive Reachable (C : World F → Action F → Prop) : World F → Prop
  | init {rate : Option (RateRequest F)} {hibernate : Bool ⊕ Hibernate F} {w : World F} : ValidRate A rate →
      ValidHibernate A hibernate → checkInitReceive rate hibernate = .ok w → Reachable C w
  | step {w w' : World F} {a : Action F} : Reachable C w → C w a → Step A w a w' → Reachable C w'

/-! ## At most one timer -/

variable {A} {w w' : World F} {C : World F → Action F → Prop} {rate : Option (RateRequest F)}
  {hibernate : Bool ⊕ Hibernate F}

/-- A limit that was accepted has a period and a rate. -/
def Limited (A : FloatArithmetic F) (rate : Option (RateRequest F)) : Prop :=
  ∀ s, rate = some s → ∃ (Period : ℕ) (RateMax : Number F), s.period = some Period ∧ s.rateMax = some RateMax ∧
    0 < A.numberValue RateMax

theorem ValidRate.limited (h : ValidRate A rate) : Limited A rate := by
  intro s hs
  obtain ⟨Value, hv⟩ := h
  have hloop : ∀ {Options : List (RateRequestOption F)}, (rateRequestValidateLoop A Options {}).map some = .ok rate →
      ∃ (Period : ℕ) (RateMax : Number F), s.period = some Period ∧ s.rateMax = some RateMax ∧
        0 < A.numberValue RateMax := by
    intro Options h
    cases hr : rateRequestValidateLoop A Options {} with
    | error e =>
      rw [hr] at h
      cases h
    | ok s' =>
      rw [hr, hs] at h
      cases h
      have hinit : ({} : RateRequest F).Inv A := ⟨fun _ hn => (by cases hn), fun _ ha => (by cases ha), rfl, rfl⟩
      obtain ⟨n, a, rfl, -, -, ha⟩ := rateRequestValidateLoop_ok A hinit hr
      exact ⟨n, a, rfl, rfl, ha⟩
  cases Value with
  | undefined =>
    cases hv
    cases hs
  | number a => exact hloop hv
  | list Options => exact hloop hv

/-- What `startRate` does: with a limit a timer is started. -/
theorem startRate_ok (h : startRate rate w = .ok w') : w'.hibernate = w.hibernate ∧
    ((rate = none ∧ w'.rateRequestMax = none ∧ w'.timers = w.timers) ∨
      ∃ s Time, rate = some s ∧ w'.rateRequestMax = some { s with count := 0, blocking := false } ∧
        w'.timers = (w.timers.sendAfter Time .rateRequestMaxRate).2) := by
  cases rate with
  | none =>
    cases h
    exact ⟨rfl, .inl ⟨rfl, rfl, rfl⟩⟩
  | some s =>
    obtain ⟨⟨Time, s'⟩, hs, h⟩ := bind_eq_ok h
    cases h
    rw [rateRequestInit] at hs
    split at hs
    · cases hs
      exact ⟨rfl, .inr ⟨s, _, rfl, rfl, rfl⟩⟩
    · cases hs

theorem startHibernate_ok (h : startHibernate hibernate w = .ok w') : w'.rateRequestMax = w.rateRequestMax ∧
    ((∃ Value, hibernate = .inl Value ∧ w'.timers = w.timers) ∨
      ∃ s Time, hibernate = .inr s ∧ w'.timers = (w.timers.sendAfter Time .hibernateRate).2) := by
  cases hibernate with
  | inl Value =>
    cases h
    exact ⟨rfl, .inl ⟨Value, rfl, rfl⟩⟩
  | inr s =>
    obtain ⟨⟨Time, s'⟩, -, h⟩ := bind_eq_ok h
    cases h
    exact ⟨rfl, .inr ⟨s, Time, rfl, rfl⟩⟩

/-- The messages come at most once. -/
structure Single (t : Timers Message) : Prop where
  fresh : t.Fresh
  rate : t.AtMostOne .rateRequestMaxRate
  hibernate : t.AtMostOne .hibernateRate

theorem single_new : Single .new := ⟨Timers.fresh_new, Timers.quiet_new.atMostOne, Timers.quiet_new.atMostOne⟩

theorem Single.startRate (h : Single w.timers) (hr : startRate rate w = .ok w')
    (hq : ∀ s, rate = some s → w.timers.Quiet .rateRequestMaxRate) : Single w'.timers := by
  obtain ⟨-, ⟨-, -, ht⟩ | ⟨s, Time, hs, -, ht⟩⟩ := startRate_ok hr
  · rwa [ht]
  · rw [ht]
    exact ⟨h.fresh.sendAfter, (hq s hs).sendAfter, h.hibernate.sendAfter_ne (by decide)⟩

theorem Single.startHibernate (h : Single w.timers) (hr : startHibernate hibernate w = .ok w')
    (hq : ∀ s, hibernate = .inr s → w.timers.Quiet .hibernateRate) : Single w'.timers := by
  obtain ⟨-, ⟨Value, -, ht⟩ | ⟨s, Time, hs, ht⟩⟩ := startHibernate_ok hr
  · rwa [ht]
  · rw [ht]
    exact ⟨h.fresh.sendAfter, h.rate.sendAfter_ne (by decide), (hq s hs).sendAfter⟩

theorem Single.updateState (h : Single w.timers) {p : Plan F} (hm : Meets w p) (hr : updateState p w = .ok w') :
    Single w'.timers := by
  obtain ⟨w₁, h₁, hr⟩ := bind_eq_ok hr
  have hfirst : Single w₁.timers ∧ ∀ s, p.hibernate = some (.inr s) → w₁.timers.Quiet .hibernateRate := by
    cases hp : p.rateRequestMax with
    | none =>
      rw [hp] at h₁
      cases h₁
      exact ⟨h, hm.hibernate⟩
    | some rate =>
      rw [hp] at h₁
      refine ⟨h.startRate h₁ fun s hs => hm.rate s (by rw [hp, hs]), fun s hs => ?_⟩
      have hq := hm.hibernate s hs
      obtain ⟨-, ⟨-, -, ht⟩ | ⟨s', Time, -, -, ht⟩⟩ := startRate_ok h₁
      · rwa [ht]
      · rw [ht]
        exact Timers.quiet_sendAfter_ne (by decide) hq
  cases hp : p.hibernate with
  | none =>
    rw [hp] at hr
    cases hr
    exact hfirst.1
  | some hibernate =>
    rw [hp] at hr
    exact hfirst.1.startHibernate hr fun s hs => hfirst.2 s (by rw [hp, hs])

/-- An update that finds a timer of a limit that it starts leaves two. -/
theorem meets_of_single (h : Single w.timers) {p : Plan F} (hr : updateState p w = .ok w')
    (hrate : w'.timers.AtMostOne .rateRequestMaxRate) (hhibernate : w'.timers.AtMostOne .hibernateRate) :
    Meets w p := by
  obtain ⟨w₁, h₁, hr⟩ := bind_eq_ok hr
  -- after the first of the two limits
  have hfresh : w₁.timers.Fresh := by
    cases hp : p.rateRequestMax with
    | none =>
      rw [hp] at h₁
      cases h₁
      exact h.fresh
    | some rate =>
      rw [hp] at h₁
      obtain ⟨-, ⟨-, -, ht⟩ | ⟨s, Time, -, -, ht⟩⟩ := startRate_ok h₁
      · exact ht ▸ h.fresh
      · exact ht ▸ h.fresh.sendAfter
  have hrate₁ : w₁.timers.AtMostOne .rateRequestMaxRate := by
    cases hp : p.hibernate with
    | none =>
      rw [hp] at hr
      cases hr
      exact hrate
    | some hibernate =>
      rw [hp] at hr
      obtain ⟨-, ⟨Value, -, ht⟩ | ⟨s, Time, -, ht⟩⟩ := startHibernate_ok hr
      · exact ht ▸ hrate
      · exact .of_sendAfter hfresh (ht ▸ hrate)
  refine ⟨fun s hs ref hp => ?_, fun s hs ref hp => ?_⟩
  · rw [hs, Option.elim_some] at h₁
    obtain ⟨-, ⟨hn, -, -⟩ | ⟨s', Time, -, -, ht⟩⟩ := startRate_ok h₁
    · cases hn
    · rw [ht] at hrate₁
      exact Timers.not_atMostOne_sendAfter h.fresh hp hrate₁
  · have hp₁ : w₁.timers.Pending ref .hibernateRate := by
      cases hq : p.rateRequestMax with
      | none =>
        rw [hq] at h₁
        cases h₁
        exact hp
      | some rate =>
        rw [hq] at h₁
        obtain ⟨-, ⟨-, -, ht⟩ | ⟨s', Time, -, -, ht⟩⟩ := startRate_ok h₁
        · exact ht ▸ hp
        · rw [ht]
          exact h.fresh.pending_sendAfter hp
    rw [hs, Option.elim_some] at hr
    obtain ⟨-, ⟨Value, hn, -⟩ | ⟨s', Time, -, ht⟩⟩ := startHibernate_ok hr
    · cases hn
    · rw [ht] at hhibernate
      exact Timers.not_atMostOne_sendAfter hfresh hp₁ hhibernate

theorem handleRate_ok (h : handleRate w = .ok w') : w'.hibernate = w.hibernate ∧
    ((w.rateRequestMax = none ∧ w'.rateRequestMax = none ∧ w'.timers = w.timers) ∨
      ∃ s Time, w.rateRequestMax = some s ∧ w'.rateRequestMax = some { s with count := 0, blocking := false } ∧
        w'.timers = (w.timers.sendAfter Time .rateRequestMaxRate).2) := by
  obtain ⟨⟨Time, New⟩, hs, h⟩ := bind_eq_ok h
  cases h
  cases hw : w.rateRequestMax with
  | none =>
    rw [hw] at hs
    cases hs
    exact ⟨rfl, .inl ⟨rfl, rfl, rfl⟩⟩
  | some s =>
    rw [hw, rateRequestReinit] at hs
    split at hs
    · cases hs
      exact ⟨rfl, .inr ⟨s, _, rfl, rfl, rfl⟩⟩
    · cases hs

theorem handleHibernate_ok (h : handleHibernate A w = .ok w') : w'.rateRequestMax = w.rateRequestMax ∧
    (w'.timers = w.timers ∨ ∃ Time, w'.timers = (w.timers.sendAfter Time .hibernateRate).2) := by
  obtain ⟨⟨Value, Time, New⟩, -, h⟩ := bind_eq_ok h
  cases h
  cases Time with
  | none => exact ⟨rfl, .inl rfl⟩
  | some Time => exact ⟨rfl, .inr ⟨Time, rfl⟩⟩

theorem checkIncoming_ok (h : checkIncoming w = .ok w') :
    w'.rateRequestMax = w.rateRequestMax ∧ w'.timers = w.timers := by
  rw [checkIncoming] at h
  split at h
  · cases h
    exact ⟨rfl, rfl⟩
  · obtain ⟨s', -, rfl⟩ := map_eq_ok h
    exact ⟨rfl, rfl⟩

/-- What a request does to the limit, and that it keeps the timers. -/
theorem handleRequest_ok {accepted : Option Bool} (h : handleRequest A w = .ok (accepted, w')) :
    w'.timers = w.timers ∧
      ((w.rateRequestMax = none ∧ accepted = none ∧ w'.rateRequestMax = none) ∨
        ∃ s ok s', w.rateRequestMax = some s ∧ accepted = some ok ∧ rateRequestRequest A s = .ok (ok, s') ∧
          w'.rateRequestMax = some s') := by
  rw [handleRequest] at h
  split at h
  · rename_i hw
    obtain ⟨w₁, h₁, h⟩ := bind_eq_ok h
    cases h
    obtain ⟨hrate, ht⟩ := checkIncoming_ok h₁
    exact ⟨ht, .inl ⟨hw, rfl, hrate.trans hw⟩⟩
  · rename_i s hw
    obtain ⟨⟨ok, s'⟩, hs, h⟩ := bind_eq_ok h
    simp only at h
    split at h
    · rename_i hok
      obtain ⟨w₁, h₁, h⟩ := bind_eq_ok h
      cases h
      obtain ⟨hrate, ht⟩ := checkIncoming_ok h₁
      exact ⟨ht, .inr ⟨s, true, s', hw, rfl, hok ▸ hs, hrate⟩⟩
    · rename_i hok
      cases h
      exact ⟨rfl, .inr ⟨s, false, s', hw, rfl, Bool.eq_false_iff.mpr hok ▸ hs, rfl⟩⟩

theorem Single.step (h : Single w.timers) {a : Action F} (hc : Covered w a) (hs : Step A w a w') :
    Single w'.timers := by
  cases hs with
  | elapse he => exact ⟨h.fresh.elapse he, he.atMostOne h.rate, he.atMostOne h.hibernate⟩
  | rate hr hh =>
    obtain ⟨-, ⟨-, -, ht⟩ | ⟨s, Time, -, -, ht⟩⟩ := handleRate_ok hh
    · rw [ht]
      exact ⟨h.fresh.receive hr, hr.atMostOne h.rate, hr.atMostOne h.hibernate⟩
    · rw [ht]
      exact ⟨(h.fresh.receive hr).sendAfter, (hr.quiet h.rate).sendAfter,
        (hr.atMostOne h.hibernate).sendAfter_ne (by decide)⟩
  | hibernate hr hh =>
    obtain ⟨-, ht | ⟨Time, ht⟩⟩ := handleHibernate_ok hh
    · rw [ht]
      exact ⟨h.fresh.receive hr, hr.atMostOne h.rate, hr.atMostOne h.hibernate⟩
    · rw [ht]
      exact ⟨(h.fresh.receive hr).sendAfter, (hr.atMostOne h.rate).sendAfter_ne (by decide),
        (hr.quiet h.hibernate).sendAfter⟩
  | request hr =>
    rw [(handleRequest_ok hr).1]
    exact h
  | update _ hr => exact h.updateState hc hr

/-! ## The limit keeps its options -/

theorem rateRequestRequest_ok {s s' : RateRequest F} {ok : Bool} (h : rateRequestRequest A s = .ok (ok, s')) :
    s'.period = s.period ∧ s'.rateMax = s.rateMax ∧
      ((ok = false ∧ s'.count = s.count) ∨
        (ok = true ∧ s'.count = s.count + 1 ∧ ∃ (Period : ℕ) (Rate : F), s.period = some Period ∧
          divide A (s.count + 1) Period = .ok Rate ∧
          ∀ RateMax, s.rateMax = some RateMax → A.value Rate ≤ A.numberValue RateMax)) := by
  rw [rateRequestRequest] at h
  split at h
  · cases h
    exact ⟨rfl, rfl, .inl ⟨rfl, rfl⟩⟩
  · split at h
    · cases h
    · rename_i Period hPeriod
      obtain ⟨Rate, hRate, h⟩ := bind_eq_ok h
      simp only at h
      split at h
      · cases h
        exact ⟨rfl, rfl, .inl ⟨rfl, rfl⟩⟩
      · rename_i hblocking
        cases h
        refine ⟨rfl, rfl, .inr ⟨rfl, rfl, Period, Rate, hPeriod, hRate, fun RateMax hmax => ?_⟩⟩
        rw [hmax, Option.elim_some] at hblocking
        exact le_of_not_gt fun hlt => hblocking (decide_eq_true hlt)

theorem limited_of_eq {s : RateRequest F} (h : Limited A w.rateRequestMax) (hw : w.rateRequestMax = some s)
    {s' : RateRequest F} (hperiod : s'.period = s.period) (hmax : s'.rateMax = s.rateMax)
    (hw' : w'.rateRequestMax = some s') : Limited A w'.rateRequestMax := by
  intro t ht
  rw [hw'] at ht
  cases ht
  rw [hperiod, hmax]
  exact h s hw

theorem limited_of_none (h : w.rateRequestMax = none) : Limited A w.rateRequestMax := fun s hs => by
  rw [h] at hs
  cases hs

theorem limited_startRate (hv : ValidRate A rate) (hr : startRate rate w = .ok w') : Limited A w'.rateRequestMax := by
  obtain ⟨-, ⟨-, hn, -⟩ | ⟨s, Time, hs, hw, -⟩⟩ := startRate_ok hr
  · exact limited_of_none hn
  · intro t ht
    rw [hw] at ht
    cases ht
    exact hv.limited s hs

theorem limited_updateState (h : Limited A w.rateRequestMax) {p : Plan F} (hv : p.Valid A)
    (hr : updateState p w = .ok w') : Limited A w'.rateRequestMax := by
  obtain ⟨w₁, h₁, hr⟩ := bind_eq_ok hr
  have hfirst : Limited A w₁.rateRequestMax := by
    cases hp : p.rateRequestMax with
    | none =>
      rw [hp] at h₁
      cases h₁
      exact h
    | some rate =>
      rw [hp] at h₁
      exact limited_startRate (hv.rate rate hp) h₁
  cases hp : p.hibernate with
  | none =>
    rw [hp] at hr
    cases hr
    exact hfirst
  | some hibernate =>
    rw [hp] at hr
    rw [(startHibernate_ok hr).1]
    exact hfirst

theorem limited_step (h : Limited A w.rateRequestMax) {a : Action F} (hs : Step A w a w') :
    Limited A w'.rateRequestMax := by
  cases hs with
  | elapse _ => exact h
  | rate _ hh =>
    obtain ⟨-, ⟨-, hn, -⟩ | ⟨s, Time, hw, hw', -⟩⟩ := handleRate_ok hh
    · exact limited_of_none hn
    · refine limited_of_eq h hw ?_ ?_ hw' <;> rfl
  | hibernate _ hh =>
    rw [(handleHibernate_ok hh).1]
    exact h
  | request hr =>
    obtain ⟨-, ⟨-, -, hn⟩ | ⟨s, ok, s', hw, -, hs, hw'⟩⟩ := handleRequest_ok hr
    · exact limited_of_none hn
    · obtain ⟨hperiod, hmax, -⟩ := rateRequestRequest_ok hs
      exact limited_of_eq h hw hperiod hmax hw'
  | update hv hr => exact limited_updateState h hv hr

/-- What every process that is reached by covered updates keeps. -/
theorem Reachable.inv (h : Reachable A Covered w) : Single w.timers ∧ Limited A w.rateRequestMax := by
  induction h with
  | init hrate _ hr =>
    obtain ⟨w₁, h₁, hr⟩ := bind_eq_ok hr
    have hq : w₁.timers.Quiet .hibernateRate := by
      obtain ⟨-, ⟨-, -, ht⟩ | ⟨s, Time, -, -, ht⟩⟩ := startRate_ok h₁
      · rw [ht]
        exact Timers.quiet_new
      · rw [ht]
        exact Timers.quiet_sendAfter_ne (by decide) Timers.quiet_new
    refine ⟨(single_new.startRate h₁ fun _ _ => Timers.quiet_new).startHibernate hr fun _ _ => hq, ?_⟩
    rw [(startHibernate_ok hr).1]
    exact limited_startRate hrate h₁
  | step _ hc hs ih => exact ⟨ih.1.step hc hs, limited_step ih.2 hs⟩

/-! ## Between two expirations -/

/-- The requests that an action accepts. -/
def Action.accepted : Action F → ℕ
  | .request (some true) => 1
  | _ => 0

variable (A) in
/-- Actions without an expiration of `rate_request_max`, and how many requests were accepted. -/
inductive Window : World F → ℕ → World F → Prop
  | start (w : World F) : Window w 0 w
  | step {w w' w'' : World F} {n : ℕ} {a : Action F} : Window w n w' → Covered w' a → a ≠ .rate → Step A w' a w'' →
      Window w (n + a.accepted) w''

/-- The division does not round what is above the rate down to it. -/
def Sharp (A : FloatArithmetic F) (Period : ℕ) (RateMax : ℚ) : Prop :=
  ∀ (n : ℕ) (x : F), RateMax * Period < n → divide A n Period = .ok x → RateMax < A.value x

/-- The limit of a window: its timer is still to come, its options are the
same, and its count is what was accepted. -/
structure WindowInv (Period : ℕ) (RateMax : Number F) (n : ℕ) (w : World F) : Prop where
  pending : ∃ ref, w.timers.Pending ref .rateRequestMaxRate
  limit : ∀ s, w.rateRequestMax = some s → s.period = some Period ∧ s.rateMax = some RateMax ∧ s.count = n

theorem WindowInv.step {Period : ℕ} {RateMax : Number F} {n : ℕ} {a : Action F} (h : WindowInv Period RateMax n w)
    (hf : w.timers.Fresh) (hbound : n ≤ A.numberValue RateMax * Period)
    (hsharp : Sharp A Period (A.numberValue RateMax)) (hc : Covered w a) (ha : a ≠ .rate) (hs : Step A w a w') :
    WindowInv Period RateMax (n + a.accepted) w' ∧ (n + a.accepted : ℕ) ≤ A.numberValue RateMax * Period := by
  obtain ⟨ref, hp⟩ := h.pending
  cases hs with
  | elapse he => exact ⟨⟨⟨ref, he.pending hp⟩, h.limit⟩, hbound⟩
  | rate _ _ => exact absurd rfl ha
  | hibernate hr hh =>
    have hp' := hr.pending (by decide) hp
    obtain ⟨hrate, ht | ⟨Time, ht⟩⟩ := handleHibernate_ok hh
    · exact ⟨⟨⟨ref, ht ▸ hp'⟩, hrate ▸ h.limit⟩, hbound⟩
    · exact ⟨⟨⟨ref, ht ▸ (hf.receive hr).pending_sendAfter hp'⟩, hrate ▸ h.limit⟩, hbound⟩
  | request hr =>
    obtain ⟨ht, ⟨-, rfl, hn⟩ | ⟨s, ok, s', hw, rfl, hs, hw'⟩⟩ := handleRequest_ok hr
    · exact ⟨⟨⟨ref, ht ▸ hp⟩, fun s hs => by rw [hn] at hs; cases hs⟩, hbound⟩
    · obtain ⟨hperiod, hmax, hcount⟩ := rateRequestRequest_ok hs
      obtain ⟨hP, hR, hn⟩ := h.limit s hw
      rcases hcount with ⟨rfl, hcount⟩ | ⟨rfl, hcount, P, Rate, hP', hRate, hle⟩
      · refine ⟨⟨⟨ref, ht ▸ hp⟩, fun t ht' => ?_⟩, hbound⟩
        rw [hw'] at ht'
        cases ht'
        exact ⟨hperiod.trans hP, hmax.trans hR, hcount.trans hn⟩
      · refine ⟨⟨⟨ref, ht ▸ hp⟩, fun t ht' => ?_⟩, ?_⟩
        · rw [hw'] at ht'
          cases ht'
          exact ⟨hperiod.trans hP, hmax.trans hR, hcount.trans (congrArg Nat.succ hn)⟩
        · -- one more is accepted only when it is not above the rate
          rw [hP] at hP'
          cases hP'
          rw [hn] at hRate
          exact le_of_not_gt fun hlt => (hle RateMax hR).not_gt (hsharp _ _ hlt hRate)
  | @update _ p hv hr =>
    -- the timer is still to come, so that the update has no limit
    have hnone : ∀ s, p.rateRequestMax ≠ some (some s) := fun s hs => (hc.rate s hs) ref hp
    obtain ⟨w₁, h₁, hr⟩ := bind_eq_ok hr
    have hfirst : WindowInv Period RateMax n w₁ ∧ w₁.timers.Fresh := by
      cases hq : p.rateRequestMax with
      | none =>
        rw [hq] at h₁
        cases h₁
        exact ⟨h, hf⟩
      | some rate =>
        rw [hq, Option.elim_some] at h₁
        obtain ⟨-, ⟨-, hn, ht⟩ | ⟨s, Time, rfl, -, -⟩⟩ := startRate_ok h₁
        · exact ⟨⟨⟨ref, ht ▸ hp⟩, fun s hs => by rw [hn] at hs; cases hs⟩, ht ▸ hf⟩
        · exact absurd hq (hnone s)
    obtain ⟨⟨⟨ref₁, hp₁⟩, hlimit⟩, hf₁⟩ := hfirst
    cases hq : p.hibernate with
    | none =>
      rw [hq] at hr
      cases hr
      exact ⟨⟨⟨ref₁, hp₁⟩, hlimit⟩, hbound⟩
    | some hibernate =>
      rw [hq, Option.elim_some] at hr
      obtain ⟨hrate, ⟨Value, -, ht⟩ | ⟨s, Time, -, ht⟩⟩ := startHibernate_ok hr
      · exact ⟨⟨⟨ref₁, ht ▸ hp₁⟩, hrate ▸ hlimit⟩, hbound⟩
      · exact ⟨⟨⟨ref₁, ht ▸ hf₁.pending_sendAfter hp₁⟩, hrate ▸ hlimit⟩, hbound⟩

theorem Window.inv {Period : ℕ} {RateMax : Number F} {n : ℕ} (h : Window A w n w') (hsingle : Single w.timers)
    (hw : WindowInv Period RateMax 0 w) (hpos : 0 ≤ A.numberValue RateMax)
    (hsharp : Sharp A Period (A.numberValue RateMax)) :
    Single w'.timers ∧ WindowInv Period RateMax n w' ∧ n ≤ A.numberValue RateMax * Period := by
  induction h with
  | start => exact ⟨hsingle, hw, by simpa using mul_nonneg hpos (Nat.cast_nonneg Period)⟩
  | step _ hc ha hs ih =>
    obtain ⟨h₁, h₂, h₃⟩ := ih
    exact ⟨h₁.step hc hs, h₂.step h₁.fresh h₃ hsharp hc ha hs⟩

/-- As long as every update with a limit comes with no timer of the limit left,
the message of each limit comes at most once; an update that comes with one
left makes it come twice. After an expiration no more requests are accepted
before the next one than the rate allows for a period. -/
theorem rate_limited (h : Reachable A Covered w) :
    (w.timers.AtMostOne .rateRequestMaxRate ∧ w.timers.AtMostOne .hibernateRate) ∧
      (∀ p w', updateState p w = .ok w' →
        ((w'.timers.AtMostOne .rateRequestMaxRate ∧ w'.timers.AtMostOne .hibernateRate) ↔ Meets w p)) ∧
      ∀ w₁ n w₂ s, Step A w .rate w₁ → w₁.rateRequestMax = some s → Window A w₁ n w₂ →
        ∃ (Period : ℕ) (RateMax : Number F), s.period = some Period ∧ s.rateMax = some RateMax ∧
          (Sharp A Period (A.numberValue RateMax) → (n : ℤ) ≤ ⌊A.numberValue RateMax * Period⌋) := by
  obtain ⟨hsingle, hlimited⟩ := h.inv
  refine ⟨⟨hsingle.rate, hsingle.hibernate⟩, fun p w' hr =>
      ⟨fun hs => meets_of_single hsingle hr hs.1 hs.2, fun hm => ?_⟩,
    fun w₁ n w₂ s hs hw₁ hwindow => ?_⟩
  · have hsingle' := hsingle.updateState hm hr
    exact ⟨hsingle'.rate, hsingle'.hibernate⟩
  · have hsingle₁ := hsingle.step (a := .rate) trivial hs
    obtain ⟨Period, RateMax, hP, hR, hpos⟩ := limited_step hlimited hs s hw₁
    refine ⟨Period, RateMax, hP, hR, fun hsharp => ?_⟩
    have hw : WindowInv Period RateMax 0 w₁ := by
      cases hs with
      | @rate _ t hr hh =>
        obtain ⟨-, ⟨-, hn, -⟩ | ⟨s₀, Time, -, hw', ht⟩⟩ := handleRate_ok hh
        · rw [hn] at hw₁
          cases hw₁
        · refine ⟨⟨t.next, ?_⟩, fun s₁ hs₁ => ?_⟩
          · rw [ht]
            exact .inl (Timers.runs_sendAfter.mpr (.inl ⟨rfl, rfl⟩))
          · rw [hw₁] at hs₁ hw'
            cases hs₁
            cases hw'
            exact ⟨hP, hR, rfl⟩
    obtain ⟨-, -, hle⟩ := hwindow.inv hsingle₁ hw hpos.le hsharp
    exact Int.le_floor.mpr (by exact_mod_cast hle)

/-- 1000 requests a second, counted for 5 seconds. -/
def rateDefault : RateRequest ℚ := ⟨some 5, 0, some (.integer 1000), false⟩

theorem validRate_default : ValidRate exactFloats (some rateDefault) := ⟨.list [], rfl⟩

theorem divide_exact {Period : ℕ} (h : 0 < Period) (n : ℕ) :
    divide exactFloats n Period = .ok ((n : ℚ) / Period) :=
  if_neg (Nat.cast_pos.mpr h : (0 : ℚ) < Period).ne'

theorem sharp_exact {Period : ℕ} (h : 0 < Period) (RateMax : ℚ) : Sharp exactFloats Period RateMax := by
  intro n x hn hx
  cases hx.symm.trans (divide_exact h n)
  exact (lt_div_iff₀ (Nat.cast_pos.mpr h)).mpr hn

/-- Up to 5000 requests of a window are accepted. -/
theorem handleRequest_default (n : ℕ) (hn : n < 5000) (t : Timers Message) :
    handleRequest exactFloats ⟨some { rateDefault with count := n }, .inl false, t⟩ =
      .ok (some true, ⟨some { rateDefault with count := n + 1 }, .inl false, t⟩) := by
  have hrate : ¬(1000 : ℚ) < ((n + 1 : ℕ) : ℚ) / (5 : ℕ) := by
    rw [lt_div_iff₀ (by norm_num)]
    exact_mod_cast (by omega : ¬1000 * 5 < n + 1)
  have hblocking : decide (exactFloats.numberValue (.integer 1000) <
      exactFloats.value (((n + 1 : ℕ) : ℚ) / (5 : ℕ))) = false := decide_eq_false hrate
  have hrequest : rateRequestRequest exactFloats { rateDefault with count := n } =
      .ok (true, { rateDefault with count := n + 1 }) := by
    simp only [rateRequestRequest, rateDefault, divide_exact (by decide : 0 < 5)]
    show (if decide _ = true then _ else _) = _
    rw [hblocking]
    rfl
  simp only [handleRequest, hrequest]
  rfl

/-- A limit is set while there is none, its timer ends, and two requests of the window after that are accepted. -/
theorem rate_limited_window : ∃ w w₁ w₂ : World ℚ,
    updateState ⟨some (some rateDefault), none⟩ ⟨none, .inl false, .new⟩ = .ok w ∧
      w.timers.AtMostOne .rateRequestMaxRate ∧ w₁.rateRequestMax = some rateDefault ∧
      Window exactFloats w₁ 2 w₂ ∧ ((2 : ℕ) : ℤ) ≤ ⌊exactFloats.numberValue (.integer 1000) * (5 : ℕ)⌋ := by
  have h₀ : Reachable exactFloats Covered ⟨none, .inl false, .new⟩ := .init ⟨.undefined, rfl⟩ ⟨.inl false, rfl⟩ rfl
  have hvalid : Plan.Valid exactFloats ⟨some (some rateDefault), none⟩ :=
    ⟨fun rate hr => by cases hr; exact validRate_default, fun hibernate hh => by cases hh⟩
  have h₁ := h₀.step (a := .update ⟨some (some rateDefault), none⟩)
    ⟨fun s _ => Timers.quiet_new, fun s hs => by cases hs⟩ (.update hvalid rfl)
  have h₂ := h₁.step (a := .elapse) trivial (.elapse (.pass 5000))
  have h₃ := h₂.step (a := .elapse) trivial (.elapse (@Timers.Elapse.fire _ _ 0 _ rfl))
  have hwindow (t : Timers Message) : ∃ w₂, Window exactFloats ⟨some rateDefault, .inl false, t⟩ 2 w₂ :=
    ⟨_, ((Window.start _).step (a := .request (some true)) trivial (by simp)
      (.request (handleRequest_default 0 (by decide) t))).step (a := .request (some true)) trivial (by simp)
      (.request (handleRequest_default 1 (by decide) t))⟩
  obtain ⟨w₂, hw₂⟩ := hwindow _
  obtain ⟨Period, RateMax, hP, hR, hle⟩ := (rate_limited h₃).2.2 _ 2 w₂ rateDefault
    (.rate (@Timers.Receive.intro _ _ _ [] _ rfl) rfl) rfl hw₂
  cases hP
  cases hR
  exact ⟨_, _, w₂, rfl, (rate_limited h₁).1.1, rfl, hw₂, hle (sharp_exact (by decide) _)⟩

/-- An update of the limit to what it is starts a second timer. -/
theorem not_rate_limited : ∃ w : World ℚ, Reachable exactFloats (fun _ _ => True) w ∧
    ¬ w.timers.AtMostOne .rateRequestMaxRate := by
  have h : Reachable exactFloats (fun _ _ => True) _ := .init validRate_default ⟨.inl false, rfl⟩ rfl
  have hvalid : Plan.Valid exactFloats ⟨some (some rateDefault), none⟩ := by
    refine ⟨fun rate hr => ?_, fun hibernate hh => by cases hh⟩
    cases hr
    exact validRate_default
  refine ⟨_, h.step trivial (.update hvalid rfl), fun hone => ?_⟩
  have hruns := hone.runs 0 1 ⟨5000, rfl⟩ ⟨5000, rfl⟩
  cases hruns

end CloudI.Services.RateLimits
