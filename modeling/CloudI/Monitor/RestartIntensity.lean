import Mathlib.Data.List.Perm.Subperm
import Mathlib.Order.Monotone.Basic
import CloudI.Monitor.Service

/-!
# The restart intensity

A process of a service that crashes, fails to start and is restarted, under
any clock that never goes back: `Process` keeps the times of all the attempts
to start it again. `Counted` relates them to the times in the record of the
monitor, which are some of them and have all those of the last `max_t`
seconds (`recent`); every stage keeps it (`restartStage3_spec`,
`restartStage2_spec`). `restart_intensity` is what it means for every run.
-/

namespace CloudI.Monitor

open scoped List

variable {Pid Start : Type} {seconds : Nat → Nat} {i : Nat}

/-! ## The filter -/

/-- The times that the filter keeps. -/
def kept (SecondsNow MaxPeriod : Nat) (L : List Nat) : List Nat :=
  L.filter fun t => t ≤ SecondsNow ∧ SecondsNow ≤ t + MaxPeriod

theorem secondsFilterLoop_eq (L Output : List Nat) (Count SecondsNow MaxPeriod : Nat) :
    secondsFilterLoop L Output Count SecondsNow MaxPeriod =
      (Count + (kept SecondsNow MaxPeriod L).length, (kept SecondsNow MaxPeriod L).reverse ++ Output) := by
  induction L generalizing Output Count with
  | nil => rfl
  | cons t L ih =>
    rw [secondsFilterLoop, kept, List.filter_cons]
    by_cases ht : t ≤ SecondsNow ∧ SecondsNow ≤ t + MaxPeriod
    · have hk : ¬(SecondsNow < t ∨ SecondsNow - t > MaxPeriod) := by omega
      rw [if_neg hk, if_pos (decide_eq_true ht), ih, List.length_cons, List.reverse_cons, List.append_assoc, kept]
      exact Prod.ext (by simp only; omega) rfl
    · have hk : SecondsNow < t ∨ SecondsNow - t > MaxPeriod := by omega
      rw [if_pos hk, if_neg (by rw [decide_eq_true_eq]; exact ht), ih, kept]

/-- The times of the last `MaxPeriod` seconds. -/
def recently (SecondsNow MaxPeriod : Nat) (L : List Nat) : List Nat :=
  L.filter fun t => SecondsNow ≤ t + MaxPeriod

theorem secondsFilter_count (L : List Nat) (SecondsNow MaxPeriod : Nat) :
    (secondsFilter L SecondsNow MaxPeriod).1 = (secondsFilter L SecondsNow MaxPeriod).2.length := by
  rw [secondsFilter, secondsFilterLoop_eq]
  simp

theorem secondsFilter_perm {L : List Nat} {SecondsNow : Nat} (h : ∀ t ∈ L, t ≤ SecondsNow) (MaxPeriod : Nat) :
    (secondsFilter L SecondsNow MaxPeriod).2 ~ recently SecondsNow MaxPeriod L := by
  rw [secondsFilter, secondsFilterLoop_eq]
  simp only [List.append_nil]
  refine (List.reverse_perm _).trans (List.Perm.of_eq (List.filter_congr fun t ht => ?_))
  simp only [h t ht, true_and]

theorem recently_recently {n m T : Nat} (h : n ≤ m) (L : List Nat) :
    recently m T (recently n T L) = recently m T L := by
  rw [recently, recently, recently, List.filter_filter]
  refine List.filter_congr fun t _ => ?_
  rw [Bool.and_eq_left_iff_imp]
  simp only [decide_eq_true_eq]
  omega

/-- With fewer than `k` of the last seconds, the `k`-th last time is older. -/
theorem lt_of_recently_length {L : List Nat} (h : L.Pairwise (· ≥ ·)) {n T k t : Nat}
    (hk : (recently n T L).length ≤ k) (ht : L[k]? = some t) : t + T < n := by
  by_contra hn
  obtain ⟨hlt, rfl⟩ := List.getElem?_eq_some_iff.mp ht
  have hall : ∀ x ∈ L.take (k + 1), n ≤ x + T := by
    intro x hx
    obtain ⟨j, hj, rfl⟩ := List.mem_take_iff_getElem.mp hx
    rcases Nat.lt_or_eq_of_le (Nat.le_of_lt_succ (lt_of_lt_of_le hj (min_le_left _ _))) with hjk | rfl
    · have := List.pairwise_iff_getElem.mp h j k (by omega) hlt hjk
      omega
    · omega
  have hsub : L.take (k + 1) <+ recently n T L := by
    have := (List.take_sublist (k + 1) L).filter fun t => decide (n ≤ t + T)
    rwa [List.filter_eq_self.mpr fun x hx => decide_eq_true (hall x hx)] at this
  have := hsub.length_le
  rw [List.length_take] at this
  omega

/-! ## The stages -/

/-- The record knows the attempts of the last `maxT` seconds. -/
structure Counted (seconds : Nat → Nat) (i : Nat) (attempts : List Nat) (s : Service Pid Start) : Prop where
  count : s.restartCount = s.restartTimes.length
  le : s.restartCount ≤ s.maxR
  subperm : s.restartTimes <+~ attempts
  recent : recently (seconds i) s.maxT attempts <+~ s.restartTimes
  past : ∀ t ∈ attempts, t ≤ seconds i

/-- The attempts are in order, and never more than `maxR` within `maxT` seconds. -/
structure Spaced (maxR maxT : Nat) (attempts : List Nat) : Prop where
  sorted : attempts.Pairwise (· ≥ ·)
  apart : ∀ {k x y : Nat}, attempts[k]? = some x → attempts[k + maxR]? = some y → y + maxT < x

variable {s : Service Pid Start} {attempts : List Nat}

theorem Counted.later (hc : Monotone seconds)
    (h : Counted seconds i attempts s) : Counted seconds (i + 1) attempts s where
  count := h.count
  le := h.le
  subperm := h.subperm
  recent := by
    have hi := hc (Nat.le_succ i)
    rw [← recently_recently hi]
    exact ((List.filter_sublist).subperm).trans h.recent
  past t ht := (h.past t ht).trans (hc (Nat.le_succ i))

/-- The record after `seconds_filter/3`. -/
theorem Counted.filtered (hc : Monotone seconds) (h : Counted seconds i attempts s) :
    Counted seconds (i + 1) attempts { s with
      restartCount := (secondsFilter s.restartTimes (seconds i) s.maxT).1
      restartTimes := (secondsFilter s.restartTimes (seconds i) s.maxT).2 } := by
  have hperm := secondsFilter_perm (fun t ht => h.past t (h.subperm.subset ht)) s.maxT
  have hle : (secondsFilter s.restartTimes (seconds i) s.maxT).1 ≤ s.restartCount := by
    rw [secondsFilter_count, hperm.length_eq, h.count]
    exact List.length_filter_le _ _
  refine ⟨secondsFilter_count _ _ _, hle.trans h.le, ?_, ?_, (h.later hc).past⟩
  · exact hperm.subperm.trans ((List.filter_sublist).subperm.trans h.subperm)
  · have hrec : recently (seconds i) s.maxT attempts <+~ recently (seconds i) s.maxT s.restartTimes := by
      have := h.recent.filter fun t => decide (seconds i ≤ t + s.maxT)
      rwa [← recently, recently_recently le_rfl] at this
    refine List.Subperm.trans ?_ (hrec.trans hperm.symm.subperm)
    rw [← recently_recently (hc (Nat.le_succ i))]
    exact (List.filter_sublist).subperm

/-- An attempt that is counted. -/
theorem Counted.attempt (hc : Monotone seconds) (h : Counted seconds i attempts s) (hlt : s.restartCount < s.maxR) :
    Counted seconds (i + 1) (seconds i :: attempts)
      { s with restartCount := s.restartCount + 1, restartTimes := seconds i :: s.restartTimes } := by
  have hl := h.later hc
  refine ⟨congrArg (· + 1) h.count, hlt, (List.subperm_cons _).mpr h.subperm, ?_, ?_⟩
  · show recently _ _ (seconds i :: attempts) <+~ _
    rw [recently, List.filter_cons]
    split
    · exact (List.subperm_cons _).mpr hl.recent
    · exact hl.recent.trans List.Subperm.cons_self
  · intro t ht
    rcases List.mem_cons.mp ht with rfl | ht
    · exact hc (Nat.le_succ i)
    · exact hl.past t ht

theorem Counted.spaced (h : Counted seconds i attempts s)
    (hlt : s.restartCount < s.maxR) (hs : Spaced s.maxR s.maxT attempts) :
    Spaced s.maxR s.maxT (seconds i :: attempts) := by
  refine ⟨List.pairwise_cons.mpr ⟨h.past, hs.sorted⟩, fun {k x y} hx hy => ?_⟩
  cases k with
  | zero =>
    cases Option.some.inj hx
    obtain ⟨k, hk⟩ : ∃ k, s.maxR = k + 1 := ⟨s.maxR - 1, by omega⟩
    rw [hk, Nat.zero_add, List.getElem?_cons_succ] at hy
    refine lt_of_recently_length hs.sorted (h.recent.length_le.trans ?_) hy
    rw [← h.count]
    omega
  | succ k =>
    rw [Nat.succ_add, List.getElem?_cons_succ] at hy
    exact hs.apart hx hy

/-- What the outcome of a stage may be, and how it is counted. -/
def Outcome.Valid (seconds : Nat → Nat) (j : Nat) (attempts : List Nat) (maxR maxT : Nat) :
    Outcome Pid Start → Prop
  | .apply t s => s.maxR = maxR ∧ s.maxT = maxT ∧ Counted seconds j (t :: attempts) s ∧
      Spaced maxR maxT (t :: attempts)
  | .stage3Async _ s => s.maxR = maxR ∧ s.maxT = maxT ∧ Counted seconds j attempts s ∧ 0 < maxR
  | .maxRestarts => maxR = 0 ∨ maxR ≤ (recently (seconds (j - 1)) maxT attempts).length

theorem restartStage3_spec (hc : Monotone seconds)
    (h : Counted seconds i attempts s) (hs : Spaced s.maxR s.maxT attempts) (hpos : 0 < s.maxR) :
    ∃ j o, restartStage3 seconds i s = .ok (j, o) ∧ o.Valid seconds j attempts s.maxR s.maxT := by
  fun_induction restartStage3 seconds i s with
  | case1 i s h0 =>
    refine ⟨_, _, rfl, rfl, rfl, ?_, h.spaced (by omega) hs⟩
    have := h.attempt hc (by omega)
    rwa [h0.1, h0.2] at this
  | case2 i s h0 hR n ts hf hlt ih =>
    have hfil := h.filtered hc
    rw [hf] at hfil
    exact ih hfil hs hpos
  | case3 i s h0 hR n ts hf hlt =>
    refine ⟨_, _, rfl, Or.inr ?_⟩
    have hperm := secondsFilter_perm (fun t ht => h.past t (h.subperm.subset ht)) s.maxT
    have hcount := secondsFilter_count s.restartTimes (seconds i) s.maxT
    rw [hf] at hperm hcount
    have := (h.subperm.filter fun t => decide (seconds i ≤ t + s.maxT)).length_le
    rw [show i + 1 - 1 = i from rfl]
    have hl := hperm.length_eq
    simp only at hcount hl
    rw [recently] at hl ⊢
    omega
  | case4 i s h0 hR hnil =>
    exact absurd ⟨by rw [h.count, hnil]; rfl, hnil⟩ h0
  | case5 i s h0 hR hne =>
    have hlt : s.restartCount < s.maxR := lt_of_le_of_ne h.le fun he => hR he.symm
    exact ⟨_, _, rfl, rfl, rfl, h.attempt hc hlt, h.spaced hlt hs⟩

theorem restartStage2_spec (hc : Monotone seconds)
    (h : Counted seconds i attempts s) (hs : Spaced s.maxR s.maxT attempts) :
    ∃ j o, restartStage2 seconds i s = .ok (j, o) ∧ o.Valid seconds j attempts s.maxR s.maxT := by
  rw [restartStage2]
  split
  · rename_i h0
    exact ⟨_, _, rfl, Or.inl h0.2⟩
  · rename_i h0
    have hpos : 0 < s.maxR := by
      have := h.le
      omega
    split
    · exact restartStage3_spec hc h hs hpos
    · rename_i n ts Delay hv
      obtain ⟨d, hd⟩ : ∃ d, s.restartDelay = some d := by
        cases hd : s.restartDelay with
        | none =>
          rw [hd] at hv
          cases hv
        | some d => exact ⟨d, rfl⟩
      rw [hd] at hv
      cases hv
      have hfil := h.filtered hc
      simp only
      split
      · exact restartStage3_spec hc hfil hs hpos
      · rw [if_pos (restartDelayValueNow_le _ _)]
        exact ⟨_, _, rfl, rfl, rfl, hfil, hpos⟩

/-! ## Every run -/

/-- Where a process is: it runs, or a message to go on with its restart is on
its way, or it was given up. -/
inductive Stage where
  | running
  | stage2
  | stage3
  | givenUp
deriving DecidableEq

/-- A process of a service, with its record, the next reading of the clock,
and the times of the attempts to start it again, the last one first. -/
structure Process (Pid Start : Type) where
  stage : Stage
  service : Service Pid Start
  reads : Nat
  attempts : List Nat

/-- A process that has been started, with a new record. -/
def Process.new (s : Service Pid Start) : Process Pid Start :=
  { stage := .running, service := { s with restartCount := 0, restartTimes := [] }, reads := 0, attempts := [] }

/-- What an outcome means for the process, when the start function succeeds or not. -/
def Process.after (p : Process Pid Start) (started : Bool) : Nat × Outcome Pid Start → Process Pid Start
  | (j, .apply SecondsNow s) =>
    { stage := if started then .running else .stage2, service := s, reads := j, attempts := SecondsNow :: p.attempts }
  | (j, .stage3Async _ s) => { p with stage := .stage3, service := s, reads := j }
  | (j, .maxRestarts) => { p with stage := .givenUp, reads := j }

/-- What the monitor does with a process: it crashed, or a message came. -/
inductive Process.Step (seconds : Nat → Nat) : Process Pid Start → Process Pid Start → Prop
  | crash {p : Process Pid Start} {r : Nat × Outcome Pid Start} (started : Bool) : p.stage = .running →
      restartStage1 seconds p.reads p.service = .ok r → Step seconds p (p.after started r)
  | stage2 {p : Process Pid Start} {r : Nat × Outcome Pid Start} (started : Bool) : p.stage = .stage2 →
      restartStage2 seconds p.reads p.service = .ok r → Step seconds p (p.after started r)
  | stage3 {p : Process Pid Start} {r : Nat × Outcome Pid Start} (started : Bool) : p.stage = .stage3 →
      restartStage3 seconds p.reads p.service = .ok r → Step seconds p (p.after started r)

inductive Process.Reachable (seconds : Nat → Nat) (s : Service Pid Start) : Process Pid Start → Prop
  | new : Reachable seconds s (.new s)
  | step {p p' : Process Pid Start} : Reachable seconds s p → Process.Step seconds p p' → Reachable seconds s p'

/-- The record of a process and its attempts are in step. -/
structure Process.Inv (seconds : Nat → Nat) (maxR maxT : Nat) (p : Process Pid Start) : Prop where
  spaced : Spaced maxR maxT p.attempts
  counted : p.stage ≠ .givenUp → p.service.maxR = maxR ∧ p.service.maxT = maxT ∧
    Counted seconds p.reads p.attempts p.service
  stage3 : p.stage = .stage3 → 0 < maxR
  givenUp : p.stage = .givenUp → maxR = 0 ∨ maxR ≤ (recently (seconds (p.reads - 1)) maxT p.attempts).length

theorem Process.inv_new (seconds : Nat → Nat) (s : Service Pid Start) : (Process.new s).Inv seconds s.maxR s.maxT where
  spaced := ⟨List.Pairwise.nil, fun hx => by cases hx⟩
  counted _ := ⟨rfl, rfl, rfl, Nat.zero_le _, List.Subperm.refl _, List.Subperm.refl _,
    fun _ ht => absurd ht List.not_mem_nil⟩
  stage3 h := by cases h
  givenUp h := by cases h

variable {p : Process Pid Start}

theorem Process.inv_after {maxR maxT : Nat} (h : p.Inv seconds maxR maxT)
    {r : Nat × Outcome Pid Start} (hr : r.2.Valid seconds r.1 p.attempts maxR maxT) (started : Bool) :
    (p.after started r).Inv seconds maxR maxT := by
  obtain ⟨j, o⟩ := r
  cases o with
  | apply t s =>
    obtain ⟨hR, hT, hcount, hs⟩ := hr
    refine ⟨hs, fun _ => ⟨hR, hT, hcount⟩, fun hst => ?_, fun hst => ?_⟩ <;> cases started <;> cases hst
  | stage3Async d s =>
    obtain ⟨hR, hT, hcount, hpos⟩ := hr
    refine ⟨h.spaced, fun _ => ⟨hR, hT, hcount⟩, fun _ => hpos, fun hst => ?_⟩
    cases hst
  | maxRestarts =>
    refine ⟨h.spaced, fun hst => absurd rfl hst, fun hst => ?_, fun _ => hr⟩
    cases hst

/-- A stage never raises, and its outcome is valid. -/
theorem Process.Inv.stage_spec (hc : Monotone seconds) {maxR maxT : Nat}
    (h : p.Inv seconds maxR maxT) (hp : p.stage ≠ .givenUp) :
    (∃ r, restartStage1 seconds p.reads p.service = .ok r ∧ r.2.Valid seconds r.1 p.attempts maxR maxT) ∧
    (∃ r, restartStage2 seconds p.reads p.service = .ok r ∧ r.2.Valid seconds r.1 p.attempts maxR maxT) ∧
    (0 < maxR → ∃ r, restartStage3 seconds p.reads p.service = .ok r ∧
      r.2.Valid seconds r.1 p.attempts maxR maxT) := by
  obtain ⟨rfl, rfl, hcount⟩ := h.counted hp
  refine ⟨?_, ?_, fun hpos => ?_⟩
  · have hcount' : Counted seconds p.reads p.attempts { p.service with pids := ([] : List Pid) } :=
      ⟨hcount.count, hcount.le, hcount.subperm, hcount.recent, hcount.past⟩
    obtain ⟨j, o, hr, hv⟩ := restartStage2_spec hc hcount' h.spaced
    exact ⟨(j, o), hr, hv⟩
  · obtain ⟨j, o, hr, hv⟩ := restartStage2_spec hc hcount h.spaced
    exact ⟨(j, o), hr, hv⟩
  · obtain ⟨j, o, hr, hv⟩ := restartStage3_spec hc hcount h.spaced hpos
    exact ⟨(j, o), hr, hv⟩

theorem Process.inv_step (hc : Monotone seconds) {maxR maxT : Nat} {p p' : Process Pid Start}
    (h : p.Inv seconds maxR maxT) (hs : Process.Step seconds p p') : p'.Inv seconds maxR maxT := by
  cases hs with
  | crash started hp hr =>
    obtain ⟨r, hr', hv⟩ := (h.stage_spec hc (by rw [hp]; decide)).1
    cases hr.symm.trans hr'
    exact inv_after h hv started
  | stage2 started hp hr =>
    obtain ⟨r, hr', hv⟩ := (h.stage_spec hc (by rw [hp]; decide)).2.1
    cases hr.symm.trans hr'
    exact inv_after h hv started
  | stage3 started hp hr =>
    obtain ⟨r, hr', hv⟩ := (h.stage_spec hc (by rw [hp]; decide)).2.2 (h.stage3 hp)
    cases hr.symm.trans hr'
    exact inv_after h hv started

theorem Process.Reachable.inv (hc : Monotone seconds)
    (h : Process.Reachable seconds s p) : p.Inv seconds s.maxR s.maxT := by
  induction h with
  | new => exact inv_new seconds s
  | step _ hs ih => exact inv_step hc ih hs

/-- Under a clock that never goes back, for every process and every sequence
of its crashes, failed attempts and delays: any `maxR + 1` attempts in a row
span more than `maxT` seconds; a process that is given up had no attempt
allowed, or `maxR` attempts in the `maxT` seconds before; and the stage it is
in raises nothing. -/
theorem restart_intensity (hc : Monotone seconds) (h : Process.Reachable seconds s p) :
    (∀ k x y, p.attempts[k]? = some x → p.attempts[k + s.maxR]? = some y → y + s.maxT < x) ∧
    (p.stage = .givenUp → s.maxR = 0 ∨
      s.maxR ≤ (p.attempts.filter fun t => seconds (p.reads - 1) ≤ t + s.maxT).length) ∧
    (p.stage = .running → ∃ r, restartStage1 seconds p.reads p.service = .ok r) ∧
    (p.stage = .stage2 → ∃ r, restartStage2 seconds p.reads p.service = .ok r) ∧
    (p.stage = .stage3 → ∃ r, restartStage3 seconds p.reads p.service = .ok r) := by
  have hinv := h.inv hc
  refine ⟨fun k x y => hinv.spaced.apart, hinv.givenUp, fun hp => ?_, fun hp => ?_, fun hp => ?_⟩
  · obtain ⟨r, hr, -⟩ := (hinv.stage_spec hc (by rw [hp]; decide)).1
    exact ⟨r, hr⟩
  · obtain ⟨r, hr, -⟩ := (hinv.stage_spec hc (by rw [hp]; decide)).2.1
    exact ⟨r, hr⟩
  · obtain ⟨r, hr, -⟩ := (hinv.stage_spec hc (by rw [hp]; decide)).2.2 (hinv.stage3 hp)
    exact ⟨r, hr⟩

/-- A process that crashes three times, with one restart allowed in 5 seconds: the third crash comes too early. -/
theorem restart_intensity_crash :
    let s : Service Nat Nat := { start := 0, processIndex := 0, countProcess := 1, countThread := 1, pids := [7],
                                 restartDelay := none, maxR := 1, maxT := 5 }
    let seconds : Nat → Nat := fun i => 10 * min i 2
    ∃ p : Process Nat Nat, Process.Reachable seconds s p ∧ p.attempts = [20, 0] ∧ p.stage = .givenUp ∧
      (∀ k x y, p.attempts[k]? = some x → p.attempts[k + s.maxR]? = some y → y + s.maxT < x) ∧
      (s.maxR = 0 ∨ s.maxR ≤ (p.attempts.filter fun t => seconds (p.reads - 1) ≤ t + s.maxT).length) := by
  intro s seconds
  have hc : Monotone seconds := fun a b h => by simp only [seconds]; omega
  let t : Nat → Service Nat Nat := fun n => { s with pids := [], restartCount := 1, restartTimes := [n] }
  have hr₁ : restartStage1 seconds 0 s = .ok (1, .apply 0 (t 0)) := by
    simp [s, t, seconds, restartStage1, restartStage2, restartDelayValue, restartStage3]
  have h₁ : Process.Reachable seconds s _ := .step .new (.crash true rfl hr₁)
  have hr₂ : restartStage1 seconds 1 (t 0) = .ok (3, .apply 20 (t 20)) := by
    simp [s, t, seconds, restartStage1, restartStage2, restartDelayValue, restartStage3, secondsFilter,
        secondsFilterLoop]
  have h₂ := h₁.step (.crash true rfl hr₂)
  have hr₃ : restartStage1 seconds 3 (t 20) = .ok (4, .maxRestarts) := by
    simp [s, t, seconds, restartStage1, restartStage2, restartDelayValue, restartStage3, secondsFilter,
        secondsFilterLoop]
  have h₃ := h₂.step (.crash true rfl hr₃)
  exact ⟨_, h₃, rfl, rfl, (restart_intensity hc h₃).1, (restart_intensity hc h₃).2.1 rfl⟩

end CloudI.Monitor
