import Mathlib.Data.List.Basic
import CloudI.Framework.Exn

/-!
# The service processes of the monitor, and their restarts

A `Service` is the record that the monitor keeps for one process of a service.
The stages of a restart decide what happens to the process by the number and
the times of the attempts so far (`Outcome`). They read the clock: `seconds i`
is what the `i`-th reading returns, and a stage returns the index of the next.
-/

namespace CloudI.Monitor

/-- `?TIMEOUT_MAX_ERLANG` -/
def TIMEOUT_MAX_ERLANG : Nat := 4294967295

inductive RestartDelayMethod where
  | exponential
  | linear
  | absolute
deriving DecidableEq

/-- `restart_delay`, as `restart_delay_validate/1` leaves it. -/
structure RestartDelay where
  method : RestartDelayMethod
  timeMin : Nat
  timeMax : Nat
  timeSlope : Nat
  timeMax_le : timeMax ≤ TIMEOUT_MAX_ERLANG
  absolute : method = .absolute → timeMin = timeMax

/-- `restart_delay_value_now/2` -/
def restartDelayValueNow (RestartCount : Nat) (d : RestartDelay) : Nat :=
  match d.method with
  | .exponential =>
    let TimeValue := (1 <<< RestartCount) * d.timeMin
    if TimeValue > d.timeMax then d.timeMax else TimeValue
  | .linear =>
    let TimeValue := d.timeSlope * RestartCount + d.timeMin
    if TimeValue > d.timeMax then d.timeMax else TimeValue
  | .absolute => d.timeMin

theorem restartDelayValueNow_le (n : Nat) (d : RestartDelay) : restartDelayValueNow n d ≤ TIMEOUT_MAX_ERLANG := by
  refine Nat.le_trans ?_ d.timeMax_le
  rw [restartDelayValueNow]
  split
  · simp only
    split <;> omega
  · simp only
    split <;> omega
  · rename_i h
    exact Nat.le_of_eq (d.absolute h)

/-- The loop of `seconds_filter/3`. -/
def secondsFilterLoop : List Nat → List Nat → Nat → Nat → Nat → Nat × List Nat
  | [], Output, Count, _, _ => (Count, Output)
  | Seconds :: L, Output, Count, SecondsNow, MaxPeriod =>
    if SecondsNow < Seconds ∨ SecondsNow - Seconds > MaxPeriod then
      secondsFilterLoop L Output Count SecondsNow MaxPeriod
    else secondsFilterLoop L (Seconds :: Output) (Count + 1) SecondsNow MaxPeriod

/-- `seconds_filter/3` -/
def secondsFilter (L : List Nat) (SecondsNow MaxPeriod : Nat) : Nat × List Nat :=
  secondsFilterLoop L [] 0 SecondsNow MaxPeriod

/-- The `service` record; `start` is the module, the function and the arguments that start a process. -/
structure Service (Pid Start : Type) where
  start : Start
  processIndex : Nat
  countProcess : Int
  countThread : Nat
  pids : List Pid
  restartCount : Nat := 0
  restartTimes : List Nat := []
  restartDelay : Option RestartDelay
  maxR : Nat
  maxT : Nat

/-- What a stage of a restart decided: the start function is called at the
time given, `restart_stage3` comes after a delay, or the process is given up. -/
inductive Outcome (Pid Start : Type) where
  | apply (SecondsNow : Nat) (Service : Service Pid Start)
  | stage3Async (Delay : Nat) (Service : Service Pid Start)
  | maxRestarts

variable {Pid Start : Type} (seconds : Nat → Nat) (i : Nat)

/-- `restart_delay_value/3` -/
def restartDelayValue (RestartTimes : List Nat) (MaxT : Nat) : Option RestartDelay → Option (Nat × List Nat × Nat)
  | none => none
  | some d =>
    let (NewRestartCount, NewRestartTimes) := secondsFilter RestartTimes (seconds i) MaxT
    some (NewRestartCount, NewRestartTimes, restartDelayValueNow NewRestartCount d)

/-- `restart_stage3/5`, up to the call of the start function. -/
def restartStage3 (i : Nat) (s : Service Pid Start) : Except Exn (Nat × Outcome Pid Start) :=
  if s.restartCount = 0 ∧ s.restartTimes = [] then
    .ok (i + 1, .apply (seconds i) { s with restartCount := 1, restartTimes := [seconds i] })
  else if s.maxR = s.restartCount then
    let (NewRestartCount, NewRestartTimes) := secondsFilter s.restartTimes (seconds i) s.maxT
    if NewRestartCount < s.restartCount then
      restartStage3 (i + 1) { s with restartCount := NewRestartCount, restartTimes := NewRestartTimes }
    else .ok (i + 1, .maxRestarts)
  else
    -- the elapsed seconds that are logged are those since `lists:min(RestartTimes)`
    match s.restartTimes with
    | [] => .error .functionClause
    | RestartTimes => .ok (i + 1, .apply (seconds i)
        { s with restartCount := s.restartCount + 1, restartTimes := seconds i :: RestartTimes })
termination_by s.restartCount

/-- `restart_stage2/5` -/
def restartStage2 (s : Service Pid Start) : Except Exn (Nat × Outcome Pid Start) :=
  if s.restartCount = 0 ∧ s.maxR = 0 then .ok (i, .maxRestarts)
  else
    match restartDelayValue seconds i s.restartTimes s.maxT s.restartDelay with
    | none => restartStage3 seconds i s
    | some (NewRestartCount, NewRestartTimes, Delay) =>
      let s' := { s with restartCount := NewRestartCount, restartTimes := NewRestartTimes }
      if Delay = 0 then restartStage3 seconds (i + 1) s'
      else if Delay ≤ TIMEOUT_MAX_ERLANG then .ok (i + 1, .stage3Async Delay s')
      else .error .caseClause

/-- `restart_stage1/5`, after `terminate_service/6`. -/
def restartStage1 (s : Service Pid Start) : Except Exn (Nat × Outcome Pid Start) :=
  restartStage2 seconds i { s with pids := [] }

end CloudI.Monitor
