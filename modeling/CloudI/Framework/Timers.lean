import Mathlib.Data.List.Basic
import Mathlib.Logic.Function.Basic

/-!
# Timers of a process

The timers that a process starts for itself with `erlang:send_after/3`. A
timer that ends puts its message into the mailbox, and cancelling it later
does not take the message back: `Pending` says that the message of a timer is
still to come or in the mailbox, and is kept by everything that does not
cancel the timer or receive the message.
-/

namespace CloudI

/-- The timers, with the time left and the message of each, and the messages
in the mailbox of those that ended. -/
structure Timers (M : Type) where
  next : Nat
  running : Nat → Option (Nat × M)
  mailbox : List M

namespace Timers

variable {M : Type}

def new : Timers M := ⟨0, fun _ => none, []⟩

/-- `erlang:send_after/3` -/
def sendAfter (Time : Nat) (Msg : M) (t : Timers M) : Nat × Timers M :=
  (t.next, { t with next := t.next + 1, running := Function.update t.running t.next (some (Time, Msg)) })

/-- `erlang:cancel_timer/1`, with `none` for `false` -/
def cancelTimer (ref : Nat) (t : Timers M) : Option Nat × Timers M :=
  ((t.running ref).map Prod.fst, { t with running := Function.update t.running ref none })

/-- What time does: it passes, and a timer with no time left ends. -/
inductive Elapse : Timers M → Timers M → Prop
  | pass {t : Timers M} (ms : Nat) :
      Elapse t { t with running := fun ref => (t.running ref).map fun x => (x.1 - ms, x.2) }
  | fire {t : Timers M} {ref : Nat} {Msg : M} : t.running ref = some (0, Msg) →
      Elapse t { t with running := Function.update t.running ref none, mailbox := t.mailbox ++ [Msg] }

/-- Receive a message of the mailbox. -/
inductive Receive (Msg : M) : Timers M → Timers M → Prop
  | intro {t : Timers M} {l₁ l₂ : List M} : t.mailbox = l₁ ++ Msg :: l₂ → Receive Msg t { t with mailbox := l₁ ++ l₂ }

/-- The timer with the message runs. -/
def Runs (t : Timers M) (ref : Nat) (Msg : M) : Prop := ∃ left, t.running ref = some (left, Msg)

/-- The message of the timer is still to come. -/
def Pending (t : Timers M) (ref : Nat) (Msg : M) : Prop := t.Runs ref Msg ∨ Msg ∈ t.mailbox

variable {t t' : Timers M} {ref ref' : Nat} {Msg Msg' : M}

theorem not_runs_new : ¬ (new : Timers M).Runs ref Msg := fun ⟨_, h⟩ => by cases h

theorem runs_sendAfter {Time : Nat} :
    (sendAfter Time Msg t).2.Runs ref' Msg' ↔ (ref' = t.next ∧ Msg' = Msg) ∨ (ref' ≠ t.next ∧ t.Runs ref' Msg') := by
  simp only [Runs, sendAfter, Function.update_apply]
  by_cases h : ref' = t.next
  · simp [h, eq_comm]
  · simp [h]

theorem runs_cancelTimer : (cancelTimer ref t).2.Runs ref' Msg' ↔ ref' ≠ ref ∧ t.Runs ref' Msg' := by
  simp only [Runs, cancelTimer, Function.update_apply]
  by_cases h : ref' = ref
  · simp [h]
  · simp [h]

/-- A timer that runs after time passed ran before. -/
theorem Elapse.runs (h : Elapse t t') (hr : t'.Runs ref Msg) : t.Runs ref Msg := by
  obtain ⟨left, hr⟩ := hr
  cases h with
  | pass ms =>
    obtain ⟨x, hx, he⟩ := Option.map_eq_some_iff.mp hr
    cases he
    exact ⟨x.1, hx⟩
  | fire _ =>
    simp only [Function.update_apply] at hr
    split at hr
    · cases hr
    · exact ⟨left, hr⟩

theorem Elapse.next_eq (h : Elapse t t') : t'.next = t.next := by
  cases h <;> rfl

/-- The messages in the mailbox after time passed were there, or their timer ran. -/
theorem Elapse.mem_mailbox (h : Elapse t t') (hm : Msg ∈ t'.mailbox) : Msg ∈ t.mailbox ∨ ∃ ref, t.Runs ref Msg := by
  cases h with
  | pass ms => exact .inl hm
  | fire hr =>
    rcases List.mem_append.mp hm with hm | hm
    · exact .inl hm
    · rw [List.mem_singleton.mp hm]
      exact .inr ⟨_, 0, hr⟩

theorem Elapse.pending (h : Elapse t t') (hp : t.Pending ref Msg) : t'.Pending ref Msg := by
  cases h with
  | pass ms =>
    rcases hp with ⟨left, hr⟩ | hm
    · exact .inl ⟨left - ms, by simp [hr]⟩
    · exact .inr hm
  | @fire ref₀ Msg₀ h₀ =>
    rcases hp with ⟨left, hr⟩ | hm
    · by_cases heq : ref = ref₀
      · rw [heq, h₀] at hr
        cases hr
        exact .inr (List.mem_append_right _ (List.mem_singleton.mpr rfl))
      · exact .inl ⟨left, by simp [heq, hr]⟩
    · exact .inr (List.mem_append_left _ hm)

theorem pending_sendAfter {Time : Nat} (h : ref ≠ t.next) (hp : t.Pending ref Msg) :
    (sendAfter Time Msg' t).2.Pending ref Msg :=
  hp.imp (fun hr => runs_sendAfter.mpr (.inr ⟨h, hr⟩)) id

theorem pending_cancelTimer (h : ref ≠ ref') (hp : t.Pending ref Msg) : (cancelTimer ref' t).2.Pending ref Msg :=
  hp.imp (fun hr => runs_cancelTimer.mpr ⟨h, hr⟩) id

theorem Receive.mem (h : Receive Msg t t') : Msg ∈ t.mailbox := by
  obtain ⟨h⟩ := h
  rw [h]
  exact List.mem_append_right _ List.mem_cons_self

theorem Receive.runs (h : Receive Msg t t') : t'.Runs ref Msg' ↔ t.Runs ref Msg' := by
  obtain ⟨-⟩ := h
  exact Iff.rfl

theorem Receive.next_eq (h : Receive Msg t t') : t'.next = t.next := by
  obtain ⟨-⟩ := h
  rfl

theorem Receive.mem_mailbox (h : Receive Msg t t') (hm : Msg' ∈ t'.mailbox) : Msg' ∈ t.mailbox := by
  obtain ⟨h⟩ := h
  rw [h]
  exact ((List.sublist_cons_self Msg _).append_left _).mem hm

theorem Receive.pending (h : Receive Msg t t') (hne : Msg' ≠ Msg) (hp : t.Pending ref Msg') :
    t'.Pending ref Msg' := by
  obtain ⟨h⟩ := h
  rcases hp with hr | hm
  · exact .inl hr
  · rw [h] at hm
    refine .inr ?_
    simpa [hne] using hm

/-! ## A timer that is started again -/

/-- The message is neither to come nor in the mailbox. -/
def Quiet (t : Timers M) (Msg : M) : Prop := ∀ ref, ¬ t.Pending ref Msg

/-- The message comes at most once. -/
structure AtMostOne [DecidableEq M] (t : Timers M) (Msg : M) : Prop where
  runs : ∀ ref ref', t.Runs ref Msg → t.Runs ref' Msg → ref = ref'
  count : t.mailbox.count Msg ≤ 1
  apart : Msg ∈ t.mailbox → ∀ ref, ¬ t.Runs ref Msg

/-- The timers that run were started. -/
def Fresh (t : Timers M) : Prop := ∀ ref Msg, t.Runs ref Msg → ref < t.next

theorem fresh_new : (new : Timers M).Fresh := fun _ _ h => absurd h not_runs_new

theorem Fresh.elapse (h : t.Fresh) (he : Elapse t t') : t'.Fresh := fun ref Msg hr => by
  rw [he.next_eq]
  exact h ref Msg (he.runs hr)

theorem Fresh.receive (h : t.Fresh) (hr : Receive Msg t t') : t'.Fresh := fun ref Msg' hr' => by
  rw [hr.next_eq]
  exact h ref Msg' (hr.runs.mp hr')

theorem Fresh.sendAfter (h : t.Fresh) {Time : Nat} : (sendAfter Time Msg t).2.Fresh := fun ref Msg' hr => by
  rcases runs_sendAfter.mp hr with ⟨rfl, -⟩ | ⟨-, hr⟩
  · exact Nat.lt_succ_self _
  · exact Nat.lt_succ_of_lt (h ref Msg' hr)

theorem Fresh.pending_sendAfter (hf : t.Fresh) {Time : Nat} (hp : t.Pending ref Msg) :
    (Timers.sendAfter Time Msg' t).2.Pending ref Msg :=
  hp.imp (fun hr => runs_sendAfter.mpr (.inr ⟨Nat.ne_of_lt (hf ref Msg hr), hr⟩)) id

theorem quiet_new : (new : Timers M).Quiet Msg := fun _ h => h.elim not_runs_new fun hm => by cases hm

theorem quiet_sendAfter_ne {Time : Nat} (hne : Msg' ≠ Msg) (h : t.Quiet Msg') :
    (sendAfter Time Msg t).2.Quiet Msg' := by
  rintro ref (hr | hm)
  · rcases runs_sendAfter.mp hr with ⟨-, he⟩ | ⟨-, hr⟩
    · exact hne he
    · exact h ref (.inl hr)
  · exact h ref (.inr hm)

variable [DecidableEq M]

theorem Quiet.atMostOne (h : t.Quiet Msg) : t.AtMostOne Msg where
  runs ref _ hr _ := absurd (.inl hr) (h ref)
  count := by
    rw [List.count_eq_zero.mpr fun hm => h 0 (.inr hm)]
    exact Nat.zero_le 1
  apart hm := absurd (.inr hm) (h 0)

theorem Quiet.sendAfter {Time : Nat} (h : t.Quiet Msg) : (sendAfter Time Msg t).2.AtMostOne Msg where
  runs ref ref' hr hr' := by
    rcases runs_sendAfter.mp hr with ⟨rfl, -⟩ | ⟨-, hr⟩
    · rcases runs_sendAfter.mp hr' with ⟨rfl, -⟩ | ⟨-, hr'⟩
      · rfl
      · exact absurd (.inl hr') (h ref')
    · exact absurd (.inl hr) (h ref)
  count := h.atMostOne.count
  apart hm := absurd (.inr hm) (h 0)

theorem AtMostOne.sendAfter_ne {Time : Nat} (hne : Msg' ≠ Msg) (h : t.AtMostOne Msg') :
    (Timers.sendAfter Time Msg t).2.AtMostOne Msg' := by
  have hruns : ∀ ref, (Timers.sendAfter Time Msg t).2.Runs ref Msg' → t.Runs ref Msg' := by
    intro ref hr
    rcases runs_sendAfter.mp hr with ⟨-, he⟩ | ⟨-, hr⟩
    · exact absurd he hne
    · exact hr
  exact ⟨fun ref ref' hr hr' => h.runs ref ref' (hruns ref hr) (hruns ref' hr'), h.count,
    fun hm ref hr => h.apart hm ref (hruns ref hr)⟩

theorem AtMostOne.of_sendAfter {Time : Nat} (hf : t.Fresh) (h : (Timers.sendAfter Time Msg t).2.AtMostOne Msg') :
    t.AtMostOne Msg' := by
  have hruns : ∀ ref, t.Runs ref Msg' → (Timers.sendAfter Time Msg t).2.Runs ref Msg' := fun ref hr =>
    runs_sendAfter.mpr (.inr ⟨Nat.ne_of_lt (hf ref Msg' hr), hr⟩)
  exact ⟨fun ref ref' hr hr' => h.runs ref ref' (hruns ref hr) (hruns ref' hr'), h.count,
    fun hm ref hr => h.apart hm ref (hruns ref hr)⟩

/-- A timer that is started while the message is still to come makes it come twice. -/
theorem not_atMostOne_sendAfter {Time : Nat} (hf : t.Fresh) {ref : Nat} (hp : t.Pending ref Msg) :
    ¬ (Timers.sendAfter Time Msg t).2.AtMostOne Msg := by
  intro h
  have hnew : (Timers.sendAfter Time Msg t).2.Runs t.next Msg := runs_sendAfter.mpr (.inl ⟨rfl, rfl⟩)
  rcases hp with hr | hm
  · have hlt := hf ref Msg hr
    exact Nat.ne_of_lt hlt (h.runs ref t.next (runs_sendAfter.mpr (.inr ⟨Nat.ne_of_lt hlt, hr⟩)) hnew)
  · exact h.apart hm t.next hnew

theorem Elapse.atMostOne (h : Elapse t t') (ha : t.AtMostOne Msg) : t'.AtMostOne Msg := by
  cases h with
  | pass ms =>
    have hruns : ∀ ref, _ → t.Runs ref Msg := fun _ => (Elapse.pass ms).runs
    exact ⟨fun ref ref' hr hr' => ha.runs ref ref' (hruns ref hr) (hruns ref' hr'), ha.count,
      fun hm ref hr => ha.apart hm ref (hruns ref hr)⟩
  | @fire ref₀ Msg₀ h₀ =>
    have hruns : ∀ ref, _ → t.Runs ref Msg := fun _ => (Elapse.fire h₀).runs
    refine ⟨fun ref ref' hr hr' => ha.runs ref ref' (hruns ref hr) (hruns ref' hr'), ?_, fun hm ref hr => ?_⟩
    · rw [List.count_append, List.count_singleton]
      split
      · rename_i he
        have he : Msg₀ = Msg := beq_iff_eq.mp he
        have hnone : t.mailbox.count Msg = 0 :=
          List.count_eq_zero.mpr fun hm => ha.apart hm ref₀ ⟨0, he ▸ h₀⟩
        omega
      · exact ha.count
    · have hr₁ := hruns ref hr
      rcases List.mem_append.mp hm with hm | hm
      · exact ha.apart hm ref hr₁
      · -- the timer that ended is the only one with the message
        rw [List.mem_singleton.mp hm] at hr₁ hr ha
        obtain rfl := ha.runs ref ref₀ hr₁ ⟨0, h₀⟩
        obtain ⟨left, hr⟩ := hr
        simp at hr

theorem Receive.quiet (h : Receive Msg t t') (ha : t.AtMostOne Msg) : t'.Quiet Msg := by
  have hm := h.mem
  rintro ref (hr | hm')
  · exact ha.apart hm ref (h.runs.mp hr)
  · obtain ⟨h⟩ := h
    have hcount := ha.count
    have hpos := List.count_pos_iff.mpr hm'
    rw [h, List.count_append, List.count_cons_self] at hcount
    rw [List.count_append] at hpos
    omega

/-- Fewer messages and fewer timers. -/
theorem AtMostOne.sublist (ha : t.AtMostOne Msg) (hruns : ∀ ref, t'.Runs ref Msg → t.Runs ref Msg)
    (hsub : t'.mailbox.Sublist t.mailbox) : t'.AtMostOne Msg :=
  ⟨fun ref ref' hr hr' => ha.runs ref ref' (hruns ref hr) (hruns ref' hr'), Nat.le_trans (hsub.count_le Msg) ha.count,
    fun hm ref hr => ha.apart (hsub.mem hm) ref (hruns ref hr)⟩

theorem Receive.atMostOne (h : Receive Msg t t') (ha : t.AtMostOne Msg') : t'.AtMostOne Msg' := by
  refine ⟨fun ref ref' hr hr' => ha.runs ref ref' (h.runs.mp hr) (h.runs.mp hr'), ?_,
    fun hm ref hr => ha.apart (h.mem_mailbox hm) ref (h.runs.mp hr)⟩
  obtain ⟨h⟩ := h
  refine Nat.le_trans ?_ ha.count
  rw [h]
  exact ((List.sublist_cons_self Msg _).append_left _).count_le Msg'

end Timers

end CloudI
