import Mathlib.Data.List.Basic

/-!
# Callbacks in series

What it means that the callbacks of a component run one at a time on one
state: `Serial.Step` starts a callback on the current state when none runs,
ends the one that runs with the next state, or changes the state while none
runs. `Serial.Run` is a sequence of these.
-/

namespace CloudI

/-- What is done to the state: the state given, and the one returned. -/
inductive Activity (C S : Type) where
  | started (c : C) (given : S)
  | finished (c : C) (returned : S)
  | updated (given returned : S)

/-- The current state, and the callback that runs. -/
structure Serial (C S : Type) where
  state : S
  running : Option C

namespace Serial

variable {C S : Type}

inductive Step : Serial C S → Activity C S → Serial C S → Prop
  | started (c : C) (s : S) : Step ⟨s, none⟩ (.started c s) ⟨s, some c⟩
  | finished (c : C) (s s' : S) : Step ⟨s, some c⟩ (.finished c s') ⟨s', none⟩
  | updated (s s' : S) : Step ⟨s, none⟩ (.updated s s') ⟨s', none⟩

inductive Run : Serial C S → List (Activity C S) → Serial C S → Prop
  | nil (a : Serial C S) : Run a [] a
  | snoc {a b c : Serial C S} {l : List (Activity C S)} {e : Activity C S} :
      Run a l b → Step b e c → Run a (l ++ [e]) c

/-- The state that the activities left. -/
def lastState (s : S) : List (Activity C S) → S
  | [] => s
  | .started _ _ :: l => lastState s l
  | .finished _ s' :: l => lastState s' l
  | .updated _ s' :: l => lastState s' l

theorem lastState_append (s : S) (l l' : List (Activity C S)) :
    lastState s (l ++ l') = lastState (lastState s l) l' := by
  induction l generalizing s with
  | nil => rfl
  | cons e l ih => cases e <;> exact ih _

theorem Step.state_eq {a b : Serial C S} {e : Activity C S} (h : Step a e b) : b.state = lastState a.state [e] := by
  cases h <;> rfl

theorem Run.state_eq {a b : Serial C S} {l : List (Activity C S)} (h : Run a l b) :
    b.state = lastState a.state l := by
  induction h with
  | nil => rfl
  | snoc _ hs ih => rw [lastState_append, ← ih, hs.state_eq]

/-- What comes before an activity of a run is a run, and the activity is a step from there. -/
theorem Run.split {a b : Serial C S} {l : List (Activity C S)} (h : Run a l b) {l₁ l₂ : List (Activity C S)}
    {e : Activity C S} (hl : l = l₁ ++ e :: l₂) : ∃ c d, Run a l₁ c ∧ Step c e d := by
  induction h generalizing l₂ with
  | nil =>
    rw [eq_comm, List.append_eq_nil_iff] at hl
    cases hl.2
  | @snoc b c l e' hrun hs ih =>
    rcases List.eq_nil_or_concat l₂ with rfl | ⟨l₃, e₃, rfl⟩
    · obtain ⟨rfl, he⟩ := List.append_inj' hl rfl
      rw [← (List.cons.inj he).1]
      exact ⟨b, c, hrun, hs⟩
    · rw [List.concat_eq_append, ← List.cons_append, ← List.append_assoc] at hl
      exact ih (List.append_inj' hl rfl).1

/-- A callback starts on the state that the last callback or update left. -/
theorem Run.given_eq {a b : Serial C S} {l : List (Activity C S)} (h : Run a l b) {l₁ l₂ : List (Activity C S)}
    {c : C} {s : S} (hl : l = l₁ ++ .started c s :: l₂) : s = lastState a.state l₁ := by
  obtain ⟨b', d, hrun, hs⟩ := h.split hl
  rw [← hrun.state_eq]
  cases hs
  rfl

/-- An update is given that state too. -/
theorem Run.updated_eq {a b : Serial C S} {l : List (Activity C S)} (h : Run a l b) {l₁ l₂ : List (Activity C S)}
    {s s' : S} (hl : l = l₁ ++ .updated s s' :: l₂) : s = lastState a.state l₁ := by
  obtain ⟨b', d, hrun, hs⟩ := h.split hl
  rw [← hrun.state_eq]
  cases hs
  rfl

end Serial

end CloudI
