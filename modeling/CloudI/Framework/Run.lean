import Mathlib.Logic.Relation

/-!
# Runs

Runs of a component under a sequence of operations, beside the runs of a
total reference. `runOps_refines` takes one step of the component that
matches one of the reference under a relation, and gives every run: the
component never raises, its replies are the reference's, and the states stay
related. `Allowed` limits the operations to those the reference state admits.
-/

namespace CloudI

universe u

variable {σ ρ ω τ : Type u} {ε : Type u}

/-- Run a list of operations, collecting the replies, up to the first error. -/
def runOps (step : ω → σ → Except ε (τ × σ)) : List ω → σ → Except ε (List τ × σ)
  | [], s => .ok ([], s)
  | op :: ops, s => do
    let (o, s') ← step op s
    let (os, s'') ← runOps step ops s'
    return (o :: os, s'')

/-- Run a list of operations on the reference. -/
def runReference (step : ω → ρ → τ × ρ) : List ω → ρ → List τ × ρ
  | [], r => ([], r)
  | op :: ops, r =>
    let (o, r') := step op r
    let (os, r'') := runReference step ops r'
    (o :: os, r'')

/-- Every operation is admitted by the reference state it meets. -/
def Allowed (step : ω → ρ → τ × ρ) (ok : ω → ρ → Prop) : List ω → ρ → Prop
  | [], _ => True
  | op :: ops, r => ok op r ∧ Allowed step ok ops (step op r).2

/-- Each admitted operation runs as the reference does, and keeps the relation. -/
def Refines (step : ω → σ → Except ε (τ × σ)) (ref : ω → ρ → τ × ρ) (ok : ω → ρ → Prop)
    (rel : σ → ρ → Prop) : Prop :=
  ∀ op s r, rel s r → ok op r → ∃ s', step op s = .ok ((ref op r).1, s') ∧ rel s' (ref op r).2

theorem runOps_refines {step : ω → σ → Except ε (τ × σ)} {ref : ω → ρ → τ × ρ} {ok : ω → ρ → Prop}
    {rel : σ → ρ → Prop} (h : Refines step ref ok rel) {ops : List ω} {s : σ} {r : ρ}
    (hrel : rel s r) (hok : Allowed ref ok ops r) :
    ∃ s', runOps step ops s = .ok ((runReference ref ops r).1, s') ∧
      rel s' (runReference ref ops r).2 := by
  induction ops generalizing s r with
  | nil => exact ⟨s, rfl, hrel⟩
  | cons op ops ih =>
    obtain ⟨s₁, hs₁, hrel₁⟩ := h op s r hrel hok.1
    obtain ⟨s₂, hs₂, hrel₂⟩ := ih hrel₁ hok.2
    refine ⟨s₂, ?_, hrel₂⟩
    simp only [runOps, hs₁, hs₂, runReference, bind, Except.bind, pure, Except.pure]

/-! ## Runs without replies -/

/-- Both raise the same, or neither raises and the results are related. -/
def Agree (rel : σ → ρ → Prop) (x : Except ε σ) (y : Except ε ρ) : Prop :=
  match x, y with
  | .ok s, .ok r => rel s r
  | .error e, .error e' => e = e'
  | _, _ => False

theorem Agree.mono {rel rel' : σ → ρ → Prop} (h : ∀ s r, rel s r → rel' s r) {x : Except ε σ}
    {y : Except ε ρ} (hxy : Agree rel x y) : Agree rel' x y := by
  cases x <;> cases y <;> first | exact h _ _ hxy | exact hxy

/-- Every operation of a run meets its condition on the state before it. -/
def Guarded (step : σ → ω → Except ε σ) (ok : ω → σ → Prop) : List ω → σ → Prop
  | [], _ => True
  | op :: ops, s => ok op s ∧ ∀ s', step s op = .ok s' → Guarded step ok ops s'

theorem foldlM_agree {step : σ → ω → Except ε σ} {ref : ρ → ω → Except ε ρ} {ok : ω → σ → Prop}
    {rel : σ → ρ → Prop} (h : ∀ op s r, rel s r → ok op s → Agree rel (step s op) (ref r op))
    {ops : List ω} {s : σ} {r : ρ} (hrel : rel s r) (hok : Guarded step ok ops s) :
    Agree rel (ops.foldlM step s) (ops.foldlM ref r) := by
  induction ops generalizing s r with
  | nil => exact hrel
  | cons op ops ih =>
    have hop := h op s r hrel hok.1
    have hnext := hok.2
    rw [List.foldlM_cons, List.foldlM_cons]
    cases hs : step s op with
    | error e =>
      cases hr : ref r op with
      | error e' => rwa [hs, hr] at hop
      | ok r' => rw [hs, hr] at hop; exact hop.elim
    | ok s' =>
      cases hr : ref r op with
      | error e' => rw [hs, hr] at hop; exact hop.elim
      | ok r' =>
        rw [hs, hr] at hop
        exact ih hop (hnext s' hs)

/-- Steps that do not raise, and that keep a relation to a total reference. -/
theorem foldlM_foldl {α β : Type*} {step : α → ω → Except ε α} (ref : β → ω → β) (rel : α → β → Prop)
    (h : ∀ {s r} op, rel s r → ∃ s', step s op = .ok s' ∧ rel s' (ref r op)) (ops : List ω) {s : α} {r : β}
    (hrel : rel s r) : ∃ s', ops.foldlM step s = .ok s' ∧ rel s' (ops.foldl ref r) := by
  induction ops generalizing s r with
  | nil => exact ⟨s, rfl, hrel⟩
  | cons op ops ih =>
    obtain ⟨s₁, hr, h₁⟩ := h op hrel
    rw [List.foldlM_cons, hr]
    exact ih h₁

end CloudI
