/-!
# Erlang exceptions

A function that can raise returns `Except Exn`. Only the class and reason that
the modelled code raises, or that a failed pattern match raises for it, are
kept.
-/

namespace CloudI

/-- What a modelled function may raise. -/
inductive Exn where
  /-- `erlang:exit(badarg)` -/
  | exitBadarg
  /-- `erlang:error(badarg)`, by a built-in function -/
  | badarg
  /-- `erlang:error(badarith)`, as of a division by zero -/
  | badarith
  /-- no clause of a function matches its arguments -/
  | functionClause
  /-- no clause of a `case` matches the value -/
  | caseClause
  /-- no branch of an `if` is true -/
  | ifClause
  /-- a pattern on the left of `=` does not match -/
  | badmatch
deriving DecidableEq, Repr

/-- A step that succeeds is followed by the next one. -/
theorem bind_ok {ε α β : Type} {x : Except ε α} {a : α} (h : x = .ok a) (f : α → Except ε β) :
    x >>= f = f a := by
  rw [h]
  rfl

/-- The first of two steps that succeeded. -/
theorem bind_eq_ok {ε α β : Type} {x : Except ε α} {f : α → Except ε β} {b : β} (h : x >>= f = .ok b) :
    ∃ a, x = .ok a ∧ f a = .ok b := by
  cases x with
  | ok a => exact ⟨a, rfl, h⟩
  | error e => cases h

theorem mapError_eq_ok {ε ε' α : Type} {x : Except ε α} {f : ε → ε'} {a : α} (h : x.mapError f = .ok a) :
    x = .ok a := by
  cases x with
  | ok b => exact congrArg _ (Except.ok.inj h)
  | error e => cases h

theorem map_eq_ok {ε α β : Type} {x : Except ε α} {f : α → β} {b : β} (h : x.map f = .ok b) :
    ∃ a, x = .ok a ∧ f a = b := by
  cases x with
  | ok a => exact ⟨a, rfl, Except.ok.inj h⟩
  | error e => cases h

/-- A step that succeeds with what `s` makes of a result is followed by the next one. -/
theorem bind_map_of {ε α β γ δ : Type} {x : Except ε α} {g : α → Except ε β} {y : Except ε γ} {k : γ → Except ε δ}
    {s : α → γ} {t : β → δ} (hy : y = x.map s) (hk : ∀ a, k (s a) = (g a).map t) : y >>= k = (x >>= g).map t := by
  subst hy
  cases x with
  | ok a => exact hk a
  | error e => rfl

theorem map_ite_of {ε α β : Type} {c : Prop} [Decidable c] {x y : Except ε α} {x' y' : Except ε β} {t : α → β}
    (hx : c → x' = x.map t) (hy : ¬c → y' = y.map t) :
    (if c then x' else y') = (if c then x else y).map t := by
  by_cases h : c
  · rw [if_pos h, if_pos h, hx h]
  · rw [if_neg h, if_neg h, hy h]

end CloudI
