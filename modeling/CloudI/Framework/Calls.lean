import CloudI.Framework.Exn

/-!
# Functions that call themselves

A function that calls itself at other positions, as a value: what it calls is
seen (`Calling`), and not only what becomes of it. `descend` is the function,
with a bound on how deep it calls, and `Visits` the positions it comes to. It
ends with an error iff it visits a position where it ends with the error by
itself (`descend_error_iff`).
-/

namespace CloudI

/-- Every error that it can end with is of a kind. -/
def Errors {E α : Type} (Q : E → Prop) (x : Except E α) : Prop := ∀ e, x = .error e → Q e

section Errors

variable {E α β : Type} {Q : E → Prop}

theorem errors_ok (a : α) : Errors Q (.ok a : Except E α) := nofun

theorem errors_error {e : E} (h : Q e) : Errors Q (.error e : Except E α) := fun _ he => Except.error.inj he ▸ h

theorem Errors.bind {x : Except E α} {g : α → Except E β} (hx : Errors Q x) (hg : ∀ a, Errors Q (g a)) :
    Errors Q (x >>= g) := by
  intro e h
  cases x with
  | ok a => exact hg a e h
  | error e' => exact hx e (congrArg Except.error (Except.error.inj h))

end Errors

/-- Calls at positions, each for an `R`, and how it ends. -/
inductive Calling (E P R α : Type)
  | done (x : Except E α)
  | call (p : P) (k : R → Calling E P R α)

namespace Calling

variable {E P R α β : Type}

/-- What becomes of it if `f` is called. -/
def run (f : P → Except E R) : Calling E P R α → Except E α
  | done x => x
  | call p k => do
    let r ← f p
    (k r).run f

protected def bind : Calling E P R α → (α → Calling E P R β) → Calling E P R β
  | done (.ok a), g => g a
  | done (.error e), _ => done (.error e)
  | call p k, g => call p fun r => (k r).bind g

instance : Monad (Calling E P R) where
  pure a := done (.ok a)
  bind := Calling.bind

/-- A call at one position. -/
def ask (p : P) : Calling E P R R := call p fun r => done (.ok r)

/-- The positions that are called. -/
def Calls (f : P → Except E R) : Calling E P R α → P → Prop
  | done _, _ => False
  | call p k, q => q = p ∨ ∃ r, f p = .ok r ∧ (k r).Calls f q

/-- It ends with an error that is not the error of a call. -/
def Fails (f : P → Except E R) (e : E) : Calling E P R α → Prop
  | done x => x = .error e
  | call p k => ∃ r, f p = .ok r ∧ (k r).Fails f e

variable {f : P → Except E R} {e : E} {q : P}

theorem run_bind (x : Calling E P R α) (g : α → Calling E P R β) :
    (x >>= g).run f = x.run f >>= fun a => (g a).run f := by
  induction x with
  | done x =>
    cases x with
    | ok a => rfl
    | error e => rfl
  | call p k ih =>
    show (f p >>= fun r => (k r >>= g).run f) = (f p >>= fun r => (k r).run f) >>= fun a => (g a).run f
    cases f p with
    | ok r => exact ih r
    | error e => rfl

@[simp] theorem run_done (x : Except E α) : (done x : Calling E P R α).run f = x := rfl

@[simp] theorem run_pure (a : α) : (pure a : Calling E P R α).run f = .ok a := rfl

@[simp] theorem run_ask (p : P) : (ask p : Calling E P R R).run f = f p := by
  show (f p >>= fun r => Except.ok r) = f p
  cases f p with
  | ok r => rfl
  | error e => rfl

theorem calls_bind (x : Calling E P R α) (g : α → Calling E P R β) :
    (x >>= g).Calls f q ↔ x.Calls f q ∨ ∃ a, x.run f = .ok a ∧ (g a).Calls f q := by
  induction x with
  | done x =>
    cases x with
    | ok a => exact ⟨fun h => .inr ⟨a, rfl, h⟩, fun h => h.elim False.elim fun ⟨_, ha, h⟩ => Except.ok.inj ha ▸ h⟩
    | error e => exact ⟨False.elim, fun h => h.elim id fun ⟨_, ha, _⟩ => nomatch ha⟩
  | call p k ih =>
    show (q = p ∨ ∃ r, f p = .ok r ∧ (k r >>= g).Calls f q) ↔
      (q = p ∨ ∃ r, f p = .ok r ∧ (k r).Calls f q) ∨ ∃ a, (f p >>= fun r => (k r).run f) = .ok a ∧ (g a).Calls f q
    cases f p with
    | ok r =>
      have h := ih r
      simp only [Except.ok.injEq, exists_eq_left'] at h ⊢
      rw [h, or_assoc]
      rfl
    | error e => simp [bind, Except.bind]

theorem fails_bind (x : Calling E P R α) (g : α → Calling E P R β) :
    (x >>= g).Fails f e ↔ x.Fails f e ∨ ∃ a, x.run f = .ok a ∧ (g a).Fails f e := by
  induction x with
  | done x =>
    cases x with
    | ok a => exact ⟨fun h => .inr ⟨a, rfl, h⟩, fun h => h.elim nofun fun ⟨_, ha, h⟩ => Except.ok.inj ha ▸ h⟩
    | error e' =>
      refine ⟨fun h => .inl (congrArg Except.error (Except.error.inj h)), fun h => ?_⟩
      rcases h with h | ⟨_, ha, _⟩
      · exact congrArg Except.error (Except.error.inj h)
      · cases ha
  | call p k ih =>
    show (∃ r, f p = .ok r ∧ (k r >>= g).Fails f e) ↔
      (∃ r, f p = .ok r ∧ (k r).Fails f e) ∨ ∃ a, (f p >>= fun r => (k r).run f) = .ok a ∧ (g a).Fails f e
    cases f p with
    | ok r =>
      have h := ih r
      simp only [Except.ok.injEq, exists_eq_left'] at h ⊢
      exact h
    | error e => simp [bind, Except.bind]

@[simp] theorem calls_done (x : Except E α) : ¬(done x : Calling E P R α).Calls f q := id

@[simp] theorem calls_pure (a : α) : ¬(pure a : Calling E P R α).Calls f q := id

@[simp] theorem calls_ask (p : P) : (ask p : Calling E P R R).Calls f q ↔ q = p :=
  ⟨fun h => h.elim id fun ⟨_, _, h⟩ => h.elim, .inl⟩

@[simp] theorem fails_done (x : Except E α) : (done x : Calling E P R α).Fails f e ↔ x = .error e := Iff.rfl

@[simp] theorem fails_pure (a : α) : ¬(pure a : Calling E P R α).Fails f e := nofun

@[simp] theorem fails_ask (p : P) : ¬(ask p : Calling E P R R).Fails f e := fun ⟨_, _, h⟩ => nomatch h

/-- It ends with an error by itself or because a call does. -/
theorem run_error_iff {x : Calling E P R α} :
    x.run f = .error e ↔ x.Fails f e ∨ ∃ q, x.Calls f q ∧ f q = .error e := by
  induction x with
  | done x => exact ⟨.inl, fun h => h.elim id fun ⟨_, h, _⟩ => h.elim⟩
  | call p k ih =>
    show (f p >>= fun r => (k r).run f) = .error e ↔ (∃ r, f p = .ok r ∧ (k r).Fails f e) ∨
      ∃ q, (q = p ∨ ∃ r, f p = .ok r ∧ (k r).Calls f q) ∧ f q = .error e
    cases hp : f p with
    | ok r =>
      refine (ih r).trans ⟨fun h => ?_, fun h => ?_⟩
      · rcases h with h | ⟨q, hq, he⟩
        · exact .inl ⟨r, rfl, h⟩
        · exact .inr ⟨q, .inr ⟨r, rfl, hq⟩, he⟩
      · rcases h with ⟨r', hr, h⟩ | ⟨q, rfl | ⟨r', hr, hq⟩, he⟩
        · exact .inl (Except.ok.inj hr ▸ h)
        · rw [hp] at he
          cases he
        · exact .inr ⟨q, Except.ok.inj hr ▸ hq, he⟩
    | error e' =>
      refine ⟨fun h => .inr ⟨p, .inl rfl, hp.trans (congrArg _ (Except.error.inj h))⟩, fun h => ?_⟩
      rcases h with ⟨_, hr, _⟩ | ⟨q, rfl | ⟨_, hr, _⟩, he⟩
      · cases hr
      · rw [Except.error.inj (hp.symm.trans he)]
        rfl
      · cases hr

/-! ## One position after another -/

section Sequence

variable (next : P → R → P)

/-- Calls at `n` positions, each behind the one before. -/
def sequence : Nat → P → Calling E P R (P × List R)
  | 0, p => pure (p, [])
  | n + 1, p => do
    let r ← ask p
    let (q, rs) ← sequence n (next p r)
    return (q, r :: rs)

theorem sequence_succ (n : Nat) (p : P) : (sequence next (n + 1) p : Calling E P R (P × List R)) =
    ask p >>= fun r => sequence next n (next p r) >>= fun x => pure (x.1, r :: x.2) := rfl

variable {next}

theorem sequence_fails {n : Nat} {p : P} : ¬(sequence next n p).Fails f e := by
  induction n generalizing p with
  | zero => exact fails_pure _
  | succ n ih =>
    intro h
    rw [sequence, fails_bind] at h
    rcases h with h | ⟨r, -, h⟩
    · exact fails_ask p h
    · rw [fails_bind] at h
      rcases h with h | ⟨_, -, h⟩
      · exact ih h
      · exact fails_pure _ h

/-- What holds of a position and is kept by each call holds of each position that is called. -/
theorem sequence_calls {I : P → Prop} {n : Nat} {p : P} (hI : ∀ p r, I p → f p = .ok r → I (next p r)) (hp : I p)
    (hq : (sequence next n p).Calls f q) : I q := by
  induction n generalizing p with
  | zero => exact (calls_pure _ hq).elim
  | succ n ih =>
    rw [sequence, calls_bind] at hq
    rcases hq with hq | ⟨r, hr, hq⟩
    · exact (calls_ask p).mp hq ▸ hp
    · rw [run_ask] at hr
      rw [calls_bind] at hq
      rcases hq with hq | ⟨_, -, hq⟩
      · exact ih (hI p r hp hr) hq
      · exact (calls_pure _ hq).elim

theorem sequence_keeps {I : P → Prop} {n : Nat} {p p' : P} {rs : List R}
    (hI : ∀ p r, I p → f p = .ok r → I (next p r)) (hp : I p) (h : (sequence next n p).run f = .ok (p', rs)) :
    I p' := by
  induction n generalizing p rs with
  | zero =>
    cases h
    exact hp
  | succ n ih =>
    rw [sequence, run_bind, run_ask] at h
    obtain ⟨r, hr, h⟩ := bind_eq_ok h
    rw [run_bind] at h
    obtain ⟨⟨q, rs'⟩, hs, h⟩ := bind_eq_ok h
    cases h
    exact ih (hI p r hp hr) hs

/-- No call of a sequence ends behind the sequence. -/
theorem sequence_calls_le {pos : P → Nat} {n : Nat} {p p' : P} {rs : List R} {r : R}
    (hpos : ∀ p r, f p = .ok r → pos p ≤ pos (next p r)) (h : (sequence next n p).run f = .ok (p', rs))
    (hq : (sequence next n p).Calls f q) (hr : f q = .ok r) : pos (next q r) ≤ pos p' := by
  induction n generalizing p rs with
  | zero => exact (calls_pure _ hq).elim
  | succ n ih =>
    rw [sequence, run_bind, run_ask] at h
    obtain ⟨r', hr', h⟩ := bind_eq_ok h
    rw [run_bind] at h
    obtain ⟨⟨p'', rs'⟩, hs, h⟩ := bind_eq_ok h
    cases h
    rw [sequence, calls_bind] at hq
    rcases hq with hq | ⟨r'', hr'', hq⟩
    · obtain rfl := (calls_ask p).mp hq
      obtain rfl := Except.ok.inj (hr'.symm.trans hr)
      refine sequence_keeps (I := fun p' => pos (next q r') ≤ pos p') (fun p r h hf => ?_) (Nat.le_refl _) hs
      exact Nat.le_trans h (hpos p r hf)
    · rw [run_ask] at hr''
      obtain rfl := Except.ok.inj (hr'.symm.trans hr'')
      rw [calls_bind] at hq
      rcases hq with hq | ⟨_, -, hq⟩
      · exact ih hs hq
      · exact (calls_pure _ hq).elim

end Sequence

end Calling

/-! ## The function -/

section Descend

variable {E P R : Type} (body : P → Calling E P R R) (bottom : E)

def descend : Nat → P → Except E R
  | 0, _ => .error bottom
  | depth + 1, p => (body p).run (descend depth)

/-- The positions that it comes to, with the depth that is left there. -/
inductive Visits (depth : Nat) (p : P) : Nat → P → Prop
  | start : Visits depth p depth p
  | call {m : Nat} {q q' : P} (h : Visits depth p (m + 1) q) (hc : (body q).Calls (descend body bottom m) q') :
      Visits depth p m q'

/-- It ends there with an error by itself. -/
def Stops (e : E) : Nat → P → Prop
  | 0, _ => bottom = e
  | depth + 1, p => (body p).Fails (descend body bottom depth) e

variable {body bottom} {depth m : Nat} {p q : P} {e : E}

theorem Visits.trans {m' : Nat} {q' : P} (h : Visits body bottom depth p m q) (h' : Visits body bottom m q m' q') :
    Visits body bottom depth p m' q' := by
  induction h' with
  | start => exact h
  | call _ hc ih => exact .call ih hc

theorem visits_error (h : Visits body bottom depth p m q) (he : descend body bottom m q = .error e) :
    descend body bottom depth p = .error e := by
  induction h with
  | start => exact he
  | call h hc ih => exact ih (Calling.run_error_iff.mpr (.inr ⟨_, hc, he⟩))

theorem stops_error (h : Stops body bottom e depth p) : descend body bottom depth p = .error e := by
  cases depth with
  | zero => exact congrArg _ h
  | succ depth => exact Calling.run_error_iff.mpr (.inl h)

/-- It ends with an error iff it comes to a position where it does by itself. -/
theorem descend_error_iff :
    descend body bottom depth p = .error e ↔ ∃ m q, Visits body bottom depth p m q ∧ Stops body bottom e m q := by
  constructor
  · intro h
    induction depth generalizing p with
    | zero => exact ⟨0, p, .start, Except.error.inj h⟩
    | succ depth ih =>
      rcases Calling.run_error_iff.mp h with h | ⟨q, hq, he⟩
      · exact ⟨depth + 1, p, .start, h⟩
      · obtain ⟨m, q', hv, hs⟩ := ih he
        exact ⟨m, q', .trans (.call .start hq) hv, hs⟩
  · rintro ⟨m, q, hv, hs⟩
    exact visits_error hv (stops_error hs)

/-- If it ends with a result, so it does wherever it comes to. -/
theorem visits_ok {r : R} (h : descend body bottom depth p = .ok r) (hv : Visits body bottom depth p m q) :
    ∃ r', descend body bottom m q = .ok r' := by
  cases hq : descend body bottom m q with
  | ok r' => exact ⟨r', rfl⟩
  | error e =>
    rw [visits_error hv hq] at h
    cases h

/-- What holds at the start and of the calls of a position where it holds, if all of them end with a result. -/
theorem visits_of_ok {Q : Nat → P → Prop} {r : R} (h : descend body bottom depth p = .ok r) (hp : Q depth p)
    (hQ : ∀ m q q' r, Q (m + 1) q → descend body bottom (m + 1) q = .ok r →
      (body q).Calls (descend body bottom m) q' → Q m q') (hv : Visits body bottom depth p m q) : Q m q := by
  induction hv with
  | start => exact hp
  | call hv hc ih =>
    obtain ⟨r', hr⟩ := visits_ok h hv
    exact hQ _ _ _ r' ih hr hc

end Descend

end CloudI
