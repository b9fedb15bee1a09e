import CloudI.Framework.PriorityFamily
import CloudI.Framework.Run

/-!
# Priority queues

A priority queue is given by its operations (`PriorityQueue`), for priorities
of any type `π`. It `Implements` a family of lists when each operation does on
its state what it does on the family. Two priority queues can take different
ranges of priorities: the priorities `ι` that a user gives to both are embedded
in each range, and a family over the range is then `Along` the embedding one
over `ι`. `Implements.run` gives the replies of every sequence of operations,
which do not depend on the implementation.
-/

namespace CloudI

namespace PriorityFamily

variable {ι κ α : Type*} [LinearOrder ι] [LinearOrder κ]

/-! ## The first element -/

/-- The element taken, with its priority, and what is left. -/
inductive Deq (c : PriorityFamily κ α) : Option (α × κ) → PriorityFamily κ α → Prop
  | none : (∀ q, c q = []) → Deq c none c
  | some {q : κ} {x : α} {l : List α} : c q = x :: l → c.EmptyBelow q → Deq c (some (x, q)) (c.set q l)

theorem deq_spec [Fintype κ] (c : PriorityFamily κ α) : Deq c c.deq.1 c.deq.2 := by
  rcases c.empty_or_least with hnil | ⟨q, x, l, hq, hlt⟩
  · rw [deq_of_empty hnil]
    exact .none hnil
  · rw [deq_of_least hq hlt]
    exact .some hq hlt

/-! ## Families along an embedding -/

/-- `c` holds the lists of `r`, each under the name that `f` gives it, and no others. -/
structure Along (f : ι ↪o κ) (c : PriorityFamily κ α) (r : PriorityFamily ι α) : Prop where
  apply : ∀ p, c (f p) = r p
  outside : ∀ q, q ∉ Set.range f → c q = []

variable {f : ι ↪o κ} {c c' : PriorityFamily κ α} {r : PriorityFamily ι α}

theorem along_empty : Along f (empty : PriorityFamily κ α) empty := ⟨fun _ => rfl, fun _ _ => rfl⟩

theorem Along.set (h : Along f c r) (p : ι) (l : List α) : Along f (c.set (f p) l) (r.set p l) where
  apply q := by
    by_cases hq : q = p
    · rw [hq, set_self, set_self]
    · rw [set_of_ne _ _ hq, set_of_ne _ _ (fun he => hq (f.injective he)), h.apply]
  outside q hq := by
    rw [set_of_ne _ _ (fun he => hq ⟨p, he.symm⟩), h.outside q hq]

theorem Along.enq (h : Along f c r) (p : ι) (x : α) : Along f (c.enq (f p) x) (r.enq p x) := by
  rw [PriorityFamily.enq, PriorityFamily.enq, h.apply]
  exact h.set p _

theorem Along.deqAt (h : Along f c r) (p : ι) :
    (c.deqAt (f p)).1 = (r.deqAt p).1 ∧ Along f (c.deqAt (f p)).2 (r.deqAt p).2 := by
  simp only [PriorityFamily.deqAt, h.apply, true_and]
  exact h.set p _

/-- A nonempty list has a name. -/
theorem Along.exists_of_ne_nil (h : Along f c r) {q : κ} (hq : c q ≠ []) : ∃ p, f p = q :=
  by_contra fun hno => hq (h.outside q hno)

theorem Along.deq [Fintype ι] (h : Along f c r) {o : Option (α × κ)} (hd : Deq c o c') :
    o = r.deq.1.map (fun y => (y.1, f y.2)) ∧ Along f c' r.deq.2 := by
  cases hd with
  | none hnil =>
    rw [deq_of_empty fun p => (h.apply p).symm.trans (hnil (f p))]
    exact ⟨rfl, h⟩
  | @some q x l hq hlt =>
    obtain ⟨p, rfl⟩ := h.exists_of_ne_nil (by rw [hq]; exact List.cons_ne_nil x l)
    have hp : r p = x :: l := (h.apply p).symm.trans hq
    have hbelow : r.EmptyBelow p := fun p' hp' => (h.apply p').symm.trans (hlt (f p') (f.lt_iff_lt.mpr hp'))
    rw [deq_of_least hp hbelow]
    exact ⟨rfl, h.set p l⟩

end PriorityFamily

open PriorityFamily

/-! ## Operations -/

/-- The operations of a priority queue: to append an element with the default
priority or with another one, and to take the first element of all, that of one
priority, or the first of all with its priority. -/
structure PriorityQueue (ε σ π α : Type) where
  enq₀ : α → σ → Except ε σ
  enq : α → π → σ → Except ε σ
  deq : σ → Except ε (Option α × σ)
  deqAt : π → σ → Except ε (Option α × σ)
  deqWith : σ → Except ε (Option (α × π) × σ)

namespace PriorityQueue

/-- An operation with its arguments. -/
inductive Op (ι α : Type) where
  | enq₀ (x : α)
  | enq (x : α) (p : ι)
  | deq
  | deqAt (p : ι)
  | deqWith

/-- What an operation returns beside the queue. -/
inductive Reply (π α : Type) where
  | queue
  | value (v : Option α)
  | valueWith (v : Option (α × π))
deriving DecidableEq

variable {ε σ π ι κ α : Type}

/-- Run an operation; `val` is the priority as the operations take it. -/
def apply (m : PriorityQueue ε σ π α) (val : ι → π) (op : Op ι α) (s : σ) : Except ε (Reply π α × σ) :=
  match op with
  | .enq₀ x => do return (.queue, ← m.enq₀ x s)
  | .enq x p => do return (.queue, ← m.enq x (val p) s)
  | .deq => do
    let (v, s') ← m.deq s
    return (.value v, s')
  | .deqAt p => do
    let (v, s') ← m.deqAt (val p) s
    return (.value v, s')
  | .deqWith => do
    let (v, s') ← m.deqWith s
    return (.valueWith v, s')

/-- The operation on a family of lists; `zero` is the default priority. -/
def reference [LinearOrder ι] [Fintype ι] (val : ι → π) (zero : ι) (op : Op ι α) (r : PriorityFamily ι α) :
    Reply π α × PriorityFamily ι α :=
  match op with
  | .enq₀ x => (.queue, r.enq zero x)
  | .enq x p => (.queue, r.enq p x)
  | .deq => (.value (r.deq.1.map Prod.fst), r.deq.2)
  | .deqAt p => (.value (r.deqAt p).1, (r.deqAt p).2)
  | .deqWith => (.valueWith (r.deq.1.map fun y => (y.1, val y.2)), r.deq.2)

/-- Each operation keeps `inv`, and does on `contents` what it does on a
family of lists. -/
structure Implements [LinearOrder κ] (m : PriorityQueue ε σ π α) (val : κ → π) (zero : π) (inv : σ → Prop)
    (contents : σ → PriorityFamily κ α) : Prop where
  enq₀ {s : σ} (x : α) : m.enq₀ x s = m.enq x zero s
  enq {s : σ} (x : α) (q : κ) : inv s →
    ∃ s', m.enq x (val q) s = .ok s' ∧ contents s' = (contents s).enq q x ∧ inv s'
  deq {s : σ} : inv s → m.deq s = (m.deqWith s).map fun y => (y.1.map Prod.fst, y.2)
  deqAt {s : σ} (q : κ) : inv s →
    ∃ s', m.deqAt (val q) s = .ok (((contents s).deqAt q).1, s') ∧ contents s' = ((contents s).deqAt q).2 ∧ inv s'
  deqWith {s : σ} : inv s →
    ∃ o s', m.deqWith s = .ok (o.map fun y => (y.1, val y.2), s') ∧ Deq (contents s) o (contents s') ∧ inv s'

variable [LinearOrder κ] [LinearOrder ι] [Fintype ι] {m : PriorityQueue ε σ π α} {val : κ → π} {zero : π}
  {inv : σ → Prop} {contents : σ → PriorityFamily κ α} {f : ι ↪o κ} {z : ι}

/-- Each operation is that of the reference, along the embedding. -/
theorem Implements.refines (hm : m.Implements val zero inv contents) (hz : val (f z) = zero) :
    Refines (m.apply fun p => val (f p)) (reference (fun p => val (f p)) z) (fun _ _ => True)
      (fun s r => inv s ∧ Along f (contents s) r) := by
  rintro op s r ⟨hs, hr⟩ -
  cases op with
  | enq₀ x =>
    obtain ⟨s', hs', hc, hinv⟩ := hm.enq x (f z) hs
    refine ⟨s', ?_, hinv, hc ▸ hr.enq z x⟩
    rw [apply, hm.enq₀, ← hz, hs']
    rfl
  | enq x p =>
    obtain ⟨s', hs', hc, hinv⟩ := hm.enq x (f p) hs
    refine ⟨s', ?_, hinv, hc ▸ hr.enq p x⟩
    rw [apply, hs']
    rfl
  | deq =>
    obtain ⟨o, s', hs', hd, hinv⟩ := hm.deqWith hs
    obtain ⟨ho, hr'⟩ := hr.deq hd
    have hv : (o.map fun y => (y.1, val y.2)).map Prod.fst = r.deq.1.map Prod.fst := by
      rw [ho, Option.map_map, Option.map_map]
      rfl
    refine ⟨s', ?_, hinv, hr'⟩
    rw [apply, hm.deq hs, hs', reference, ← hv]
    rfl
  | deqAt p =>
    obtain ⟨s', hs', hc, hinv⟩ := hm.deqAt (f p) hs
    obtain ⟨ho, hr'⟩ := hr.deqAt p
    refine ⟨s', ?_, hinv, hc ▸ hr'⟩
    rw [apply, hs', reference, ho]
    rfl
  | deqWith =>
    obtain ⟨o, s', hs', hd, hinv⟩ := hm.deqWith hs
    obtain ⟨ho, hr'⟩ := hr.deq hd
    refine ⟨s', ?_, hinv, hr'⟩
    rw [apply, hs', reference, ho, Option.map_map]
    rfl

/-- A run from an empty queue never raises, and its replies are those of the reference. -/
theorem Implements.run (hm : m.Implements val zero inv contents) (hz : val (f z) = zero) {s : σ} (hs : inv s)
    (hc : contents s = empty) (ops : List (Op ι α)) :
    ∃ s', runOps (m.apply fun p => val (f p)) ops s =
      .ok ((runReference (reference (fun p => val (f p)) z) ops empty).1, s') := by
  have hallowed : ∀ (ops : List (Op ι α)) (r : PriorityFamily ι α),
      Allowed (reference (fun p => val (f p)) z) (fun _ _ => True) ops r := by
    intro ops
    induction ops with
    | nil => exact fun _ => trivial
    | cons op ops ih => exact fun r => ⟨trivial, ih _⟩
  obtain ⟨s', hrun, -⟩ := runOps_refines (hm.refines hz) ⟨hs, hc ▸ along_empty⟩ (hallowed ops empty)
  exact ⟨s', hrun⟩

end PriorityQueue

end CloudI
