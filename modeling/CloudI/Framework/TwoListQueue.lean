import Mathlib.Data.List.Basic

/-!
# Two-list queues

The functional queue of the Erlang standard library: a rear list, newest
element first, and a front list, oldest element first. `toList` is the queue
in order, and each operation is stated by what it does to `toList`
(`toList_in`, `out_fst`, `toList_out`, `toList_filter`), so that users never
see the two lists.
-/

namespace CloudI

/-- A queue as its rear list (newest first) and its front list (oldest first). -/
structure TwoListQueue (α : Type*) where
  rear : List α
  front : List α
deriving DecidableEq, Repr

namespace TwoListQueue

variable {α : Type*}

/-- The elements in order, the oldest first. -/
def toList (q : TwoListQueue α) : List α := q.front ++ q.rear.reverse

@[simp] theorem toList_mk (r f : List α) : toList ⟨r, f⟩ = f ++ r.reverse := rfl

def new : TwoListQueue α := ⟨[], []⟩

@[simp] theorem toList_new : (new : TwoListQueue α).toList = [] := rfl

def len (q : TwoListQueue α) : Nat := q.rear.length + q.front.length

@[simp] theorem len_eq (q : TwoListQueue α) : q.len = q.toList.length := by
  simp only [len, toList, List.length_append, List.length_reverse]
  omega

/-! ## Balancing -/

/-- Move half of the elements of a rear list to the front. -/
def r2f : List α → TwoListQueue α
  | [] => ⟨[], []⟩
  | [x] => ⟨[], [x]⟩
  | [x, y] => ⟨[x], [y]⟩
  | l => ⟨l.take (l.length / 2 + 1), (l.drop (l.length / 2 + 1)).reverse⟩

/-- Move half of the elements of a front list to the rear. -/
def f2r : List α → TwoListQueue α
  | [] => ⟨[], []⟩
  | [x] => ⟨[x], []⟩
  | [x, y] => ⟨[y], [x]⟩
  | l => ⟨(l.drop (l.length / 2 + 1)).reverse, l.take (l.length / 2 + 1)⟩

@[simp] theorem toList_r2f (l : List α) : (r2f l).toList = l.reverse := by
  unfold r2f
  split
  case h_4 => rw [toList_mk, ← List.reverse_append, List.take_append_drop]
  all_goals rfl

@[simp] theorem toList_f2r (l : List α) : (f2r l).toList = l := by
  unfold f2r
  split
  case h_4 => rw [toList_mk, List.reverse_reverse, List.take_append_drop]
  all_goals rfl

/-- Neither list is empty where there are two elements or more. -/
def Valid (q : TwoListQueue α) : Prop := 2 ≤ q.toList.length → q.rear ≠ [] ∧ q.front ≠ []

theorem valid_r2f (l : List α) : (r2f l).Valid := by
  intro h
  rw [toList_r2f, List.length_reverse] at h
  match l, h with
  | [x, y], _ => exact ⟨List.cons_ne_nil _ _, List.cons_ne_nil _ _⟩
  | x :: y :: z :: l, _ =>
    refine ⟨List.cons_ne_nil _ _, fun hf => ?_⟩
    have hlen := congrArg List.length hf
    rw [r2f, List.length_reverse, List.length_drop, List.length_nil, List.length_cons, List.length_cons,
      List.length_cons] at hlen
    · omega
    · simp
    · simp
    · simp

theorem valid_f2r (l : List α) : (f2r l).Valid := by
  intro h
  rw [toList_f2r] at h
  match l, h with
  | [x, y], _ => exact ⟨List.cons_ne_nil _ _, List.cons_ne_nil _ _⟩
  | x :: y :: z :: l, _ =>
    refine ⟨fun hr => ?_, List.cons_ne_nil _ _⟩
    have hlen := congrArg List.length hr
    rw [f2r, List.length_reverse, List.length_drop, List.length_nil, List.length_cons, List.length_cons,
      List.length_cons] at hlen
    · omega
    · simp
    · simp
    · simp

/-! ## Operations -/

/-- Add an element at the rear. -/
def «in» (x : α) : TwoListQueue α → TwoListQueue α
  | ⟨[y], []⟩ => ⟨[x], [y]⟩
  | ⟨r, f⟩ => ⟨x :: r, f⟩

@[simp] theorem toList_in (x : α) (q : TwoListQueue α) : (q.in x).toList = q.toList ++ [x] := by
  unfold «in»
  split <;> simp

/-- Take the element at the front. -/
def out : TwoListQueue α → Option α × TwoListQueue α
  | ⟨[], []⟩ => (none, ⟨[], []⟩)
  | ⟨[v], []⟩ => (some v, ⟨[], []⟩)
  | ⟨y :: r, []⟩ => (r.reverse.head?, ⟨[y], r.reverse.tail⟩)
  | ⟨r, [v]⟩ => (some v, r2f r)
  | ⟨r, v :: f⟩ => (some v, ⟨r, f⟩)

theorem out_fst (q : TwoListQueue α) : q.out.1 = q.toList.head? := by
  unfold out
  split
  case h_3 y r h =>
    have hr : r.reverse ≠ [] := fun h0 => h (List.reverse_eq_nil_iff.mp h0)
    simp [List.head?_append_of_ne_nil _ hr]
  all_goals rfl

theorem toList_out (q : TwoListQueue α) : q.out.2.toList = q.toList.tail := by
  unfold out
  split
  case h_3 y r h =>
    have hr : r.reverse ≠ [] := fun h0 => h (List.reverse_eq_nil_iff.mp h0)
    simp [List.tail_append_of_ne_nil hr]
  all_goals simp

theorem toList_of_out_some {q q' : TwoListQueue α} {v : α} (h : q.out = (some v, q')) :
    q.toList = v :: q'.toList := by
  have h₁ := out_fst q
  have h₂ := toList_out q
  rw [h] at h₁ h₂
  rw [h₂]
  exact List.eq_cons_of_mem_head? h₁.symm

theorem toList_of_out_none {q q' : TwoListQueue α} (h : q.out = (none, q')) : q.toList = [] := by
  have h₁ := out_fst q
  rw [h] at h₁
  exact List.head?_eq_none_iff.mp h₁.symm

/-- Taking from an empty queue returns it. -/
theorem eq_of_out_none {q q' : TwoListQueue α} (h : q.out = (none, q')) : q' = q := by
  obtain ⟨r, f⟩ := q
  obtain ⟨rfl, hr⟩ := List.append_eq_nil_iff.mp (toList_of_out_none h)
  obtain rfl := List.reverse_eq_nil_iff.mp hr
  cases h
  rfl

/-- The elements of the first queue in front of those of the second. -/
def join : TwoListQueue α → TwoListQueue α → TwoListQueue α
  | q, ⟨[], []⟩ => q
  | ⟨[], []⟩, q => q
  | ⟨r₁, f₁⟩, ⟨r₂, f₂⟩ => ⟨r₂, f₁ ++ (r₁.reverse ++ f₂)⟩

@[simp] theorem toList_join (q₁ q₂ : TwoListQueue α) : (q₁.join q₂).toList = q₁.toList ++ q₂.toList := by
  unfold join
  split <;> simp [toList]

/-- Keep the elements that satisfy `p`. -/
def filter (p : α → Bool) (q : TwoListQueue α) : TwoListQueue α :=
  let f := q.front.filter p
  let r := q.rear.filter p
  if r.isEmpty then f2r f else if f.isEmpty then r2f r else ⟨r, f⟩

@[simp] theorem toList_filter (p : α → Bool) (q : TwoListQueue α) :
    (q.filter p).toList = q.toList.filter p := by
  obtain ⟨r, f⟩ := q
  simp only [filter, toList_mk, List.filter_append, List.filter_reverse]
  split
  · rename_i h
    rw [toList_f2r, List.isEmpty_iff.mp h, List.reverse_nil, List.append_nil]
  · split
    · rename_i h
      rw [toList_r2f, List.isEmpty_iff.mp h, List.nil_append]
    · rw [toList_mk]

end TwoListQueue

end CloudI
