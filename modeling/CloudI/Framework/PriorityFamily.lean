import Mathlib.Data.Fintype.Sort
import Mathlib.Data.Finset.Max
import Mathlib.Algebra.Order.BigOperators.Group.Finset

/-!
# Families of FIFO lists indexed by priority

What a priority queue is for: one list for each priority of a finite linear
order, smaller priorities first, first in first out within a priority.
`deq` takes the head of the smallest nonempty priority; `deq_of_least` gives
it from any priority below which all lists are empty, which is how a scan
finds it. `toList` and `toPlist` are the contents in priority order, and
`toList_deq` and `toPlist_deq` unfold them by one `deq`.
-/

namespace CloudI

/-- A list of elements for each priority. -/
abbrev PriorityFamily (ι α : Type*) := ι → List α

namespace PriorityFamily

open scoped List

variable {ι α : Type*} [LinearOrder ι]

def empty : PriorityFamily ι α := fun _ => []

/-- Replace the list of priority `p`. -/
def set (r : PriorityFamily ι α) (p : ι) (l : List α) : PriorityFamily ι α := Function.update r p l

@[simp] theorem set_self (r : PriorityFamily ι α) (p : ι) (l : List α) : r.set p l p = l :=
  Function.update_self ..

@[simp] theorem set_set (r : PriorityFamily ι α) (p : ι) (l l' : List α) :
    (r.set p l).set p l' = r.set p l' := Function.update_idem ..

theorem set_of_ne (r : PriorityFamily ι α) {p q : ι} (l : List α) (h : q ≠ p) :
    r.set p l q = r q := Function.update_of_ne h ..

@[simp] theorem set_eq_self (r : PriorityFamily ι α) (p : ι) : r.set p (r p) = r :=
  Function.update_eq_self ..

theorem set_comm {p q : ι} (h : p ≠ q) (r : PriorityFamily ι α) (l l' : List α) :
    (r.set p l).set q l' = (r.set q l').set p l := Function.update_comm h _ _ _

def enq (r : PriorityFamily ι α) (p : ι) (x : α) : PriorityFamily ι α := r.set p (r p ++ [x])

/-- The elements of each priority of `r`, and behind them those of `r'`. -/
def append (r r' : PriorityFamily ι α) : PriorityFamily ι α := fun p => r p ++ r' p

/-- Take the head of priority `p`. -/
def deqAt (r : PriorityFamily ι α) (p : ι) : Option α × PriorityFamily ι α :=
  ((r p).head?, r.set p (r p).tail)

variable {r : PriorityFamily ι α}

theorem deqAt_of_nil {p : ι} (h : r p = []) : r.deqAt p = (none, r) := by
  rw [deqAt, h, List.head?_nil, List.tail_nil, ← h, set_eq_self]

/-- All elements below `p` are gone. -/
def EmptyBelow (r : PriorityFamily ι α) (p : ι) : Prop := ∀ q < p, r q = []

/-- A list that only loses elements leaves the priorities below `p` empty. -/
theorem EmptyBelow.set {p q : ι} {l : List α} (h : r.EmptyBelow p)
    (hl : r q = [] → l = []) : (r.set q l).EmptyBelow p := by
  intro q' hq'
  by_cases hq : q' = q
  · subst hq
    rw [set_self, hl (h q' hq')]
  · rw [set_of_ne _ _ hq, h q' hq']

theorem EmptyBelow.enq {p q : ι} (h : r.EmptyBelow p) (hq : p ≤ q) (x : α) :
    (r.enq q x).EmptyBelow p := by
  intro q' hq'
  rw [PriorityFamily.enq, set_of_ne _ _ (hq'.trans_le hq).ne, h q' hq']

theorem EmptyBelow.deqAt {p : ι} (h : r.EmptyBelow p) (q : ι) :
    (r.deqAt q).2.EmptyBelow p := h.set fun hq => by rw [hq, List.tail_nil]

def filter (f : α → Bool) (r : PriorityFamily ι α) : PriorityFamily ι α := fun p => (r p).filter f

def filterAt (f : α → Bool) (p : ι) (r : PriorityFamily ι α) : PriorityFamily ι α :=
  r.set p ((r p).filter f)

/-- Remove the elements of priority `p` that satisfy `f`; was there one? -/
def removeAt (f : α → Bool) (p : ι) (r : PriorityFamily ι α) : Bool × PriorityFamily ι α :=
  ((r p).any f, r.filterAt (fun x => !f x) p)

section Fintype

variable [Fintype ι]

/-- The priorities with an element. -/
def occupied (r : PriorityFamily ι α) : Finset ι := Finset.univ.filter (fun p => r p ≠ [])

omit [LinearOrder ι] in
@[simp] theorem mem_occupied {p : ι} : p ∈ r.occupied ↔ r p ≠ [] := by
  simp [occupied]

/-- Take the head of the smallest nonempty priority, with that priority. -/
def deq (r : PriorityFamily ι α) : Option (α × ι) × PriorityFamily ι α :=
  if h : r.occupied.Nonempty then
    let p := r.occupied.min' h
    ((r p).head?.map (·, p), r.set p (r p).tail)
  else (none, r)

/-- Remove the elements that satisfy `f`; was there one? -/
def remove (f : α → Bool) (r : PriorityFamily ι α) : Bool × PriorityFamily ι α :=
  (decide (∃ p, (r p).any f), r.filter (fun x => !f x))

/-- How many elements there are. -/
def total (r : PriorityFamily ι α) : Nat := ∑ p, (r p).length

/-- At most one element satisfies `f`. -/
def AtMostOne (f : α → Bool) (r : PriorityFamily ι α) : Prop := (r.filter f).total ≤ 1

/-- The contents in priority order. -/
def toList (r : PriorityFamily ι α) : List α := (Finset.univ.sort (α := ι)).flatMap r

/-- The nonempty lists in priority order, each with its priority. -/
def toPlist (r : PriorityFamily ι α) : List (ι × List α) :=
  (Finset.univ.sort (α := ι)).filterMap fun p => if r p = [] then none else some (p, r p)

/-! ## The total -/

omit [LinearOrder ι] in
theorem total_eq_zero : r.total = 0 ↔ ∀ p, r p = [] := by
  simp [total]

theorem total_set (r : PriorityFamily ι α) (p : ι) (l : List α) :
    (r.set p l).total + (r p).length = r.total + l.length := by
  have hr : r.total = (r p).length + ∑ q ∈ Finset.univ.erase p, (r q).length :=
    (Finset.add_sum_erase _ _ (Finset.mem_univ p)).symm
  have hs : (r.set p l).total = l.length + ∑ q ∈ Finset.univ.erase p, (r q).length := by
    rw [total, ← Finset.add_sum_erase _ _ (Finset.mem_univ p), set_self]
    congr 1
    exact Finset.sum_congr rfl fun q hq => by rw [set_of_ne r l (Finset.ne_of_mem_erase hq)]
  omega

omit [LinearOrder ι] in
theorem length_le_total (r : PriorityFamily ι α) (p : ι) : (r p).length ≤ r.total :=
  Finset.single_le_sum (f := fun q => (r q).length) (fun _ _ => Nat.zero_le _) (Finset.mem_univ p)

/-! ## Unique elements -/

variable {f : α → Bool}

omit [LinearOrder ι] in
theorem AtMostOne.length_le (h : AtMostOne f r) (p : ι) :
    ((r p).filter f).length ≤ 1 := (length_le_total (r.filter f) p).trans h

/-- The priority of the element that satisfies `f` is the only one that has it. -/
theorem AtMostOne.any_eq_false (h : AtMostOne f r) {p q : ι}
    (hp : (r p).any f = true) (hq : q ≠ p) : (r q).any f = false := by
  refine List.any_eq_false.mpr fun x hx hfx => ?_
  have h₁ : 1 ≤ ((r p).filter f).length := by
    obtain ⟨y, hy, hfy⟩ := List.any_eq_true.mp hp
    exact List.length_pos_of_mem (List.mem_filter.mpr ⟨hy, hfy⟩)
  have h₂ : 1 ≤ ((r q).filter f).length := List.length_pos_of_mem (List.mem_filter.mpr ⟨hx, hfx⟩)
  have h₃ : ((r q).filter f).length + ((r p).filter f).length ≤ (r.filter f).total := by
    rw [total, ← Finset.sum_pair (f := fun q => ((r q).filter f).length) hq]
    exact Finset.sum_le_sum_of_subset (Finset.subset_univ _)
  have h₄ : (r.filter f).total ≤ 1 := h
  omega

theorem filter_not_of_any_eq_false {l : List α} (h : l.any f = false) :
    l.filter (fun x => !f x) = l := by
  rw [List.filter_eq_self]
  simpa using h

/-- When only `p` can have an element that satisfies `f`, it is removed there. -/
theorem remove_eq_removeAt {p : ι} (h : ∀ q ≠ p, (r q).any f = false) : r.remove f = r.removeAt f p := by
  refine Prod.ext (Bool.eq_iff_iff.mpr ?_) (funext fun q => ?_)
  · rw [remove, decide_eq_true_iff]
    refine ⟨fun ⟨q, hq⟩ => ?_, fun hp => ⟨p, hp⟩⟩
    by_cases hqp : q = p
    · rwa [hqp] at hq
    · rw [h q hqp] at hq
      exact nomatch hq
  · by_cases hqp : q = p
    · simp only [hqp, remove, removeAt, filterAt, set_self, filter]
    · simp only [remove, removeAt, filterAt, filter, set_of_ne _ _ hqp,
        filter_not_of_any_eq_false (h q hqp)]

omit [LinearOrder ι] in
theorem remove_miss (h : ∀ q, (r q).any f = false) :
    r.remove f = (false, r) := by
  refine Prod.ext (decide_eq_false fun ⟨q, hq⟩ => by simp [h q] at hq) (funext fun q => ?_)
  exact filter_not_of_any_eq_false (h q)

/-! ## The head -/

theorem deq_of_empty (h : ∀ p, r p = []) : r.deq = (none, r) := by
  have hn : ¬ r.occupied.Nonempty := by
    rintro ⟨p, hp⟩
    exact mem_occupied.mp hp (h p)
  rw [deq, dif_neg hn]

/-- The first nonempty list from below is the one `deq` takes from. -/
theorem deq_of_least {p : ι} {x : α} {l : List α}
    (hp : r p = x :: l) (hlt : r.EmptyBelow p) : r.deq = (some (x, p), r.set p l) := by
  have hmem : p ∈ r.occupied := mem_occupied.mpr (by simp [hp])
  have hmin : r.occupied.min' ⟨p, hmem⟩ = p := by
    refine le_antisymm (Finset.min'_le _ _ hmem) (Finset.le_min' _ _ _ fun q hq => ?_)
    exact le_of_not_gt fun hqp => mem_occupied.mp hq (hlt q hqp)
  rw [deq, dif_pos ⟨p, hmem⟩]
  simp only [hmin, hp, List.head?_cons, Option.map_some, List.tail_cons]

/-- Either everything is empty, or there is a first nonempty list. -/
theorem empty_or_least (r : PriorityFamily ι α) :
    (∀ p, r p = []) ∨ ∃ p x l, r p = x :: l ∧ r.EmptyBelow p := by
  rcases r.occupied.eq_empty_or_nonempty with h | h
  · refine Or.inl fun p => ?_
    by_contra hp
    exact absurd (mem_occupied.mpr hp) (by rw [h]; exact Finset.notMem_empty p)
  · obtain ⟨x, l, hl⟩ := List.exists_cons_of_ne_nil (mem_occupied.mp (r.occupied.min'_mem h))
    refine Or.inr ⟨_, x, l, hl, fun q hq => ?_⟩
    by_contra hne
    exact absurd (Finset.min'_le _ _ (mem_occupied.mpr hne)) (not_le_of_gt hq)

/-! ## The contents in order -/

theorem toList_of_empty (h : ∀ p, r p = []) : r.toList = [] := by
  simp [toList, h]

theorem toPlist_of_empty (h : ∀ p, r p = []) : r.toPlist = [] := by
  simp [toPlist, h]

/-- Priorities in ascending order around `p`: those below it come first. -/
theorem sort_split (p : ι) : ∃ l₁ l₂ : List ι, Finset.univ.sort (α := ι) = l₁ ++ p :: l₂ ∧
    (∀ q ∈ l₁, q < p) ∧ ∀ q ∈ l₂, p < q := by
  obtain ⟨l₁, l₂, h⟩ := List.append_of_mem ((Finset.mem_sort (r := (· ≤ ·))).mpr (Finset.mem_univ p))
  have hs := (Finset.univ (α := ι)).sortedLT_sort.pairwise
  rw [h, List.pairwise_append, List.pairwise_cons] at hs
  exact ⟨l₁, l₂, h, fun q hq => hs.2.2 q hq p (List.mem_cons_self ..), hs.2.1.1⟩

theorem toList_deq {p : ι} {x : α} {l : List α}
    (hp : r p = x :: l) (hlt : r.EmptyBelow p) : r.toList = x :: (r.set p l).toList := by
  obtain ⟨l₁, l₂, h, h₁, h₂⟩ := sort_split p
  have e₁ : l₁.flatMap r = [] := List.flatMap_eq_nil_iff.mpr fun q hq => hlt q (h₁ q hq)
  have e₁' : l₁.flatMap (r.set p l) = [] :=
    List.flatMap_eq_nil_iff.mpr fun q hq => by rw [set_of_ne r l (h₁ q hq).ne, hlt q (h₁ q hq)]
  have e₂ : l₂.flatMap (r.set p l) = l₂.flatMap r := by
    simp only [List.flatMap]
    rw [List.map_congr_left fun q hq => set_of_ne r l (h₂ q hq).ne']
  simp only [toList, h, List.flatMap_append, List.flatMap_cons, e₁, e₁', e₂, hp, set_self,
    List.nil_append, List.cons_append]

theorem mem_toList {x : α} : x ∈ r.toList ↔ ∃ p, x ∈ r p := by
  simp [toList]

theorem length_toList (r : PriorityFamily ι α) : r.toList.length = r.total := by
  rw [toList, List.length_flatMap, total, ← List.sum_toFinset _ (Finset.sort_nodup _ _), Finset.sort_toFinset]

theorem toList_filter (f : α → Bool) (r : PriorityFamily ι α) : (r.filter f).toList = r.toList.filter f := by
  rw [toList, toList, List.filter_flatMap]
  rfl

theorem atMostOne_iff :
    AtMostOne f r ↔ (r.toList.filter f).length ≤ 1 := by
  rw [AtMostOne, ← length_toList, toList_filter]

/-- Replacing one list replaces its elements. -/
theorem toList_set_perm (r : PriorityFamily ι α) (p : ι) (l : List α) :
    ((r.set p l).toList ++ r p).Perm (r.toList ++ l) := by
  obtain ⟨l₁, l₂, h, h₁, h₂⟩ := sort_split p
  have e₁ : l₁.flatMap (r.set p l) = l₁.flatMap r := by
    simp only [List.flatMap]
    rw [List.map_congr_left fun q hq => set_of_ne r l (h₁ q hq).ne]
  have e₂ : l₂.flatMap (r.set p l) = l₂.flatMap r := by
    simp only [List.flatMap]
    rw [List.map_congr_left fun q hq => set_of_ne r l (h₂ q hq).ne']
  simp only [toList, h, List.flatMap_append, List.flatMap_cons, e₁, e₂, set_self, List.append_assoc]
  refine List.Perm.append_left _ ?_
  calc l ++ (l₂.flatMap r ++ r p)
      _ ~ l₂.flatMap r ++ r p ++ l := List.perm_append_comm
      _ ~ r p ++ l₂.flatMap r ++ l := List.perm_append_comm.append_right l
      _ = r p ++ (l₂.flatMap r ++ l) := List.append_assoc ..

theorem toList_enq_perm (r : PriorityFamily ι α) (p : ι) (x : α) : (r.enq p x).toList.Perm (x :: r.toList) := by
  have h := toList_set_perm r p (r p ++ [x])
  refine (List.perm_append_right_iff (r p)).mp (h.trans ?_)
  calc r.toList ++ (r p ++ [x])
      _ ~ r.toList ++ ([x] ++ r p) := List.perm_append_comm.append_left _
      _ ~ [x] ++ r.toList ++ r p := by
        rw [← List.append_assoc]
        exact List.perm_append_comm.append_right _

/-- A unique removal takes out the one element that satisfies the predicate, if it has the priority. -/
theorem removeAt_perm {p : ι} (h : AtMostOne f r) {x : α} (hx : x ∈ r p) (hf : f x = true) :
    (r.removeAt f p).1 = true ∧ r.toList.Perm (x :: (r.removeAt f p).2.toList) := by
  refine ⟨List.any_eq_true.mpr ⟨x, hx, hf⟩, ?_⟩
  have hlen : ((r p).filter f).length = 1 :=
    le_antisymm (h.length_le p) (List.length_pos_of_mem (List.mem_filter.mpr ⟨hx, hf⟩))
  obtain ⟨y, hy⟩ := List.length_eq_one_iff.mp hlen
  have hxy : x = y := List.mem_singleton.mp (hy ▸ List.mem_filter.mpr ⟨hx, hf⟩)
  have hp : (r p).Perm (x :: (r p).filter (fun x => !f x)) := by
    have := (List.filter_append_perm f (r p)).symm
    rwa [hy, ← hxy] at this
  have hset := toList_set_perm r p ((r p).filter fun x => !f x)
  refine (List.perm_append_right_iff ((r p).filter fun x => !f x)).mp (hset.symm.trans ?_)
  calc (r.set p ((r p).filter fun x => !f x)).toList ++ r p
      _ ~ (r.set p ((r p).filter fun x => !f x)).toList ++ (x :: (r p).filter fun x => !f x) := hp.append_left _
      _ ~ x :: (r.set p ((r p).filter fun x => !f x)).toList ++ (r p).filter fun x => !f x :=
        List.perm_middle

omit [Fintype ι] in
theorem mem_of_mem_removeAt {p q : ι} {x : α} (h : x ∈ (r.removeAt f p).2 q) : x ∈ r q := by
  have h : x ∈ r.set p ((r p).filter fun x => !f x) q := h
  by_cases hq : q = p
  · rw [hq, set_self] at h
    exact hq ▸ List.mem_of_mem_filter h
  · rwa [set_of_ne r _ hq] at h

omit [Fintype ι] in
theorem removeAt_miss {p : ι} (h : (r p).any f = false) :
    r.removeAt f p = (false, r) := by
  rw [removeAt, filterAt, h, filter_not_of_any_eq_false h, set_eq_self]

/-- The pairs of `toPlist` above the first nonempty list do not depend on it. -/
theorem toPlist_least {p : ι} (hp : r p ≠ []) (hlt : r.EmptyBelow p) :
    r.toPlist = (p, r p) :: (r.set p []).toPlist := by
  obtain ⟨l₁, l₂, h, h₁, h₂⟩ := sort_split p
  have e₁ : l₁.filterMap (fun q => if r q = [] then none else some (q, r q)) = [] :=
    List.filterMap_eq_nil_iff.mpr fun q hq => by rw [if_pos (hlt q (h₁ q hq))]
  have e₁' : l₁.filterMap (fun q => if r.set p [] q = [] then none else some (q, r.set p [] q)) = [] :=
    List.filterMap_eq_nil_iff.mpr fun q hq => by
      rw [if_pos (by rw [set_of_ne r [] (h₁ q hq).ne, hlt q (h₁ q hq)])]
  have e₂ : l₂.filterMap (fun q => if r.set p [] q = [] then none else some (q, r.set p [] q)) =
      l₂.filterMap (fun q => if r q = [] then none else some (q, r q)) :=
    List.filterMap_congr fun q hq => by rw [set_of_ne r [] (h₂ q hq).ne']
  simp only [toPlist, h, List.filterMap_append, List.filterMap_cons, e₁, e₁', e₂, hp, set_self,
    if_true, if_false, List.nil_append]

end Fintype

end PriorityFamily

end CloudI
