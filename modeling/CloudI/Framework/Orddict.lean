import Mathlib.Data.List.Sort

/-!
# Ordered dictionaries

`orddict` of the standard library: pairs in the order of their keys. Keys are compared by the order of terms, in
which different terms can be equal (`1` and `1.0`), so the order is given by a `rank`. `find_store` says what a
dictionary has after a store.
-/

namespace CloudI.Orddict

variable {K O V : Type} [LinearOrder O] (rank : K → O)

/-- `orddict:find/2` -/
def find (key : K) : List (K × V) → Option V
  | [] => none
  | (k, v) :: d => if rank key < rank k then none else if rank k < rank key then find key d else some v

/-- `orddict:store/3` -/
def store (key : K) (value : V) : List (K × V) → List (K × V)
  | [] => [(key, value)]
  | (k, v) :: d =>
    if rank key < rank k then (key, value) :: (k, v) :: d
    else if rank k < rank key then (k, v) :: store key value d
    else (key, value) :: d

/-- The keys are in order, each once. -/
def Ordered (d : List (K × V)) : Prop := d.Pairwise fun a b => rank a.1 < rank b.1

variable {rank} {key key' : K} {value : V} {d : List (K × V)}

theorem ordered_nil : Ordered rank ([] : List (K × V)) := List.Pairwise.nil

theorem mem_store {a : K × V} (h : a ∈ store rank key value d) : a = (key, value) ∨ a ∈ d := by
  induction d with
  | nil => exact .inl (List.mem_singleton.mp h)
  | cons p d ih =>
    rw [store] at h
    split at h
    · exact List.mem_cons.mp h
    · split at h
      · rcases List.mem_cons.mp h with rfl | h
        · exact .inr List.mem_cons_self
        · exact (ih h).imp_right (List.mem_cons_of_mem p)
      · exact (List.mem_cons.mp h).imp_right (List.mem_cons_of_mem p)

theorem Ordered.store (h : Ordered rank d) (key : K) (value : V) : Ordered rank (store rank key value d) := by
  induction d with
  | nil => exact List.pairwise_singleton _ _
  | cons p d ih =>
    obtain ⟨hp, hd⟩ := List.pairwise_cons.mp h
    rw [Orddict.store]
    split
    · rename_i hlt
      refine List.pairwise_cons.mpr ⟨fun a ha => ?_, h⟩
      rcases List.mem_cons.mp ha with rfl | ha
      · exact hlt
      · exact lt_trans hlt (hp a ha)
    · rename_i hnlt
      split
      · rename_i hlt
        refine List.pairwise_cons.mpr ⟨fun a ha => ?_, ih hd⟩
        rcases mem_store ha with rfl | ha
        · exact hlt
        · exact hp a ha
      · rename_i hngt
        have heq : rank key = rank p.1 := le_antisymm (not_lt.mp hngt) (not_lt.mp hnlt)
        refine List.pairwise_cons.mpr ⟨fun a ha => ?_, hd⟩
        show rank key < rank a.1
        rw [heq]
        exact hp a ha

theorem find_store (h : Ordered rank d) :
    find rank key' (store rank key value d) = if rank key' = rank key then some value else find rank key' d := by
  induction d with
  | nil =>
    simp only [store, find]
    rcases lt_trichotomy (rank key') (rank key) with hlt | heq | hgt
    · rw [if_pos hlt, if_neg hlt.ne]
    · rw [if_neg heq.not_lt, if_neg heq.not_gt, if_pos heq]
    · rw [if_neg hgt.not_gt, if_pos hgt, if_neg hgt.ne']
  | cons p d ih =>
    obtain ⟨hp, hd⟩ := List.pairwise_cons.mp h
    rw [store]
    split
    · -- the key is stored before the first one
      rename_i hlt
      rw [find]
      rcases lt_trichotomy (rank key') (rank key) with hlt' | heq | hgt
      · rw [if_pos hlt', if_neg hlt'.ne, find, if_pos (hlt'.trans hlt)]
      · rw [if_neg heq.not_lt, if_neg heq.not_gt, if_pos heq]
      · rw [if_neg hgt.not_gt, if_pos hgt, if_neg hgt.ne']
    · rename_i hnlt
      split
      · -- the key is stored after the first one
        rename_i hlt
        rw [find, find, ih hd]
        rcases lt_trichotomy (rank key') (rank p.1) with hlt' | heq | hgt
        · rw [if_pos hlt', if_pos hlt', if_neg (hlt'.trans hlt).ne]
        · rw [if_neg heq.not_lt, if_neg heq.not_gt, if_neg heq.not_lt, if_neg heq.not_gt, if_neg (heq.trans_lt hlt).ne]
        · rw [if_neg hgt.not_gt, if_pos hgt, if_neg hgt.not_gt, if_pos hgt]
      · -- the key takes the place of an equal one
        rename_i hngt
        have heq : rank key = rank p.1 := le_antisymm (not_lt.mp hngt) (not_lt.mp hnlt)
        rw [find, find]
        rcases lt_trichotomy (rank key') (rank key) with hlt' | heq' | hgt
        · rw [if_pos hlt', if_neg hlt'.ne, if_pos (heq ▸ hlt')]
        · rw [if_neg heq'.not_lt, if_neg heq'.not_gt, if_pos heq']
        · rw [if_neg hgt.not_gt, if_pos hgt, if_neg hgt.ne', if_neg (heq ▸ hgt.not_gt), if_pos (heq ▸ hgt)]

end CloudI.Orddict
