import Mathlib.Data.List.Dedup
import Mathlib.Data.List.Pairwise
import Mathlib.Data.List.Sort

/-!
# Sorted lists without duplicates

`lists:umerge/2` and `lists:usort/1`, with what they keep: the members
(`mem_umerge`, `mem_usort`) and the strict order (`umerge_sorted`). A list in
strict order stays so under `lists:delete/2`, which then removes every
occurrence (`mem_delete`). `umergeEq` is the merge of terms that may be `==`
without being `=:=`, and `umergeEq_singleton` what it does with one term.
-/

namespace CloudI

variable {α : Type*} [LinearOrder α]

instance decidableMem (a : α) (l : List α) : Decidable (a ∈ l) := inferInstance

/-- Sorted without duplicates. -/
def Sorted (l : List α) : Prop := l.Pairwise (· < ·)

theorem Sorted.nodup {l : List α} (h : Sorted l) : l.Nodup := h.imp fun hab => ne_of_lt hab

theorem sorted_nil : Sorted ([] : List α) := List.Pairwise.nil

theorem sorted_singleton (a : α) : Sorted [a] := List.pairwise_singleton _ a

/-- `lists:delete/2` on a sorted list removes every occurrence. -/
theorem mem_delete {l : List α} (h : Sorted l) {a b : α} : b ∈ l.erase a ↔ b ≠ a ∧ b ∈ l :=
  h.nodup.mem_erase_iff

theorem Sorted.delete {l : List α} (h : Sorted l) (a : α) : Sorted (l.erase a) :=
  h.sublist List.erase_sublist

/-- `lists:umerge/2` -/
def umerge : List α → List α → List α
  | [], L2 => L2
  | L1, [] => L1
  | a :: L1, b :: L2 =>
    if a < b then a :: umerge L1 (b :: L2)
    else if b < a then b :: umerge (a :: L1) L2
    else a :: umerge L1 L2
termination_by L1 L2 => L1.length + L2.length

@[simp] theorem umerge_nil (l : List α) : umerge l [] = l := by
  cases l <;> simp [umerge]

@[simp] theorem nil_umerge (l : List α) : umerge [] l = l := by
  cases l <;> simp [umerge]

theorem mem_umerge {L1 L2 : List α} {c : α} : c ∈ umerge L1 L2 ↔ c ∈ L1 ∨ c ∈ L2 := by
  fun_induction umerge L1 L2 with
  | case1 => simp
  | case2 => simp
  | case3 a L1 b L2 h ih => simp only [List.mem_cons, ih, or_assoc]
  | case4 a L1 b L2 h h' ih =>
    simp only [List.mem_cons, ih]
    tauto
  | case5 a L1 b L2 h h' ih =>
    obtain rfl : a = b := le_antisymm (not_lt.mp h') (not_lt.mp h)
    simp only [List.mem_cons, ih]
    tauto

theorem umerge_sorted {L1 L2 : List α} (h1 : Sorted L1) (h2 : Sorted L2) : Sorted (umerge L1 L2) := by
  fun_induction umerge L1 L2 with
  | case1 => exact h2
  | case2 => exact h1
  | case3 a L1 b L2 h ih =>
    obtain ⟨ha, h1'⟩ := List.pairwise_cons.mp h1
    obtain ⟨hb, -⟩ := List.pairwise_cons.mp h2
    refine List.pairwise_cons.mpr ⟨fun c hc => ?_, ih h1' h2⟩
    rcases mem_umerge.mp hc with hc | hc
    · exact ha c hc
    · rcases List.mem_cons.mp hc with rfl | hc
      · exact h
      · exact h.trans (hb c hc)
  | case4 a L1 b L2 h h' ih =>
    obtain ⟨ha, -⟩ := List.pairwise_cons.mp h1
    obtain ⟨hb, h2'⟩ := List.pairwise_cons.mp h2
    refine List.pairwise_cons.mpr ⟨fun c hc => ?_, ih h1 h2'⟩
    rcases mem_umerge.mp hc with hc | hc
    · rcases List.mem_cons.mp hc with rfl | hc
      · exact h'
      · exact h'.trans (ha c hc)
    · exact hb c hc
  | case5 a L1 b L2 h h' ih =>
    obtain rfl : a = b := le_antisymm (not_lt.mp h') (not_lt.mp h)
    obtain ⟨ha, h1'⟩ := List.pairwise_cons.mp h1
    obtain ⟨hb, h2'⟩ := List.pairwise_cons.mp h2
    refine List.pairwise_cons.mpr ⟨fun c hc => ?_, ih h1' h2'⟩
    exact (mem_umerge.mp hc).elim (ha c) (hb c)

theorem umerge_perm {l : List α} (h : Sorted l) {a : α} (ha : a ∉ l) : (umerge l [a]).Perm (a :: l) := by
  have hs := umerge_sorted h (sorted_singleton a)
  refine (List.perm_ext_iff_of_nodup hs.nodup (List.nodup_cons.mpr ⟨ha, h.nodup⟩)).mpr fun b => ?_
  rw [mem_umerge, List.mem_singleton, List.mem_cons]
  exact or_comm

/-- `lists:usort/1` -/
def usort (l : List α) : List α := l.dedup.insertionSort (· ≤ ·)

theorem mem_usort {l : List α} {a : α} : a ∈ usort l ↔ a ∈ l := by
  rw [usort, List.mem_insertionSort, List.mem_dedup]

theorem usort_sorted (l : List α) : Sorted (usort l) := by
  have hle : (usort l).Pairwise (· ≤ ·) := List.pairwise_insertionSort (· ≤ ·) _
  have hnodup : (usort l).Nodup := (List.perm_insertionSort (· ≤ ·) l.dedup).nodup_iff.mpr l.nodup_dedup
  exact (hle.and hnodup).imp fun h => lt_of_le_of_ne h.1 h.2

/-! ## Terms that are equal as numbers -/

/-- The `==` of terms beside their order, in which the terms that are `==` stand together. -/
structure TermEq (α : Type*) [LinearOrder α] where
  eq : α → α → Bool
  refl : ∀ a, eq a a = true
  symm : ∀ a b, eq a b = eq b a
  convex : ∀ a b c, a ≤ b → b ≤ c → eq a c = true → eq a b = true

/-- `lists:umerge/2`, which takes of two terms that are `==` the one of the first list. -/
def umergeEq (E : TermEq α) : List α → List α → List α
  | [], L2 => L2
  | L1, [] => L1
  | a :: L1, b :: L2 =>
    if E.eq a b then a :: umergeEq E L1 L2
    else if a < b then a :: umergeEq E L1 (b :: L2)
    else b :: umergeEq E (a :: L1) L2
termination_by L1 L2 => L1.length + L2.length

@[simp] theorem umergeEq_nil (E : TermEq α) (l : List α) : umergeEq E l [] = l := by
  cases l <;> simp [umergeEq]

@[simp] theorem nil_umergeEq (E : TermEq α) (l : List α) : umergeEq E [] l = l := by
  cases l <;> simp [umergeEq]

/-- A term is merged into a sorted list unless one of the list is `==` to it. -/
theorem umergeEq_singleton (E : TermEq α) {l : List α} (h : Sorted l) (b : α) :
    umergeEq E l [b] = if ∃ a ∈ l, E.eq a b = true then l else umerge l [b] := by
  induction l with
  | nil => simp
  | cons a l ih =>
    obtain ⟨ha, hl⟩ := List.pairwise_cons.mp h
    by_cases heq : E.eq a b = true
    · rw [umergeEq, if_pos heq, umergeEq_nil, if_pos ⟨a, List.mem_cons_self, heq⟩]
    · have hiff : (∃ c ∈ a :: l, E.eq c b = true) ↔ ∃ c ∈ l, E.eq c b = true := by
        rw [List.exists_mem_cons_iff]
        exact or_iff_right heq
      rw [umergeEq, if_neg heq, umerge]
      rcases lt_trichotomy a b with hab | rfl | hba
      · rw [if_pos hab, if_pos hab, ih hl]
        by_cases hex : ∃ c ∈ l, E.eq c b = true
        · rw [if_pos hex, if_pos (hiff.mpr hex)]
        · rw [if_neg hex, if_neg fun hc => hex (hiff.mp hc)]
      · exact absurd (E.refl a) heq
      · -- the terms behind are further from `b`
        have hno : ¬ ∃ c ∈ a :: l, E.eq c b = true := by
          rw [hiff]
          rintro ⟨c, hc, hcb⟩
          rw [E.symm] at hcb
          exact heq ((E.symm a b).trans (E.convex b a c hba.le (ha c hc).le hcb))
        rw [if_neg hba.not_gt, if_neg hba.not_gt, if_pos hba, if_neg hno, umergeEq_nil, umerge_nil]

/-- A term of the list is `==` and not `=:=`. -/
def TermEq.Clashes (E : TermEq α) (l : List α) (b : α) : Prop := ∃ a ∈ l, E.eq a b = true ∧ a ≠ b

theorem TermEq.not_clashes_nil (E : TermEq α) {b : α} : ¬ E.Clashes [] b := by
  rintro ⟨a, ha, -⟩
  exact List.not_mem_nil ha

/-- No two terms of the list are `==`. -/
def TermEq.Apart (E : TermEq α) (l : List α) : Prop := l.Pairwise fun a b => E.eq a b = false

theorem TermEq.Apart.not_clashes {E : TermEq α} {l : List α} (h : E.Apart l) {b : α} (hb : b ∈ l) :
    ¬ E.Clashes l b := by
  rintro ⟨a, ha, heq, hne⟩
  have hsymm : Std.Symm fun a b => E.eq a b = false := ⟨fun x y hxy => (E.symm y x).trans hxy⟩
  have hab := List.Pairwise.forall h ha hb hne
  exact Bool.eq_false_iff.mp hab heq

theorem mem_umergeEq {E : TermEq α} {l : List α} (h : Sorted l) {b c : α} :
    c ∈ umergeEq E l [b] ↔ c ∈ l ∨ c = b ∧ ¬ E.Clashes l b := by
  rw [umergeEq_singleton E h]
  split
  · rename_i hex
    obtain ⟨a, hal, hab⟩ := hex
    by_cases he : a = b
    · exact ⟨.inl, fun hc => hc.elim id fun hc => hc.1 ▸ he ▸ hal⟩
    · exact ⟨.inl, fun hc => hc.resolve_right fun hc => hc.2 ⟨a, hal, hab, he⟩⟩
  · rename_i hex
    rw [mem_umerge, List.mem_singleton]
    exact or_congr Iff.rfl ⟨fun hc => ⟨hc, by rintro ⟨a, hal, hab, -⟩; exact hex ⟨a, hal, hab⟩⟩, And.left⟩

theorem umergeEq_sorted {E : TermEq α} {l : List α} (h : Sorted l) (b : α) : Sorted (umergeEq E l [b]) := by
  rw [umergeEq_singleton E h]
  split
  · exact h
  · exact umerge_sorted h (sorted_singleton b)

theorem umergeEq_ne_nil {E : TermEq α} {l : List α} (h : Sorted l) (b : α) : umergeEq E l [b] ≠ [] := by
  rw [umergeEq_singleton E h]
  split
  · rename_i hex
    exact List.ne_nil_of_mem hex.choose_spec.1
  · exact List.ne_nil_of_mem (mem_umerge.mpr (.inr (List.mem_singleton_self b)))

theorem umergeEq_apart {E : TermEq α} {l : List α} (h : Sorted l) (ha : E.Apart l) (b : α) :
    E.Apart (umergeEq E l [b]) := by
  rw [umergeEq_singleton E h]
  split
  · exact ha
  · rename_i hex
    have hno : ∀ a ∈ l, E.eq a b = false := fun a hal => Bool.eq_false_iff.mpr fun hab => hex ⟨a, hal, hab⟩
    have hb : b ∉ l := fun hb => hex ⟨b, hb, E.refl b⟩
    refine (umerge_perm h hb).symm.pairwise ?_ fun {x y} hxy => (E.symm y x).trans hxy
    exact List.pairwise_cons.mpr ⟨fun a hal => (E.symm b a).trans (hno a hal), ha⟩

end CloudI
