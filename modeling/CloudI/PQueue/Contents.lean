import CloudI.Framework.PriorityFamily
import CloudI.PQueue.PQueue4

/-!
# What `pqueue4` holds

`contents` maps a state to the lists of its queues, one for each priority.
`Coherent` is what the state promises about its size and its current
priority. Each operation is stated by what it does to the contents of a
coherent state, which stays coherent (`outCurrentP_spec`, `filterAll_spec`,
`removeUniqueAll_spec`, ...).
-/

namespace CloudI.PQueue4

open PriorityFamily

variable {α : Type}

/-- The list held for each priority. -/
def contents (Q : PQueue4 α) : PriorityFamily Priority α := fun P => (Q.queueAt P).toList

theorem contents_apply (Q : PQueue4 α) (P : Priority) : Q.contents P = (Q.queueAt P).toList := rfl

theorem contents_setQueue (Q : PQueue4 α) (P : Priority) (q : TwoListQueue α) :
    (Q.setQueue P q).contents = Q.contents.set P q.toList := by
  funext P'
  by_cases h : P' = P
  · rw [h, contents_apply, queueAt_setQueue_self, set_self]
  · rw [contents_apply, queueAt_setQueue_of_ne _ _ h, set_of_ne _ _ h, contents_apply]

@[simp] theorem contents_mk_pc (Q : PQueue4 α) (c : Option Priority) (n : Int) :
    contents { Q with pc := c, size := n } = Q.contents := by
  funext P
  simp only [contents_apply, queueAt_mk_pc]

@[simp] theorem contents_replace (Q : PQueue4 α) (c : Option Priority) (n : Int) (P : Priority)
    (q : TwoListQueue α) : (Q.replace c n P q).contents = Q.contents.set P q.toList := by
  rw [replace, contents_mk_pc, contents_setQueue]

/-- The size counts the elements, and the current priority is `empty` exactly
when there are none and no element is below it. -/
structure Coherent (Q : PQueue4 α) : Prop where
  size_eq : Q.size = Q.contents.total
  pc_none : Q.pc = none ↔ Q.size = 0
  pc_le : ∀ Pc, Q.pc = some Pc → Q.contents.EmptyBelow Pc

theorem contents_new : (new : PQueue4 α).contents = empty := by
  funext P
  by_cases h : P.val = 0
  · rw [contents_apply, queueAt_zero _ h]
    rfl
  · have hb : ∀ b, (new : PQueue4 α).block b = Vector.replicate 16 .new := fun b => by cases b <;> rfl
    rw [contents_apply, queueAt_block _ h]
    simp only [hb, Fin.getElem_fin, Vector.getElem_replicate]
    rfl

theorem coherent_new : Coherent (new : PQueue4 α) where
  size_eq := by
    have h0 : (empty : PriorityFamily Priority α).total = 0 := total_eq_zero.mpr fun _ => rfl
    rw [contents_new, h0]
    rfl
  pc_none := ⟨fun _ => rfl, fun _ => rfl⟩
  pc_le := fun _ h => nomatch h

variable {Q : PQueue4 α}

theorem Coherent.pc_none_iff (h : Q.Coherent) :
    Q.pc = none ↔ ∀ P, Q.contents P = [] := by
  rw [h.pc_none, h.size_eq, Int.natCast_eq_zero, total_eq_zero]

variable {P : Priority} {q : TwoListQueue α}

/-- Replacing one queue keeps the state coherent when the size follows its
length and nothing is left below the new current priority. -/
theorem coherent_replace (h : Q.size = Q.contents.total) {c : Option Priority} {n : Int}
    (hn : n + (Q.contents P).length = Q.size + q.toList.length) (hc : c = none → n = 0)
    (hb : ∀ Pc, c = some Pc → (Q.contents.set P q.toList).EmptyBelow Pc) :
    Coherent (Q.replace c n P q) where
  size_eq := by
    have := total_set Q.contents P q.toList
    rw [contents_replace]
    simp only [replace]
    omega
  pc_none := by
    simp only [replace, ite_eq_left_iff]
    exact ⟨fun h => by_contra fun hne => hne (hc (h hne)), fun h hne => absurd h hne⟩
  pc_le Pc hPc := by
    rw [contents_replace]
    simp only [replace] at hPc
    split at hPc
    · exact nomatch hPc
    · exact hb Pc hPc

/-- Shortening one queue under the same current priority. -/
theorem coherent_shorten (h : Q.Coherent) {n : Int} (hn : n + (Q.contents P).length = Q.size + q.toList.length)
    (hle : q.toList.length ≤ (Q.contents P).length) : Coherent (Q.replace Q.pc n P q) := by
  refine coherent_replace h.size_eq hn (fun hPc => ?_) fun Pc hPc => (h.pc_le Pc hPc).set ?_
  · have h0 := h.pc_none.mp hPc
    have hP := h.pc_none_iff.mp hPc P
    rw [hP, List.length_nil] at hn hle
    omega
  · intro hP
    rw [hP, List.length_nil] at hle
    exact List.eq_nil_of_length_eq_zero (by omega)

/-! ## Adding -/

theorem inHigher_contents (P : Priority) (Q : PQueue4 α) (X : α) :
    (inHigher P Q X).contents = Q.contents.enq P X := by
  rw [inHigher, contents_mk_pc, contents_setQueue, TwoListQueue.toList_in, enq, contents_apply]

theorem inLower_contents (P : Priority) (Q : PQueue4 α) (X : α) :
    (inLower P Q X).contents = Q.contents.enq P X := by
  rw [inLower, contents_mk_pc, contents_setQueue, TwoListQueue.toList_in, enq, contents_apply]

theorem total_enq (r : PriorityFamily Priority α) (P : Priority) (X : α) :
    (r.enq P X).total = r.total + 1 := by
  have := total_set r P (r P ++ [X])
  rw [List.length_append, List.length_singleton] at this
  rw [enq]
  omega

theorem inHigher_coherent {X : α} (h : Q.size = Q.contents.total)
    (hb : Q.contents.EmptyBelow P) : Coherent (inHigher P Q X) where
  size_eq := by
    rw [inHigher_contents, total_enq]
    simp only [inHigher]
    omega
  pc_none := by
    simp only [inHigher, reduceCtorEq, false_iff]
    omega
  pc_le Pc hPc := by
    rw [inHigher_contents]
    cases hPc
    exact hb.enq le_rfl X

theorem inLower_coherent {P Pc : Priority} {X : α} (h : Q.Coherent)
    (hPc : Q.pc = some Pc) (hle : Pc ≤ P) : Coherent (inLower P Q X) where
  size_eq := by
    rw [inLower_contents, total_enq]
    have := h.size_eq
    simp only [inLower]
    omega
  pc_none := by
    have := h.size_eq
    simp only [inLower, hPc, reduceCtorEq, false_iff]
    omega
  pc_le Pc' hPc' := by
    rw [inLower_contents]
    simp only [inLower, hPc, Option.some.injEq] at hPc'
    subst hPc'
    exact (h.pc_le _ hPc).enq hle X

/-- `in/3` appends to the list of its priority. -/
theorem in3_spec (h : Q.Coherent) (X : α) (P : Priority) :
    ∃ Q', in3 X P.val Q = .ok Q' ∧ Q'.contents = Q.contents.enq P X ∧ Q'.Coherent := by
  simp only [in3, toPriority_val]
  cases hPc : Q.pc with
  | none =>
    refine ⟨_, rfl, inHigher_contents .., inHigher_coherent h.size_eq fun q _ => ?_⟩
    exact h.pc_none_iff.mp hPc q
  | some Pc =>
    by_cases hlt : P < Pc
    · refine ⟨inHigher P Q X, by simp [hlt], inHigher_contents .., inHigher_coherent h.size_eq ?_⟩
      exact fun q hq => h.pc_le Pc hPc q (hq.trans hlt)
    · refine ⟨inLower P Q X, by simp [hlt], inLower_contents .., ?_⟩
      exact inLower_coherent h hPc (not_lt.mp hlt)

/-! ## Filtering -/

theorem filterPriority_contents (P : Priority) (F : α → Bool) (Q : PQueue4 α) :
    (filterPriority P F Q).contents = Q.contents.filterAt F P := by
  rw [filterPriority, contents_replace, TwoListQueue.toList_filter]
  rfl

variable {F : α → Bool}

theorem filterPriority_coherent (h : Q.Coherent) :
    Coherent (filterPriority P F Q) := by
  refine coherent_shorten h ?_ ?_
  · simp only [TwoListQueue.len_eq, TwoListQueue.toList_filter, contents_apply]
    omega
  · rw [TwoListQueue.toList_filter]
    exact List.length_filter_le ..

/-- `filter_all(P, ...)` filters the lists from `P` on. -/
theorem filterAll_spec (P : Priority) (F : α → Bool) (h : Q.Coherent) :
    (filterAll P F Q).Coherent ∧
      ∀ p, (filterAll P F Q).contents p = if P ≤ p then (Q.contents p).filter F else Q.contents p := by
  fun_induction filterAll P F Q with
  | case1 P Q hsize =>
    refine ⟨h, fun p => ?_⟩
    have hnil := h.pc_none_iff.mp (h.pc_none.mpr hsize) p
    rw [hnil, List.filter_nil, ite_self]
  | case2 P Q _ hP =>
    refine ⟨filterPriority_coherent h, fun p => ?_⟩
    rw [filterPriority_contents]
    by_cases hp : p = P
    · rw [hp, filterAt, set_self, if_pos le_rfl]
    · have hlt : ¬ P ≤ p := fun hle => hp (le_antisymm (Priority.le_last hP p) hle)
      rw [filterAt, set_of_ne _ _ hp, if_neg hlt]
  | case3 P Q _ hP ih =>
    obtain ⟨hc, hp⟩ := ih (filterPriority_coherent h)
    refine ⟨hc, fun p => ?_⟩
    rw [hp, filterPriority_contents, filterAt]
    by_cases hpP : p = P
    · subst hpP
      rw [set_self, if_neg (not_le.mpr (Priority.lt_next _ hP)), if_pos le_rfl]
    · have hlt : P.next hP ≤ p ↔ P ≤ p :=
        ⟨(Priority.lt_next _ hP).le.trans, fun h => Priority.next_le hP (lt_of_le_of_ne h (Ne.symm hpP))⟩
      rw [set_of_ne _ _ hpP]
      exact if_congr hlt rfl rfl

/-- `filter/2` filters every list. -/
theorem filter2_spec (F : α → Bool) (h : Q.Coherent) :
    (filter2 F Q).Coherent ∧ (filter2 F Q).contents = Q.contents.filter F := by
  unfold filter2
  split
  · rename_i hPc
    refine ⟨h, funext fun p => ?_⟩
    rw [filter, h.pc_none_iff.mp hPc p, List.filter_nil]
  · rename_i Pc hPc
    obtain ⟨hc, hp⟩ := filterAll_spec Pc F h
    refine ⟨hc, funext fun p => ?_⟩
    rw [hp p, filter]
    split
    · rfl
    · rename_i hlt
      rw [h.pc_le Pc hPc p (not_le.mp hlt), List.filter_nil]

theorem filter3_spec (F : α → Bool) (P : Priority) (h : Q.Coherent) :
    ∃ Q', filter3 F P.val Q = .ok Q' ∧ Q'.contents = Q.contents.filterAt F P ∧ Q'.Coherent := by
  simp only [filter3, toPriority_val]
  exact ⟨_, rfl, filterPriority_contents .., filterPriority_coherent h⟩

/-! ## Taking -/

theorem replace_queueAt (Q : PQueue4 α) (P : Priority) (c : Option Priority) (n : Int) :
    Q.replace c n P (Q.queueAt P) = { Q with pc := if n = 0 then none else c, size := n } := by
  rw [replace, setQueue_queueAt]

/-- `out_current` is `out_current_p` without the priority. -/
theorem outCurrent_eq (P : Priority) (Q : PQueue4 α) :
    outCurrent P Q = ((outCurrentP P Q).1.map Prod.fst, (outCurrentP P Q).2) := by
  fun_induction outCurrent P Q with
  | case1 P v q hq =>
    rw [outCurrentP]
    simp only [hq, Option.map_some]
  | case2 P q hq hP =>
    rw [outCurrentP]
    simp only [hq, dif_pos hP, Option.map_none, TwoListQueue.eq_of_out_none hq]
    rw [replace_queueAt, if_pos rfl]
  | case3 P q hq hP ih =>
    rw [outCurrentP]
    simp only [hq, dif_neg hP, ih]

/-- The scan from a priority with nothing below it takes the first element. -/
theorem outCurrentP_spec (h : Q.size = Q.contents.total) (hb : Q.contents.EmptyBelow P) :
    (outCurrentP P Q).1 = Q.contents.deq.1 ∧ (outCurrentP P Q).2.contents = Q.contents.deq.2 ∧
      (outCurrentP P Q).2.Coherent := by
  fun_induction outCurrentP P Q with
  | case1 P v q hq =>
    have hP : Q.contents P = v :: q.toList := TwoListQueue.toList_of_out_some hq
    rw [deq_of_least hP hb]
    refine ⟨rfl, contents_replace .., coherent_replace h ?_ nofun ?_⟩
    · rw [hP, List.length_cons]
      omega
    · rintro _ ⟨⟩
      exact hb.set fun h0 => by rw [hP] at h0; exact nomatch h0
  | case2 P q hq hP =>
    have hnil : ∀ p, Q.contents p = [] := fun p => by
      rcases eq_or_lt_of_le (Priority.le_last hP p) with rfl | hlt
      · exact TwoListQueue.toList_of_out_none hq
      · exact hb p hlt
    rw [deq_of_empty hnil]
    refine ⟨rfl, contents_mk_pc .., ?_, ?_, fun _ h => nomatch h⟩
    · rw [contents_mk_pc, total_eq_zero.mpr hnil]
      rfl
    · exact ⟨fun _ => rfl, fun _ => rfl⟩
  | case3 P q hq hP ih =>
    refine ih fun p hp => ?_
    rcases eq_or_lt_of_le (Priority.lt_next_iff.mp hp) with rfl | hlt
    · exact TwoListQueue.toList_of_out_none hq
    · exact hb p hlt

/-- `pout/1` takes the first element, with its priority. -/
theorem pout_spec (h : Q.Coherent) :
    Q.pout.1 = Q.contents.deq.1 ∧ Q.pout.2.contents = Q.contents.deq.2 ∧ Q.pout.2.Coherent := by
  unfold pout
  split
  · rename_i hPc
    rw [deq_of_empty (h.pc_none_iff.mp hPc)]
    exact ⟨rfl, rfl, h⟩
  · rename_i Pc hPc
    exact outCurrentP_spec h.size_eq (h.pc_le Pc hPc)

theorem out1_eq (Q : PQueue4 α) : Q.out1 = (Q.pout.1.map Prod.fst, Q.pout.2) := by
  unfold out1 pout
  cases Q.pc with
  | none => rfl
  | some Pc => exact outCurrent_eq Pc Q

/-- `out/1` takes the first element. -/
theorem out1_spec (h : Q.Coherent) :
    Q.out1.1 = Q.contents.deq.1.map Prod.fst ∧ Q.out1.2.contents = Q.contents.deq.2 ∧
      Q.out1.2.Coherent := by
  rw [out1_eq, ← (pout_spec h).1]
  exact ⟨rfl, (pout_spec h).2⟩

theorem outSpecific_spec (h : Q.Coherent) (P : Priority) :
    (outSpecific P Q).1 = (Q.contents P).head? ∧
      (outSpecific P Q).2.contents = Q.contents.set P (Q.contents P).tail ∧
      (outSpecific P Q).2.Coherent := by
  have h₁ := (Q.queueAt P).out_fst
  have h₂ := (Q.queueAt P).toList_out
  rw [← contents_apply] at h₁ h₂
  generalize hq : (Q.queueAt P).out = vq at h₁ h₂
  obtain ⟨v, q⟩ := vq
  simp only at h₁ h₂
  simp only [outSpecific, hq, contents_replace, h₂]
  refine ⟨h₁, trivial, coherent_shorten h ?_ ?_⟩
  · rw [h₂, h₁]
    cases Q.contents P <;> simp
  · rw [h₂, List.length_tail]
    omega

/-- `out/2` takes the first element of its priority. -/
theorem out2_spec (h : Q.Coherent) (P : Priority) :
    ∃ v Q', out2 P.val Q = .ok (v, Q') ∧ (v, Q'.contents) = Q.contents.deqAt P ∧ Q'.Coherent := by
  simp only [out2, toPriority_val]
  cases hPc : Q.pc with
  | none =>
    have hP := h.pc_none_iff.mp hPc P
    refine ⟨none, Q, rfl, ?_, h⟩
    rw [deqAt, hP, List.head?_nil, List.tail_nil, ← hP, set_eq_self]
  | some Pc =>
    obtain ⟨h₁, h₂, h₃⟩ := outSpecific_spec h P
    exact ⟨(outSpecific P Q).1, (outSpecific P Q).2, rfl, by rw [h₁, h₂, deqAt], h₃⟩

/-! ## Removing a unique value -/

theorem queueRemoveUniqueScan_eq (F : α → Bool) (l acc all : List α) :
    queueRemoveUniqueScan F l acc all =
      if l.any F then (true, acc.reverse ++ l.eraseP F) else (false, all) := by
  induction l generalizing acc with
  | nil => rfl
  | cons x l ih =>
    rw [queueRemoveUniqueScan]
    by_cases hx : F x
    · simp [hx, List.eraseP_cons_of_pos]
    · simp [hx, ih, List.eraseP_cons_of_neg]

theorem queueRemoveUniqueF_eq (F : α → Bool) (l : List α) :
    queueRemoveUniqueF F l = (l.any F, l.eraseP F) := by
  cases l with
  | nil => rfl
  | cons x l =>
    rw [queueRemoveUniqueF, queueRemoveUniqueScan_eq]
    · split
      · rename_i h
        rw [h, List.reverse_nil, List.nil_append]
      · rename_i h
        rw [Bool.eq_false_iff.mpr h, List.eraseP_of_forall_not]
        simpa using h
    · exact nofun

/-- One element is removed when there is one: the first of the front list,
else the newest of the rear list. -/
theorem queueRemoveUnique_spec (F : α → Bool) (q : TwoListQueue α) :
    (queueRemoveUnique F q).1 = q.toList.any F ∧
      (queueRemoveUnique F q).2.toList = q.front.eraseP F ++
        (if q.front.any F then q.rear else q.rear.eraseP F).reverse := by
  have hany : q.toList.any F = (q.front.any F || q.rear.any F) := by
    rw [TwoListQueue.toList, List.any_append, List.any_reverse]
  simp only [hany, queueRemoveUnique, queueRemoveUniqueF_eq]
  cases hf : q.front.any F with
  | true =>
    cases he : q.front.eraseP F with
    | nil => simp
    | cons x l => simp
  | false =>
    cases hr : q.rear.any F with
    | true =>
      cases he : q.rear.eraseP F with
      | nil => simp
      | cons x l => simp
    | false =>
      have h₁ : q.front.eraseP F = q.front := List.eraseP_of_forall_not (by simpa using hf)
      have h₂ : q.rear.eraseP F = q.rear := List.eraseP_of_forall_not (by simpa using hr)
      simp [h₁, h₂, TwoListQueue.toList]

theorem eraseP_eq_filter {l : List α} (h : (l.filter F).length ≤ 1) :
    l.eraseP F = l.filter (fun x => !F x) := by
  induction l with
  | nil => rfl
  | cons x l ih =>
    by_cases hx : F x
    · rw [List.eraseP_cons_of_pos hx, List.filter_cons_of_neg (by simpa using hx)]
      rw [List.filter_cons_of_pos hx, List.length_cons] at h
      refine (filter_not_of_any_eq_false (List.any_eq_false.mpr fun y hy hFy => ?_)).symm
      have := List.length_pos_of_mem (List.mem_filter.mpr ⟨hy, hFy⟩)
      omega
    · rw [List.filter_cons_of_neg hx] at h
      rw [List.eraseP_cons_of_neg hx, List.filter_cons_of_pos (by simpa using hx), ih h]

/-- A unique element is filtered out, wherever it is. -/
theorem queueRemoveUnique_toList (h : (q.toList.filter F).length ≤ 1) :
    (queueRemoveUnique F q).2.toList = q.toList.filter (fun x => !F x) := by
  rw [TwoListQueue.toList, List.filter_append, List.length_append, List.filter_reverse,
    List.length_reverse] at h
  rw [(queueRemoveUnique_spec F q).2, TwoListQueue.toList, List.filter_append, List.filter_reverse,
    eraseP_eq_filter (by omega)]
  congr 2
  split
  · rename_i hf
    refine (filter_not_of_any_eq_false (List.any_eq_false.mpr fun y hy hFy => ?_)).symm
    obtain ⟨x, hx, hFx⟩ := List.any_eq_true.mp hf
    have := List.length_pos_of_mem (List.mem_filter.mpr ⟨hx, hFx⟩)
    have := List.length_pos_of_mem (List.mem_filter.mpr ⟨hy, hFy⟩)
    omega
  · exact eraseP_eq_filter (by omega)

/-- A miss returns the very same queue. -/
theorem queueRemoveUnique_miss (h : q.toList.any F = false) :
    queueRemoveUnique F q = (false, q) := by
  rw [TwoListQueue.toList, List.any_append, List.any_reverse, Bool.or_eq_false_iff] at h
  rw [queueRemoveUnique, queueRemoveUniqueF_eq, queueRemoveUniqueF_eq, h.1, h.2]

/-- What is left when the element is found in the front list. -/
theorem queueRemoveUnique_front (h : q.front.any F = true) (hq : q.Valid) :
    ∃ q', queueRemoveUnique F q = (true, q') ∧ q'.Valid ∧ q'.toList = q.front.eraseP F ++ q.rear.reverse := by
  rw [queueRemoveUnique, queueRemoveUniqueF_eq, h]
  cases he : q.front.eraseP F with
  | nil => exact ⟨_, rfl, TwoListQueue.valid_r2f _, TwoListQueue.toList_r2f _⟩
  | cons x l =>
    refine ⟨_, rfl, fun _ => ⟨(hq ?_).1, List.cons_ne_nil _ _⟩, rfl⟩
    have hlen : (q.front.eraseP F).length = q.front.length - 1 := by rw [List.length_eraseP, if_pos h]
    rw [he, List.length_cons] at hlen
    rw [TwoListQueue.toList, List.length_append]
    omega

/-- What is left when the element is found in the rear list. -/
theorem queueRemoveUnique_rear (hf : q.front.any F = false) (h : q.rear.any F = true) (hq : q.Valid) :
    ∃ q', queueRemoveUnique F q = (true, q') ∧ q'.Valid ∧ q'.toList = q.front ++ (q.rear.eraseP F).reverse := by
  have hfront : q.front.eraseP F = q.front := List.eraseP_of_forall_not (by simpa using hf)
  rw [queueRemoveUnique, queueRemoveUniqueF_eq, queueRemoveUniqueF_eq, hf, h, hfront]
  cases he : q.rear.eraseP F with
  | nil =>
    refine ⟨_, rfl, TwoListQueue.valid_f2r _, ?_⟩
    rw [TwoListQueue.toList_f2r, List.reverse_nil, List.append_nil]
  | cons x l =>
    refine ⟨_, rfl, fun _ => ⟨List.cons_ne_nil _ _, (hq ?_).2⟩, rfl⟩
    have hlen : (q.rear.eraseP F).length = q.rear.length - 1 := by rw [List.length_eraseP, if_pos h]
    rw [he, List.length_cons] at hlen
    rw [TwoListQueue.toList, List.length_append, List.length_reverse]
    omega

/-- A valid queue stays so, and exactly one element that satisfies `F` is removed, if there is one. -/
theorem queueRemoveUnique_valid (F : α → Bool) (hq : q.Valid) :
    ((∀ x ∈ q.toList, F x = false) → queueRemoveUnique F q = (false, q)) ∧
      ((∃ x ∈ q.toList, F x = true) → ∃ q' x l₁ l₂, queueRemoveUnique F q = (true, q') ∧ q'.Valid ∧ F x = true ∧
        q.toList = l₁ ++ x :: l₂ ∧ q'.toList = l₁ ++ l₂) := by
  refine ⟨fun h => queueRemoveUnique_miss (List.any_eq_false.mpr fun x hx => by simp [h x hx]), ?_⟩
  rintro ⟨y, hy, hFy⟩
  cases hf : q.front.any F with
  | true =>
    obtain ⟨q', hremove, hvalid, hlist⟩ := queueRemoveUnique_front hf hq
    obtain ⟨z, hz, hFz⟩ := List.any_eq_true.mp hf
    obtain ⟨x, l₁, l₂, -, hFx, hfront, herase⟩ := List.exists_of_eraseP hz hFz
    refine ⟨q', x, l₁, l₂ ++ q.rear.reverse, hremove, hvalid, hFx, ?_, ?_⟩
    · rw [TwoListQueue.toList, hfront, List.append_assoc, List.cons_append]
    · rw [hlist, herase, List.append_assoc]
  | false =>
    have hrear : y ∈ q.rear := by
      obtain hy | hy := List.mem_append.mp hy
      · exact absurd hFy (List.any_eq_false.mp hf y hy)
      · exact List.mem_reverse.mp hy
    obtain ⟨q', hremove, hvalid, hlist⟩ := queueRemoveUnique_rear hf (List.any_eq_true.mpr ⟨y, hrear, hFy⟩) hq
    obtain ⟨x, l₁, l₂, -, hFx, hfound, herase⟩ := List.exists_of_eraseP hrear hFy
    refine ⟨q', x, q.front ++ l₂.reverse, l₁.reverse, hremove, hvalid, hFx, ?_, ?_⟩
    · rw [TwoListQueue.toList, hfound, List.reverse_append, List.reverse_cons, List.append_assoc, List.append_assoc]
      rfl
    · rw [hlist, herase, List.reverse_append, List.append_assoc]

/-- The queue 1, 2, 3 without its 2. -/
theorem queueRemoveUnique_valid_three : ∃ q' x l₁ l₂, queueRemoveUnique (· == 2) ⟨[3], [1, 2]⟩ = (true, q') ∧
    q'.Valid ∧ (x == 2) = true ∧ [1, 2, 3] = l₁ ++ x :: l₂ ∧ q'.toList = l₁ ++ l₂ :=
  (queueRemoveUnique_valid (· == 2) (q := ⟨[3], [1, 2]⟩) fun _ => ⟨by simp, by simp⟩).2 ⟨2, by simp, rfl⟩

/-- Removing the element of `P` that satisfies `F`, when no other one does. -/
theorem removeUniqueP_spec (h : Q.Coherent) (hF : AtMostOne F Q.contents) :
    (removeUniqueP P F Q).1 = (Q.contents P).any F ∧
      (removeUniqueP P F Q).2.contents = Q.contents.filterAt (fun x => !F x) P ∧
      (removeUniqueP P F Q).2.Coherent := by
  have h₁ := (queueRemoveUnique_spec F (Q.queueAt P)).1
  have h₂ := queueRemoveUnique_toList (hF.length_le P)
  rw [← contents_apply] at h₁ h₂
  generalize hq : queueRemoveUnique F (Q.queueAt P) = vq at h₁ h₂
  obtain ⟨v, q⟩ := vq
  simp only at h₁ h₂
  simp only [removeUniqueP, hq, contents_replace, h₂]
  refine ⟨h₁, rfl, coherent_shorten h ?_ ?_⟩
  · rw [h₂, h₁]
    split
    · rename_i hany
      obtain ⟨x, hx, hFx⟩ := List.any_eq_true.mp hany
      have hpos := List.length_pos_of_mem (List.mem_filter.mpr ⟨hx, hFx⟩)
      have hle := hF.length_le P
      have hsum := List.length_eq_length_filter_add (l := Q.contents P) F
      omega
    · rename_i hany
      rw [filter_not_of_any_eq_false (Bool.eq_false_iff.mpr hany)]
  · rw [h₂]
    exact List.length_filter_le ..

theorem removeUniqueP_miss (h : Q.size ≠ 0)
    (hP : (Q.contents P).any F = false) : removeUniqueP P F Q = (false, Q) := by
  rw [removeUniqueP, queueRemoveUnique_miss hP]
  simp only [Bool.false_eq_true, if_false, replace_queueAt, if_neg h]

/-- The scan finds the element that satisfies `F`, and never fails to match `Q`. -/
theorem removeUniqueAll_spec [DecidableEq α] (h : Q.Coherent) (hsize : Q.size ≠ 0) (hF : AtMostOne F Q.contents)
    (hb : ∀ p < P, (Q.contents p).any F = false) :
    ∃ v Q', removeUniqueAll P F Q = .ok (v, Q') ∧ (v, Q'.contents) = Q.contents.remove F ∧
      Q'.Coherent := by
  obtain ⟨h₁, h₂, h₃⟩ := removeUniqueP_spec (P := P) h hF
  fun_induction removeUniqueAll P F Q with
  | case1 P hP =>
    refine ⟨(removeUniqueP P F Q).1, (removeUniqueP P F Q).2, rfl, ?_, h₃⟩
    rw [h₁, h₂, remove_eq_removeAt (p := P), removeAt]
    exact fun q hq => hb q (lt_of_le_of_ne (Priority.le_last hP q) hq)
  | case2 P hP Q' hQ' =>
    simp only [hQ'] at h₁ h₂ h₃
    refine ⟨true, Q', rfl, ?_, h₃⟩
    rw [h₁, h₂, remove_eq_removeAt (p := P), removeAt]
    exact fun q hq => hF.any_eq_false h₁.symm hq
  | case3 P hP hQ' ih =>
    rw [hQ'] at h₁
    obtain ⟨h₁', h₂', h₃'⟩ := removeUniqueP_spec (P := P.next hP) h hF
    refine ih (fun p hp => ?_) h₁' h₂' h₃'
    rcases eq_or_lt_of_le (Priority.lt_next_iff.mp hp) with rfl | hlt
    · exact h₁.symm
    · exact hb p hlt
  | case4 P hP Q' hQ' hne =>
    rw [hQ'] at h₁
    rw [removeUniqueP_miss hsize h₁.symm] at hQ'
    exact absurd (Prod.mk.inj hQ').2.symm hne

/-- `remove_unique/2` removes the element that satisfies `F`. -/
theorem removeUnique2_spec [DecidableEq α] (h : Q.Coherent) (hF : AtMostOne F Q.contents) :
    ∃ v Q', removeUnique2 F Q = .ok (v, Q') ∧ (v, Q'.contents) = Q.contents.remove F ∧
      Q'.Coherent := by
  unfold removeUnique2
  split
  · rename_i hsize
    have hnil := h.pc_none_iff.mp (h.pc_none.mpr hsize)
    exact ⟨_, _, rfl, (remove_miss fun q => by rw [hnil q, List.any_nil]).symm, h⟩
  · rename_i hsize
    split
    · rename_i hPc
      exact absurd (h.pc_none.mp hPc) hsize
    · rename_i Pc hPc
      exact removeUniqueAll_spec h hsize hF fun p hp => by rw [h.pc_le Pc hPc p hp, List.any_nil]

/-- `remove_unique/3` removes the element of `P` that satisfies `F`. -/
theorem removeUnique3_spec (h : Q.Coherent) (P : Priority) (hF : AtMostOne F Q.contents) :
    ∃ v Q', removeUnique3 F P.val Q = .ok (v, Q') ∧ (v, Q'.contents) = Q.contents.removeAt F P ∧
      Q'.Coherent := by
  simp only [removeUnique3, toPriority_val]
  obtain ⟨h₁, h₂, h₃⟩ := removeUniqueP_spec (P := P) h hF
  exact ⟨(removeUniqueP P F Q).1, (removeUniqueP P F Q).2, rfl, by rw [h₁, h₂, removeAt], h₃⟩

/-! ## The elements in order -/

theorem outCurrentP_total (h : (outCurrentP P Q).1 ≠ none) :
    (outCurrentP P Q).2.contents.total < Q.contents.total := by
  fun_induction outCurrentP P Q with
  | case1 P v q hq =>
    have hP : Q.contents P = v :: q.toList := TwoListQueue.toList_of_out_some hq
    have ht := total_set Q.contents P q.toList
    rw [hP, List.length_cons] at ht
    rw [contents_replace]
    omega
  | case2 => exact absurd rfl h
  | case3 P q hq hP ih => exact ih h

theorem pout_total {Q Q' : PQueue4 α} {x : α × Priority} (h : Q.pout = (some x, Q')) :
    Q'.contents.total < Q.contents.total := by
  unfold pout at h
  split at h
  · exact nomatch h
  · rename_i Pc hPc
    have := outCurrentP_total (P := Pc) (Q := Q) (by rw [h]; exact Option.some_ne_none x)
    rwa [h] at this

theorem out1_total {Q Q' : PQueue4 α} {x : α} (h : Q.out1 = (some x, Q')) :
    Q'.contents.total < Q.contents.total := by
  rw [out1_eq, Prod.mk.injEq, Option.map_eq_some_iff] at h
  obtain ⟨⟨y, hy, -⟩, rfl⟩ := h
  exact pout_total (Prod.ext hy rfl)

/-- `to_list/2` -/
def toListLoop (L : List α) (Q : PQueue4 α) : List α :=
  match _h : Q.out1 with
  | (none, _) => L.reverse
  | (some v, Q') => toListLoop (v :: L) Q'
termination_by Q.contents.total
decreasing_by exact out1_total _h

/-- `to_list/1` -/
def toList (Q : PQueue4 α) : List α := toListLoop [] Q

/-- `to_plist/4`: the pairs found, the values of the current pair and its
priority (`none` is `undefined`), all newest first. -/
def toPlistLoop (L : List (Option Priority × List α)) (Lp : List α) (Pc : Option Priority)
    (Q : PQueue4 α) : List (Option Priority × List α) :=
  match _h : Q.pout with
  | (none, _) => if Lp.isEmpty then L.reverse else ((Pc, Lp.reverse) :: L).reverse
  | (some (v, P), Q') =>
    if Pc = some P then toPlistLoop L (v :: Lp) Pc Q'
    else if Lp.isEmpty then toPlistLoop L [v] (some P) Q'
    else toPlistLoop ((Pc, Lp.reverse) :: L) [v] (some P) Q'
termination_by Q.contents.total
decreasing_by all_goals exact pout_total _h

/-- `to_plist/1` -/
def toPlist (Q : PQueue4 α) : List (Option Priority × List α) := toPlistLoop [] [] none Q

/-- What a successful `pout/1` says of the contents before and after. -/
theorem pout_some {Q Q' : PQueue4 α} {v : α} (h : Q.Coherent) (hout : Q.pout = (some (v, P), Q')) :
    ∃ l, Q.contents P = v :: l ∧ Q.contents.EmptyBelow P ∧ Q'.contents = Q.contents.set P l ∧
      Q'.Coherent := by
  obtain ⟨h₁, h₂, h₃⟩ := pout_spec h
  simp only [hout] at h₁ h₂ h₃
  rcases Q.contents.empty_or_least with h0 | ⟨p, x, l, hp, hlt⟩
  · rw [deq_of_empty h0] at h₁
    exact nomatch h₁
  · rw [deq_of_least hp hlt] at h₁ h₂
    cases h₁
    exact ⟨l, hp, hlt, h₂, h₃⟩

theorem pout_none {Q Q' : PQueue4 α} (h : Q.Coherent) (hout : Q.pout = (none, Q')) (p : Priority) :
    Q.contents p = [] := by
  have h₁ := (pout_spec h).1
  rw [hout] at h₁
  rcases Q.contents.empty_or_least with h0 | ⟨p, x, l, hp, hlt⟩
  · exact h0 p
  · rw [deq_of_least hp hlt] at h₁
    exact nomatch h₁

theorem toListLoop_spec (L : List α) (h : Q.Coherent) :
    toListLoop L Q = L.reverse ++ Q.contents.toList := by
  fun_induction toListLoop L Q with
  | case1 L Q Q' hout =>
    rw [out1_eq, Prod.mk.injEq, Option.map_eq_none_iff] at hout
    rw [toList_of_empty (pout_none h (Prod.ext hout.1 rfl)), List.append_nil]
  | case2 L Q v Q' hout ih =>
    rw [out1_eq, Prod.mk.injEq, Option.map_eq_some_iff] at hout
    obtain ⟨⟨⟨_, P⟩, hP, rfl⟩, hQ'⟩ := hout
    obtain ⟨l, hl, hb, hc, h'⟩ := pout_some h (Prod.ext hP hQ')
    rw [ih h', toList_deq hl hb, hc, List.reverse_cons, List.append_assoc]
    rfl

/-- `to_list/1` lists the contents in order. -/
theorem toList_spec (h : Q.Coherent) : Q.toList = Q.contents.toList := by
  rw [toList, toListLoop_spec [] h, List.reverse_nil, List.nil_append]

/-- The pairs as `to_plist/1` returns them. -/
def asPlist (l : List (Priority × List α)) : List (Option Priority × List α) :=
  l.map fun x => (some x.1, x.2)

/-- With values `Lp` of priority `P` in hand, the rest of the list of `P` joins them. -/
theorem toPlistLoop_some (L : List (Option Priority × List α)) {Lp : List α}
    (h : Q.Coherent) (hLp : Lp ≠ []) (hb : Q.contents.EmptyBelow P) :
    toPlistLoop L Lp (some P) Q =
      L.reverse ++ (some P, Lp.reverse ++ Q.contents P) :: asPlist (Q.contents.set P []).toPlist := by
  generalize hPc : some P = Pc
  fun_induction toPlistLoop L Lp Pc Q generalizing P with
  | case1 L Lp Pc Q Q' hout hLp' => exact absurd (List.isEmpty_iff.mp hLp') hLp
  | case2 L Lp Pc Q Q' hout _ =>
    have hnil := pout_none h hout
    have hset : (Q.contents.set P []) = Q.contents := by rw [← hnil P, set_eq_self]
    rw [hset, toPlist_of_empty hnil, hnil P, List.append_nil, List.reverse_cons]
    rfl
  | case3 L Lp Q v P' Q' hout ih =>
    obtain rfl : P = P' := Option.some.inj hPc
    obtain ⟨l, hl, -, hc, h'⟩ := pout_some h hout
    rw [ih h' (List.cons_ne_nil _ _) (hc ▸ hb.set (by rw [hl]; exact nofun)) rfl, hc,
      hl, set_set, set_self, List.reverse_cons, List.append_assoc]
    rfl
  | case4 L Lp Pc Q v P' Q' hout hne hLp' ih => exact absurd (List.isEmpty_iff.mp hLp') hLp
  | case5 L Lp Pc Q v P' Q' hout hne _ ih =>
    obtain ⟨l, hl, hb', hc, h'⟩ := pout_some h hout
    have hlt : P < P' := by
      refine lt_of_le_of_ne (not_lt.mp fun hgt => ?_) fun heq => hne (hPc ▸ heq ▸ rfl)
      rw [hb P' hgt] at hl
      exact nomatch hl
    have hset : Q.contents.set P [] = Q.contents := by rw [← hb' P hlt, set_eq_self]
    rw [List.unattach_reverse, List.unattach_attach] at ih
    rw [ih h' (List.cons_ne_nil _ _) (hc ▸ hb'.set (by rw [hl]; exact nofun)) rfl, hc, hset,
      hb' P hlt, toPlist_least (by rw [hl]; exact nofun) hb', hl, set_set, set_self, ← hPc]
    simp [asPlist]

/-- `to_plist/1` lists the nonempty lists in priority order. -/
theorem toPlist_spec (h : Q.Coherent) : Q.toPlist = asPlist Q.contents.toPlist := by
  rw [toPlist, toPlistLoop]
  split
  · rename_i Q' hout
    rw [toPlist_of_empty (pout_none h hout)]
    rfl
  · rename_i v P Q' hout
    obtain ⟨l, hl, hb, hc, h'⟩ := pout_some h hout
    rw [if_neg nofun, if_pos (List.isEmpty_nil), toPlistLoop_some _ h' (List.cons_ne_nil _ _)
      (hc ▸ hb.set (by rw [hl]; exact nofun)), hc, set_set, set_self,
      toPlist_least (by rw [hl]; exact nofun) hb, hl, List.reverse_nil, List.nil_append, asPlist, asPlist,
      List.map_cons, List.reverse_singleton, List.singleton_append]

end CloudI.PQueue4
