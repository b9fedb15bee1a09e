import CloudI.Monitor.Key2Value

/-!
# The pairs of keys

`key2value` as a relation between the keys of the two kinds: `Paired` says that
the two lookups have the same pairs. An erasure and an update keep it, and
`paired_storeEq_iff` is when a key that is stored does; `erases_erase`,
`erases_erase1` and `erases_erase2` say which pairs an operation takes away.
-/

namespace CloudI

namespace Key2Value

set_option linter.unusedSectionVars false

variable {K1 K2 V : Type} [LinearOrder K1] [LinearOrder K2]

/-- `erase1/2` -/
def erase1 (k1 : K1) (s : Key2Value K1 K2 V) : Key2Value K1 K2 V :=
  match s.lookup1 k1 with
  | some (L, _) => L.foldl (fun D k2 => D.erase k1 k2) s
  | none => s

/-- `erase2/2` -/
def erase2 (k2 : K2) (s : Key2Value K1 K2 V) : Key2Value K1 K2 V :=
  match s.lookup2 k2 with
  | some (L, _) => L.foldl (fun D k1 => D.erase k1 k2) s
  | none => s

/-- `update2/3` -/
def update2 (k2 : K2) (F : V → V) (s : Key2Value K1 K2 V) : Except Exn (Key2Value K1 K2 V) :=
  match s.lookup2 k2 with
  | none => .error .badmatch
  | some (K1L, _) => do
    let NewLookup1 ← K1L.foldlM (fun d k1 => d.update k1 fun (L, V) => (L, F V)) s.lookup1
    let NewLookup2 ← s.lookup2.update k2 fun (L, V) => (L, F V)
    return ⟨NewLookup1, NewLookup2⟩

/-- The two kinds of keys exchanged. -/
def swap (s : Key2Value K1 K2 V) : Key2Value K2 K1 V := ⟨s.lookup2, s.lookup1⟩

/-- The list of a key of the first kind. -/
def seconds (s : Key2Value K1 K2 V) (k1 : K1) : List K2 := ((s.lookup1 k1).map Prod.fst).getD []

/-- The list of a key of the second kind. -/
def firsts (s : Key2Value K1 K2 V) (k2 : K2) : List K1 := s.swap.seconds k2

/-- The lookups have the same pairs, in lists that are not empty, sorted and without duplicates. -/
structure Paired (s : Key2Value K1 K2 V) : Prop where
  pair : ∀ k1 k2, k2 ∈ s.seconds k1 ↔ k1 ∈ s.firsts k2
  lists1 : ∀ k1 L v, s.lookup1 k1 = some (L, v) → L ≠ [] ∧ Sorted L
  lists2 : ∀ k2 L v, s.lookup2 k2 = some (L, v) → L ≠ [] ∧ Sorted L

/-- The pairs `out` are taken away, and no others; the keys that are left have their values. -/
structure Erases (out : K1 → K2 → Prop) (s s' : Key2Value K1 K2 V) : Prop where
  pair : ∀ k1 k2, k2 ∈ s'.seconds k1 ↔ k2 ∈ s.seconds k1 ∧ ¬ out k1 k2
  value1 : ∀ k1 L v, s'.lookup1 k1 = some (L, v) → ∃ L', s.lookup1 k1 = some (L', v)
  value2 : ∀ k2 L v, s'.lookup2 k2 = some (L, v) → ∃ L', s.lookup2 k2 = some (L', v)

variable {s s' s'' : Key2Value K1 K2 V} {k1 : K1} {k2 : K2}

theorem Paired.swap (h : s.Paired) : s.swap.Paired := ⟨fun k2 k1 => (h.pair k1 k2).symm, h.lists2, h.lists1⟩

theorem seconds_of_some {L : List K2} {v : V} (h : s.lookup1 k1 = some (L, v)) : s.seconds k1 = L := by
  rw [seconds, h]
  rfl

theorem seconds_of_none (h : s.lookup1 k1 = none) : s.seconds k1 = [] := by
  rw [seconds, h]
  rfl

theorem paired_new : (new : Key2Value K1 K2 V).Paired where
  pair _ _ := iff_of_false List.not_mem_nil List.not_mem_nil
  lists1 _ _ _ h := by cases h
  lists2 _ _ _ h := by cases h

/-- The pairs of the first lookup are sorted lists. -/
theorem Paired.sorted (h : s.Paired) (k1 : K1) : Sorted (s.seconds k1) := by
  cases hk : s.lookup1 k1 with
  | none =>
    rw [seconds_of_none hk]
    exact sorted_nil
  | some x =>
    rw [seconds_of_some hk]
    exact (h.lists1 k1 x.1 x.2 hk).2

/-! ## Store -/

section Store

variable (E1 : TermEq K1) (E2 : TermEq K2)

/-- `store/4` of keys that may be `==` without being `=:=`. -/
def storeEq (k1 : K1) (k2 : K2) (v : V) (s : Key2Value K1 K2 V) : Key2Value K1 K2 V where
  lookup1 := s.lookup1.update4 k1 (fun x => (umergeEq E2 x.1 [k2], v)) ([k2], v)
  lookup2 := s.lookup2.update4 k2 (fun x => (umergeEq E1 x.1 [k1], v)) ([k1], v)

/-- No list has two keys that are `==`. -/
structure Apart (s : Key2Value K1 K2 V) : Prop where
  seconds : ∀ k1, E2.Apart (s.seconds k1)
  firsts : ∀ k2, E1.Apart (s.firsts k2)

variable {E1 E2}

theorem Apart.swap (h : s.Apart E1 E2) : s.swap.Apart E2 E1 := ⟨h.firsts, h.seconds⟩

theorem apart_new : (new : Key2Value K1 K2 V).Apart E1 E2 := ⟨fun _ => .nil, fun _ => .nil⟩

theorem lookup1_storeEq (v : V) (j : K1) : (s.storeEq E1 E2 k1 k2 v).lookup1 j =
    if j = k1 then some (umergeEq E2 (s.seconds k1) [k2], v) else s.lookup1 j := by
  show Function.update s.lookup1 k1 _ j = _
  by_cases hj : j = k1
  · subst hj
    rw [Function.update_self, if_pos rfl]
    cases hk : s.lookup1 j with
    | none =>
      rw [seconds_of_none hk, nil_umergeEq]
      rfl
    | some x =>
      rw [seconds_of_some hk]
      rfl
  · rw [Function.update_of_ne hj, if_neg hj]

theorem storeEq_swap (v : V) : (s.storeEq E1 E2 k1 k2 v).swap = s.swap.storeEq E2 E1 k2 k1 v := rfl

theorem seconds_storeEq (v : V) (j : K1) : (s.storeEq E1 E2 k1 k2 v).seconds j =
    if j = k1 then umergeEq E2 (s.seconds k1) [k2] else s.seconds j := by
  rw [seconds, lookup1_storeEq]
  split
  · rfl
  · rfl

theorem mem_seconds_storeEq (h : s.Paired) {v : V} {j : K1} {k : K2} :
    k ∈ (s.storeEq E1 E2 k1 k2 v).seconds j ↔
      k ∈ s.seconds j ∨ (j = k1 ∧ k = k2) ∧ ¬ E2.Clashes (s.seconds k1) k2 := by
  rw [seconds_storeEq]
  by_cases hj : j = k1
  · rw [if_pos hj, mem_umergeEq (h.sorted k1), hj]
    simp
  · rw [if_neg hj]
    exact ⟨.inl, fun h => h.resolve_right fun h => hj h.1.1⟩

theorem lists1_storeEq (h : s.Paired) (v : V) (j : K1) (L : List K2) (w : V)
    (hj : (s.storeEq E1 E2 k1 k2 v).lookup1 j = some (L, w)) : L ≠ [] ∧ Sorted L := by
  rw [lookup1_storeEq] at hj
  split at hj
  · cases hj
    exact ⟨umergeEq_ne_nil (h.sorted k1) k2, umergeEq_sorted (h.sorted k1) k2⟩
  · exact h.lists1 j L w hj

theorem apart_storeEq (h : s.Paired) (ha : s.Apart E1 E2) (k1 : K1) (k2 : K2) (v : V) :
    (s.storeEq E1 E2 k1 k2 v).Apart E1 E2 where
  seconds j := by
    rw [seconds_storeEq]
    split
    · exact umergeEq_apart (h.sorted k1) (ha.seconds k1) k2
    · exact ha.seconds j
  firsts k := by
    rw [firsts, storeEq_swap, seconds_storeEq]
    split
    · exact umergeEq_apart (h.swap.sorted k2) (ha.firsts k2) k1
    · exact ha.firsts k

/-- The lookups keep the same pairs if both lists have a key that is only `==`, or neither. -/
theorem paired_storeEq_iff (h : s.Paired) (ha : s.Apart E1 E2) (k1 : K1) (k2 : K2) (v : V) :
    (s.storeEq E1 E2 k1 k2 v).Paired ↔ (E1.Clashes (s.firsts k2) k1 ↔ E2.Clashes (s.seconds k1) k2) := by
  have hfirsts : ∀ {j k}, j ∈ (s.storeEq E1 E2 k1 k2 v).firsts k ↔
      j ∈ s.firsts k ∨ (k = k2 ∧ j = k1) ∧ ¬ E1.Clashes (s.firsts k2) k1 := mem_seconds_storeEq h.swap
  constructor
  · intro h'
    have hpair := h'.pair k1 k2
    rw [mem_seconds_storeEq h, hfirsts] at hpair
    by_cases hin : k2 ∈ s.seconds k1
    · exact iff_of_false ((ha.firsts k2).not_clashes ((h.pair k1 k2).mp hin)) ((ha.seconds k1).not_clashes hin)
    · have hout : k1 ∉ s.firsts k2 := fun hc => hin ((h.pair k1 k2).mpr hc)
      rw [or_iff_right hin, or_iff_right hout, and_iff_right ⟨rfl, rfl⟩, and_iff_right ⟨rfl, rfl⟩] at hpair
      exact (not_iff_not.mp hpair).symm
  · intro hiff
    refine ⟨fun j k => ?_, lists1_storeEq h v, fun k L w hk => ?_⟩
    · rw [mem_seconds_storeEq h, hfirsts, h.pair, hiff, and_comm (a := j = k1)]
    · have hk : (s.swap.storeEq E2 E1 k2 k1 v).lookup1 k = some (L, w) := hk
      exact lists1_storeEq h.swap v k L w hk

end Store

/-! ## Erase -/

/-- What is left of an entry without a key of the other kind. -/
def shrink {K : Type} [DecidableEq K] (k : K) : Option (List K × V) → Option (List K × V)
  | some (L, v) => if L.erase k = [] then none else some (L.erase k, v)
  | none => none

theorem erase_swap : (s.erase k1 k2).swap = s.swap.erase k2 k1 := by
  rw [erase, erase]
  show _ = match s.lookup2 k2 with
    | some (L1, V1) =>
      match s.lookup1 k1 with
      | some (L2, V2) =>
        Key2Value.mk (if L1 = [k1] then s.lookup2.erase k2 else s.lookup2.store k2 (L1.erase k1, V1))
          (if L2 = [k2] then s.lookup1.erase k1 else s.lookup1.store k1 (L2.erase k2, V2))
      | none => s.swap
    | none => s.swap
  cases s.lookup1 k1 <;> cases s.lookup2 k2 <;> rfl

theorem erase_eq_nil_iff {K : Type} [DecidableEq K] {L : List K} (h : L ≠ []) (k : K) : L.erase k = [] ↔ L = [k] := by
  rw [List.erase_eq_nil_iff]
  exact or_iff_right h

theorem lookup1_erase (h : s.Paired) (j : K1) : (s.erase k1 k2).lookup1 j =
    if j = k1 then shrink k2 (s.lookup1 k1) else s.lookup1 j := by
  rw [erase]
  cases hk : s.lookup1 k1 with
  | none =>
    by_cases hj : j = k1
    · rw [if_pos hj, hj, hk]
      rfl
    · rw [if_neg hj]
  | some x =>
    obtain ⟨L, v⟩ := x
    obtain ⟨hne, -⟩ := h.lists1 k1 L v hk
    cases hk2 : s.lookup2 k2 with
    | none =>
      -- the pair is not stored
      have hL : k2 ∉ L := by
        have hno : k1 ∉ s.firsts k2 := by
          rw [firsts, seconds_of_none (s := s.swap) hk2]
          exact List.not_mem_nil
        rwa [← h.pair, seconds_of_some hk] at hno
      by_cases hj : j = k1
      · rw [if_pos hj, hj, hk, shrink, List.erase_of_not_mem hL, if_neg hne]
      · rw [if_neg hj]
    | some y =>
      show (if L = [k2] then s.lookup1.erase k1 else s.lookup1.store k1 (L.erase k2, v)) j = _
      by_cases hj : j = k1
      · rw [if_pos hj, hj, shrink]
        by_cases hL : L = [k2]
        · rw [if_pos hL, if_pos ((erase_eq_nil_iff hne k2).mpr hL), Dict.erase_self]
        · rw [if_neg hL, if_neg fun he => hL ((erase_eq_nil_iff hne k2).mp he), Dict.store_self]
      · rw [if_neg hj]
        split
        · exact Dict.erase_of_ne hj _
        · exact Dict.store_of_ne hj _ _

theorem seconds_erase (h : s.Paired) (j : K1) :
    (s.erase k1 k2).seconds j = if j = k1 then (s.seconds k1).erase k2 else s.seconds j := by
  rw [seconds, lookup1_erase h]
  by_cases hj : j = k1
  · rw [if_pos hj, if_pos hj]
    cases hk : s.lookup1 k1 with
    | none =>
      rw [seconds_of_none hk]
      rfl
    | some x =>
      rw [seconds_of_some hk, shrink]
      by_cases hL : x.1.erase k2 = []
      · rw [if_pos hL, hL]
        rfl
      · rw [if_neg hL]
        rfl
  · rw [if_neg hj, if_neg hj]
    rfl

theorem lookup1_erase_some (h : s.Paired) {j : K1} {L : List K2} {v : V}
    (hj : (s.erase k1 k2).lookup1 j = some (L, v)) :
    ∃ L', s.lookup1 j = some (L', v) ∧ L ≠ [] ∧ L.Sublist L' := by
  rw [lookup1_erase h] at hj
  split at hj
  · rename_i he
    cases hk : s.lookup1 k1 with
    | none =>
      rw [hk] at hj
      cases hj
    | some x =>
      rw [hk, shrink] at hj
      split at hj
      · cases hj
      · rename_i hL
        cases hj
        exact ⟨x.1, by rw [he, hk], hL, List.erase_sublist⟩
  · exact ⟨L, hj, (h.lists1 j L v hj).1, List.Sublist.refl L⟩

theorem lists1_erase (h : s.Paired) (j : K1) (L : List K2) (v : V)
    (hj : (s.erase k1 k2).lookup1 j = some (L, v)) : L ≠ [] ∧ Sorted L := by
  obtain ⟨L', hj', hne, hsub⟩ := lookup1_erase_some h hj
  exact ⟨hne, (h.lists1 j L' v hj').2.sublist hsub⟩

theorem mem_seconds_erase (h : s.Paired) {j : K1} {k : K2} :
    k ∈ (s.erase k1 k2).seconds j ↔ k ∈ s.seconds j ∧ ¬ (j = k1 ∧ k = k2) := by
  rw [seconds_erase h]
  by_cases hj : j = k1
  · rw [if_pos hj, mem_delete (h.sorted k1), hj]
    simp [and_comm]
  · rw [if_neg hj]
    simp [hj]

theorem paired_erase (h : s.Paired) (k1 : K1) (k2 : K2) : (s.erase k1 k2).Paired where
  pair j k := by
    rw [firsts, erase_swap, mem_seconds_erase h, mem_seconds_erase h.swap, h.pair, and_comm (a := j = k1)]
    rfl
  lists1 := lists1_erase h
  lists2 k L v hk := by
    have hk : (s.erase k1 k2).swap.lookup1 k = some (L, v) := hk
    rw [erase_swap] at hk
    exact lists1_erase h.swap k L v hk

/-- `erase/3` takes one pair away. -/
theorem erases_erase (h : s.Paired) (k1 : K1) (k2 : K2) :
    Erases (fun j k => j = k1 ∧ k = k2) s (s.erase k1 k2) where
  pair j k := mem_seconds_erase h
  value1 j L v hj := by
    obtain ⟨L', hj', -⟩ := lookup1_erase_some h hj
    exact ⟨L', hj'⟩
  value2 k L v hk := by
    have hk : (s.erase k1 k2).swap.lookup1 k = some (L, v) := hk
    rw [erase_swap] at hk
    obtain ⟨L', hk', -⟩ := lookup1_erase_some h.swap hk
    exact ⟨L', hk'⟩

theorem erases_refl (s : Key2Value K1 K2 V) : Erases (fun _ _ => False) s s where
  pair _ _ := ⟨fun h => ⟨h, id⟩, And.left⟩
  value1 _ L _ h := ⟨L, h⟩
  value2 _ L _ h := ⟨L, h⟩

theorem Erases.trans {out out' : K1 → K2 → Prop} (h : Erases out s s') (h' : Erases out' s' s'') :
    Erases (fun j k => out j k ∨ out' j k) s s'' where
  pair j k := by rw [h'.pair, h.pair, not_or, and_assoc]
  value1 j L v hj := by
    obtain ⟨L', hj'⟩ := h'.value1 j L v hj
    exact h.value1 j L' v hj'
  value2 k L v hk := by
    obtain ⟨L', hk'⟩ := h'.value2 k L v hk
    exact h.value2 k L' v hk'

/-- The pairs taken away that were not there do not count. -/
theorem Erases.congr {out out' : K1 → K2 → Prop} (h : Erases out s s')
    (hiff : ∀ j k, k ∈ s.seconds j → (out j k ↔ out' j k)) : Erases out' s s' where
  pair j k := by
    rw [h.pair]
    exact and_congr_right fun hk => not_congr (hiff j k hk)
  value1 := h.value1
  value2 := h.value2

theorem Erases.swap {out : K1 → K2 → Prop} (h : Erases out s s') (hs : s.Paired) (hs' : s'.Paired) :
    Erases (fun k j => out j k) s.swap s'.swap where
  pair k j := by
    show j ∈ s'.firsts k ↔ j ∈ s.firsts k ∧ _
    rw [← hs.pair, ← hs'.pair]
    exact h.pair j k
  value1 := h.value2
  value2 := h.value1

/-- What is left of lists without two keys that are `==` has none. -/
theorem apart_erase {E1 : TermEq K1} {E2 : TermEq K2} (h : s.Paired) (ha : s.Apart E1 E2) (k1 : K1) (k2 : K2) :
    (s.erase k1 k2).Apart E1 E2 where
  seconds j := by
    rw [seconds_erase h]
    split
    · exact (ha.seconds k1).sublist List.erase_sublist
    · exact ha.seconds j
  firsts k := by
    rw [firsts, erase_swap, seconds_erase h.swap]
    split
    · exact (ha.firsts k2).sublist List.erase_sublist
    · exact ha.firsts k

theorem apart_foldl_erase {E1 : TermEq K1} {E2 : TermEq K2} (h : s.Paired) (ha : s.Apart E1 E2) (k1 : K1)
    (L : List K2) : (L.foldl (fun D k2 => D.erase k1 k2) s).Apart E1 E2 := by
  induction L generalizing s with
  | nil => exact ha
  | cons k2 L ih => exact ih (paired_erase h k1 k2) (apart_erase h ha k1 k2)

/-- Erasures of the pairs of one key, over any list. -/
theorem foldl_erase (h : s.Paired) (k1 : K1) (L : List K2) :
    (L.foldl (fun D k2 => D.erase k1 k2) s).Paired ∧
      Erases (fun j k => j = k1 ∧ k ∈ L) s (L.foldl (fun D k2 => D.erase k1 k2) s) := by
  induction L generalizing s with
  | nil => exact ⟨h, (erases_refl s).congr fun j k _ => by simp⟩
  | cons k2 L ih =>
    obtain ⟨hpaired, herases⟩ := ih (paired_erase h k1 k2)
    refine ⟨hpaired, ((erases_erase h k1 k2).trans herases).congr fun j k _ => ?_⟩
    rw [List.mem_cons]
    exact and_or_left.symm

theorem erase1_eq (s : Key2Value K1 K2 V) (k1 : K1) :
    s.erase1 k1 = (s.seconds k1).foldl (fun D k2 => D.erase k1 k2) s := by
  rw [erase1]
  cases hk : s.lookup1 k1 with
  | none =>
    rw [seconds_of_none hk]
    rfl
  | some x => rw [seconds_of_some hk]

theorem erase2_eq (s : Key2Value K1 K2 V) (k2 : K2) : s.erase2 k2 = (s.swap.erase1 k2).swap := by
  have hfold : ∀ (L : List K1) (s : Key2Value K1 K2 V),
      (L.foldl (fun (D : Key2Value K1 K2 V) k1 => D.erase k1 k2) s).swap =
        L.foldl (fun (D : Key2Value K2 K1 V) k1 => D.erase k2 k1) s.swap := by
    intro L
    induction L with
    | nil => exact fun s => rfl
    | cons k1 L ih =>
      intro s
      rw [List.foldl_cons, List.foldl_cons, ih, erase_swap]
  rw [erase2, erase1]
  show _ = (match s.lookup2 k2 with
    | some (L, _) => L.foldl (fun (D : Key2Value K2 K1 V) k1 => D.erase k2 k1) s.swap
    | none => s.swap).swap
  cases s.lookup2 k2 with
  | none => rfl
  | some x => exact congrArg Key2Value.swap (hfold x.1 s)

theorem paired_erase1 (h : s.Paired) (k1 : K1) : (s.erase1 k1).Paired := by
  rw [erase1_eq]
  exact (foldl_erase h k1 _).1

theorem paired_erase2 (h : s.Paired) (k2 : K2) : (s.erase2 k2).Paired := by
  rw [erase2_eq]
  exact (paired_erase1 h.swap k2).swap

theorem apart_erase1 {E1 : TermEq K1} {E2 : TermEq K2} (h : s.Paired) (ha : s.Apart E1 E2) (k1 : K1) :
    (s.erase1 k1).Apart E1 E2 := by
  rw [erase1_eq]
  exact apart_foldl_erase h ha k1 _

theorem apart_erase2 {E1 : TermEq K1} {E2 : TermEq K2} (h : s.Paired) (ha : s.Apart E1 E2) (k2 : K2) :
    (s.erase2 k2).Apart E1 E2 := by
  rw [erase2_eq]
  exact (apart_erase1 h.swap ha.swap k2).swap

/-- `erase1/2` takes the pairs of a key away. -/
theorem erases_erase1 (h : s.Paired) (k1 : K1) : Erases (fun j _ => j = k1) s (s.erase1 k1) := by
  rw [erase1_eq]
  refine (foldl_erase h k1 _).2.congr fun j k hk => ?_
  exact ⟨And.left, fun hj => ⟨hj, hj ▸ hk⟩⟩

/-- `erase2/2` takes the pairs of a key away. -/
theorem erases_erase2 (h : s.Paired) (k2 : K2) : Erases (fun _ k => k = k2) s (s.erase2 k2) := by
  rw [erase2_eq]
  exact (erases_erase1 h.swap k2).swap h.swap (paired_erase1 h.swap k2)

/-! ## Updates of a value -/

/-- The lookups have the same lists. -/
structure SameLists (s s' : Key2Value K1 K2 V) : Prop where
  lookup1 : ∀ j, (s'.lookup1 j).map Prod.fst = (s.lookup1 j).map Prod.fst
  lookup2 : ∀ k, (s'.lookup2 k).map Prod.fst = (s.lookup2 k).map Prod.fst

theorem SameLists.paired (h : SameLists s s') (hs : s.Paired) : s'.Paired where
  pair j k := by
    show k ∈ ((s'.lookup1 j).map Prod.fst).getD [] ↔ j ∈ ((s'.lookup2 k).map Prod.fst).getD []
    rw [h.lookup1, h.lookup2]
    exact hs.pair j k
  lists1 j L v hj := by
    have hL : (s.lookup1 j).map Prod.fst = some L := by rw [← h.lookup1, hj]; rfl
    obtain ⟨x, hx, rfl⟩ := Option.map_eq_some_iff.mp hL
    exact hs.lists1 j x.1 x.2 hx
  lists2 k L v hk := by
    have hL : (s.lookup2 k).map Prod.fst = some L := by rw [← h.lookup2, hk]; rfl
    obtain ⟨x, hx, rfl⟩ := Option.map_eq_some_iff.mp hL
    exact hs.lists2 k x.1 x.2 hx

theorem SameLists.apart {E1 : TermEq K1} {E2 : TermEq K2} (h : SameLists s s') (ha : s.Apart E1 E2) :
    s'.Apart E1 E2 where
  seconds j := by
    rw [seconds, h.lookup1]
    exact ha.seconds j
  firsts k := by
    show E1.Apart (((s'.lookup2 k).map Prod.fst).getD [])
    rw [h.lookup2]
    exact ha.firsts k

/-- The second keys of a first key are found. -/
theorem Paired.found (h : s.Paired) {L : List K2} {v : V} (hk : s.lookup1 k1 = some (L, v)) :
    ∀ k2 ∈ L, s.lookup2 k2 ≠ none := by
  intro k2 hk2 hnone
  rw [← seconds_of_some hk, h.pair, firsts, seconds_of_none (s := s.swap) hnone] at hk2
  cases hk2

end Key2Value

end CloudI
