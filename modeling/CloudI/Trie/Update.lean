import CloudI.Trie.Dict
import CloudI.Trie.StoredPatterns

/-!
# Updating a key that may not be stored

`update/3` has a default for no key: it should raise, as `fetch/2` does
(`fetch_absent`), before the function is called. At an inner node the guard on
the value is not read, so that the function is called with `error` there.
`update3_iff` says for which keys of a trie built by `store/3` it is right.
-/

namespace CloudI.Trie

open Node

variable {V : Type}

/-! ## Keys that are not held -/

theorem fetchNode_absent {H : Nat} {T : List Nat} {node : Node V} {v : Option V}
    (h : node.content v (H :: T) = none) : ∃ e, fetchNode H T node = .error e := by
  fun_induction fetchNode H T node generalizing v with
  | case1 => exact ⟨_, rfl⟩
  | case2 H I0 N child value hr I0' N' child' value' Value hv hc =>
    rw [content_tuple_cons _ _ hr, hc, hv, content_tuple_nil] at h
    cases h
  | case3 H I0 N child value hr Value hv hc =>
    rw [content_tuple_cons _ _ hr, hc, hv, content_suffix, if_pos rfl] at h
    cases h
  | case4 => exact ⟨_, rfl⟩
  | case5 => exact ⟨_, rfl⟩
  | case6 H H1 T1 I0 N child value hr I0' N' child' value' hc ih =>
    rw [content_tuple_cons _ _ hr, hc] at h
    exact ih h
  | case7 H H1 T1 I0 N child value hr s hc Value hs =>
    split at hs
    · rename_i heq
      rw [content_tuple_cons _ _ hr, hc, heq, hs, content_suffix, if_pos rfl] at h
      cases h
    · cases hs
  | case8 => exact ⟨_, rfl⟩
  | case9 => exact ⟨_, rfl⟩

/-- `fetch/2` raises without the key. -/
theorem fetch_absent {node : Node V} {K : List Nat} (h : lookup node K = none) : ∃ e, fetch K node = .error e := by
  cases K with
  | nil => cases node <;> exact ⟨_, rfl⟩
  | cons H T =>
    cases node with
    | suffix => exact ⟨_, rfl⟩
    | tuple => exact fetchNode_absent h

/-- The outcome does not depend on the function, which is not called. -/
theorem updateNode3_absent {H : Nat} {T : List Nat} {node : Node V} {v : Option V}
    (h : node.content v (H :: T) = none) (hdeep : isTupleAt node (H :: T) = false) :
    ∃ e, ∀ F, updateNode3 F H T node = .error e := by
  induction T generalizing H node v with
  | nil =>
    cases node with
    | suffix => exact ⟨_, fun F => rfl⟩
    | tuple I0 N child value =>
      by_cases hr : InRange H I0 N
      · rw [content_tuple_cons _ _ hr] at h
        rw [isTupleAt_tuple_cons hr] at hdeep
        cases hc : child (slot hr) with
        | tuple =>
          rw [hc] at hdeep
          cases hdeep
        | suffix s =>
          cases s with
          | nil =>
            rw [hc, content_suffix, if_pos rfl] at h
            exact ⟨.ifClause, fun F => by simp only [updateNode3, dif_pos hr, hc, h]⟩
          | cons b s => exact ⟨.ifClause, fun F => by simp only [updateNode3, dif_pos hr, hc]⟩
      · exact ⟨.functionClause, fun F => by rw [updateNode3, dif_neg hr]⟩
  | cons H1 T1 ih =>
    cases node with
    | suffix => exact ⟨_, fun F => rfl⟩
    | tuple I0 N child value =>
      by_cases hr : InRange H I0 N
      · rw [content_tuple_cons _ _ hr] at h
        rw [isTupleAt_tuple_cons hr] at hdeep
        cases hc : child (slot hr) with
        | tuple I0' N' child' value' =>
          rw [hc] at h hdeep
          obtain ⟨e, he⟩ := ih h hdeep
          exact ⟨e, fun F => by simp only [updateNode3, dif_pos hr, hc, he]; rfl⟩
        | suffix s =>
          by_cases hs : s = H1 :: T1
          · rw [hc, hs, content_suffix, if_pos rfl] at h
            exact ⟨.badmatch, fun F => by simp only [updateNode3, dif_pos hr, hc, hs, if_true, h]⟩
          · exact ⟨.caseClause, fun F => by simp only [updateNode3, dif_pos hr, hc, if_neg hs]⟩
      · exact ⟨.functionClause, fun F => by rw [updateNode3, dif_neg hr]⟩

/-- At an inner node without a value the function is called with `error`. -/
theorem updateNode3_inner {H : Nat} {T : List Nat} {node : Node V} {v : Option V}
    (h : node.content v (H :: T) = none) (hdeep : isTupleAt node (H :: T) = true) {F : Option V → Except Exn V} {y : V}
    (hF : F none = .ok y) : ∃ node', updateNode3 F H T node = .ok node' := by
  induction T generalizing H node v with
  | nil =>
    cases node with
    | suffix => cases hdeep
    | tuple I0 N child value =>
      by_cases hr : InRange H I0 N
      · rw [content_tuple_cons _ _ hr] at h
        rw [isTupleAt_tuple_cons hr] at hdeep
        cases hc : child (slot hr) with
        | tuple =>
          rw [hc, content_tuple_nil] at h
          exact ⟨_, by simp only [updateNode3, dif_pos hr, hc, h, hF]; rfl⟩
        | suffix s =>
          rw [hc] at hdeep
          cases hdeep
      · rw [isTupleAt_tuple_out hr] at hdeep
        cases hdeep
  | cons H1 T1 ih =>
    cases node with
    | suffix => cases hdeep
    | tuple I0 N child value =>
      by_cases hr : InRange H I0 N
      · rw [content_tuple_cons _ _ hr] at h
        rw [isTupleAt_tuple_cons hr] at hdeep
        cases hc : child (slot hr) with
        | tuple I0' N' child' value' =>
          rw [hc] at h hdeep
          obtain ⟨c, hr'⟩ := ih h hdeep
          exact ⟨_, by simp only [updateNode3, dif_pos hr, hc, hr']; rfl⟩
        | suffix s =>
          rw [hc] at hdeep
          cases hdeep
      · rw [isTupleAt_tuple_out hr] at hdeep
        cases hdeep

/-- What the function raises for the value of a key that is held is raised. -/
theorem updateNode3_raises {H : Nat} {T : List Nat} {node : Node V} (ht : node.isTuple = true) {v : Option V} {x : V}
    (h : node.content v (H :: T) = some x) {F : Option V → Except Exn V} {e : Exn} (hF : F (some x) = .error e) :
    updateNode3 F H T node = .error e := by
  induction T generalizing H node v with
  | nil =>
    cases node with
    | suffix => cases ht
    | tuple I0 N child value =>
      by_cases hr : InRange H I0 N
      · rw [content_tuple_cons _ _ hr] at h
        cases hc : child (slot hr) with
        | tuple =>
          rw [hc, content_tuple_nil] at h
          simp only [updateNode3, dif_pos hr, hc, h, hF]
          rfl
        | suffix s =>
          cases s with
          | nil =>
            rw [hc, content_suffix, if_pos rfl] at h
            simp only [updateNode3, dif_pos hr, hc, h, hF]
            rfl
          | cons b s =>
            rw [hc, content_suffix, if_neg (List.cons_ne_nil _ _).symm] at h
            cases h
      · rw [content_tuple_out _ _ hr] at h
        cases h
  | cons H1 T1 ih =>
    cases node with
    | suffix => cases ht
    | tuple I0 N child value =>
      by_cases hr : InRange H I0 N
      · rw [content_tuple_cons _ _ hr] at h
        cases hc : child (slot hr) with
        | tuple I0' N' child' value' =>
          rw [hc] at h
          simp only [updateNode3, dif_pos hr, hc, ih rfl h]
          rfl
        | suffix s =>
          rw [hc, content_suffix] at h
          split at h
          · rename_i hs
            simp only [updateNode3, dif_pos hr, hc, hs, if_true, h, hF]
            rfl
          · cases h
      · rw [content_tuple_out _ _ hr] at h
        cases h

/-! ## Tries built by `store/3` -/

/-- The trie after storing the keys in turn. -/
def storeKeys (ops : List (Key × V)) : Except Exn (Node V) :=
  ops.foldlM (fun node op => store op.1.val op.2 node) (.suffix [])

/-- The value stored last for each key. -/
def storedKeys (ops : List (Key × V)) : List Nat → Option V :=
  ops.foldl (fun m op => Function.update m op.1.val (some op.2)) fun _ => none

/-- A trie that holds the keys of `m` and branches only between them. -/
structure HoldsKeys (node : Node V) (m : List Nat → Option V) : Prop where
  trie : IsTrie node
  clean : Clean node
  lookup_eq : lookup node = m
  branches : ∀ p ≠ [], isTupleAt node p = true → Branches m p

theorem store_holdsKeys {node : Node V} {m : List Nat → Option V} (h : HoldsKeys node m) (K : Key) (v : V) :
    ∃ node', store K.val v node = .ok node' ∧ HoldsKeys node' (Function.update m K.val (some v)) := by
  obtain ⟨node', hr, ht', hclean', hl⟩ := store_spec h.trie h.clean K.property v
  have hb := h.branches
  rw [← h.lookup_eq] at hb
  refine ⟨node', hr, .inr ht', hclean', by rw [hl, h.lookup_eq], fun p hp hdeep => ?_⟩
  rw [← h.lookup_eq]
  exact store_branches h.trie h.clean hb K.property hr hp hdeep

/-- Every sequence of stores succeeds. -/
theorem storeKeys_holdsKeys (ops : List (Key × V)) :
    ∃ node, storeKeys ops = .ok node ∧ HoldsKeys node (storedKeys ops) := by
  refine foldlM_foldl (fun (m : List Nat → Option V) (op : Key × V) => Function.update m op.1.val (some op.2)) HoldsKeys
    (fun op h => store_holdsKeys h op.1 op.2) ops ⟨.inl rfl, trivial, funext lookup_suffix_nil, fun p _ hp => ?_⟩
  rw [isTupleAt_suffix] at hp
  cases hp

/-! ## What `update/3` does -/

/-- `update/3` changes the value of a key that is held by the function alone,
with what the function raises. Without the key it raises, with no call of the
function: the outcome is the same for all functions. -/
structure UpdatesHeld (node : Node V) (K : List Nat) : Prop where
  held : ∀ v, lookup node K = some v → ∀ F : Option V → Except Exn V,
    (∀ y, F (some v) = .ok y → ∃ node', update3 F K node = .ok node' ∧
      lookup node' = Function.update (lookup node) K (some y)) ∧
    ∀ e, F (some v) = .error e → update3 F K node = .error e
  absent : lookup node K = none → ∃ e, ∀ F : Option V → Except Exn V, update3 F K node = .error e

theorem update3_raises {node : Node V} (h : IsTrie node) {K : List Nat} (hK : K ≠ []) {v : V}
    (hheld : lookup node K = some v) {F : Option V → Except Exn V} {e : Exn} (hF : F (some v) = .error e) :
    update3 F K node = .error e := by
  obtain ⟨H, T, rfl⟩ := List.exists_cons_of_ne_nil hK
  rcases h with rfl | h
  · rw [lookup_suffix_nil] at hheld
    cases hheld
  · cases node with
    | suffix => cases h
    | tuple => exact updateNode3_raises h hheld hF

/-- `update/3` of a key that is not held raises unless the key ends at an inner node. -/
theorem update3_absent {node : Node V} {K : List Nat} (h : lookup node K = none) (hdeep : isTupleAt node K = false) :
    ∃ e, ∀ F : Option V → Except Exn V, update3 F K node = .error e := by
  cases K with
  | nil => cases node <;> exact ⟨_, fun _ => rfl⟩
  | cons H T =>
    cases node with
    | suffix => exact ⟨_, fun _ => rfl⟩
    | tuple => exact updateNode3_absent h hdeep

/-- The function is called with `error` for a key that is not held and ends at an inner node. -/
theorem update3_inner {node : Node V} {K : List Nat} (hK : K ≠ []) (h : lookup node K = none)
    (hdeep : isTupleAt node K = true) {F : Option V → Except Exn V} {y : V} (hF : F none = .ok y) :
    ∃ node', update3 F K node = .ok node' := by
  obtain ⟨H, T, rfl⟩ := List.exists_cons_of_ne_nil hK
  cases node with
  | suffix => cases hdeep
  | tuple => exact updateNode3_inner h hdeep hF

/-- `update/3` treats a key as it should if and only if the key is stored or
is no prefix of two stored keys; `fetch/2` raises for every key that is not
stored. -/
theorem update3_iff (ops : List (Key × V)) (K : Key) :
    ∃ node, storeKeys ops = .ok node ∧ lookup node = storedKeys ops ∧
      (storedKeys ops K = none → ∃ e, fetch K node = .error e) ∧
      (UpdatesHeld node K ↔ storedKeys ops K ≠ none ∨ ¬ Branches (storedKeys ops) K) := by
  obtain ⟨node, hrun, h⟩ := storeKeys_holdsKeys ops
  have hl := h.lookup_eq
  refine ⟨node, hrun, hl, fun hK => fetch_absent (by rw [hl, hK]), fun hu => ?_, fun hK => ⟨fun v hv F => ?_, ?_⟩⟩
  · by_contra hn
    obtain ⟨hnone, hb⟩ := not_or.mp hn
    rw [not_not, ← hl] at hnone
    rw [not_not, ← hl] at hb
    obtain ⟨e, he⟩ := hu.absent hnone
    -- a function that returns the value of a stored key is called
    have hcalled := @update3_inner V node K K.property hnone (isTupleAt_of_branches hb)
    obtain ⟨k₁, -, -, -, -, h₁, -⟩ := hb
    obtain ⟨v, -⟩ := Option.ne_none_iff_exists'.mp h₁
    obtain ⟨node', hok⟩ := hcalled (F := fun _ => .ok v) rfl
    rw [he] at hok
    cases hok
  · refine ⟨fun y hF => ?_, fun e hF => update3_raises h.trie K.property hv hF⟩
    obtain ⟨node', hr, -, -, hl'⟩ := update3_spec h.trie h.clean K.property hv hF
    exact ⟨node', hr, hl'⟩
  · intro hnone
    refine update3_absent hnone ?_
    rw [hl] at hnone
    rcases hK with hK | hb
    · exact absurd hnone hK
    · exact Bool.eq_false_iff.mpr fun hdeep => hb (h.branches _ K.property hdeep)

/-- With `ab` and `ac` stored, `update/3` of `a` calls the function and returns a trie. -/
theorem update3_inner_called :
    ∃ node, storeKeys [(⟨[97, 98], by decide⟩, 1), (⟨[97, 99], by decide⟩, 2)] = .ok node ∧
      ¬ UpdatesHeld node [97] := by
  obtain ⟨node, hrun, h⟩ := storeKeys_holdsKeys [(⟨[97, 98], by decide⟩, 1), (⟨[97, 99], by decide⟩, 2)]
  refine ⟨node, hrun, fun hu => ?_⟩
  have hnone : lookup node [97] = none := by rw [h.lookup_eq]; decide
  obtain ⟨e, he⟩ := hu.absent hnone
  have hb : Branches (lookup node) [97] := by
    rw [h.lookup_eq]
    exact ⟨[97, 98], [97, 99], by decide, by decide, by decide, by decide, by decide⟩
  obtain ⟨node', hok⟩ := @update3_inner _ node [97] (by decide) hnone (isTupleAt_of_branches hb) (fun _ => .ok 0) 0 rfl
  rw [he] at hok
  cases hok

end CloudI.Trie
