import CloudI.Trie.Operations

/-!
# What the operations of a trie do to its contents

`lookup` is the finite map a trie stands for. `find/2` and `is_key/2` read it
(`find_eq`, `isKey_eq`); a write changes it at its key (`writeNode_spec`), for
a `Clean` trie, one without a compressed end that has lost its value.
`eraseNode_spec`, `filterSlot_spec` and `mapSlot_spec` are the same for the
other operations, and `mem_entries` and `entries_sorted` for `to_list/1`.
-/

namespace CloudI.Trie

open Node

variable {V : Type}

/-- The values of a trie by key. -/
def lookup (node : Node V) : List Nat → Option V := node.content none

/-- A trie is empty or a tuple. -/
def IsTrie (node : Node V) : Prop := node = .suffix [] ∨ node.isTuple = true

theorem content_cons_irrel {node : Node V} (h : node.isTuple = true) (v w : Option V) (H : Nat) (T : List Nat) :
    node.content v (H :: T) = node.content w (H :: T) := by
  cases node with
  | suffix => exact nomatch h
  | tuple => rfl

/-! ## Lookup -/

theorem findNode_eq {node : Node V} (h : node.isTuple = true) (v : Option V) (H : Nat) (T : List Nat) :
    findNode H T node = .ok (node.content v (H :: T)) := by
  fun_induction findNode H T node generalizing v with
  | case1 => exact nomatch h
  | case2 H I0 N child value hr I0' N' child' value' hc =>
    rw [content_tuple_cons _ _ hr, hc]
    rfl
  | case3 H I0 N child value hr hc =>
    rw [content_tuple_cons _ _ hr, hc]
    rfl
  | case4 H I0 N child value hr BH BT hc =>
    rw [content_tuple_cons _ _ hr, hc, content_suffix, if_neg (List.cons_ne_nil _ _).symm]
  | case5 H I0 N child value hr => rw [content_tuple_out _ _ hr]
  | case6 H H1 T1 I0 N child value hr I0' N' child' value' hc ih =>
    rw [content_tuple_cons _ _ hr, hc, ih rfl]
  | case7 H H1 T1 I0 N child value hr s hc =>
    rw [content_tuple_cons _ _ hr, hc, content_suffix, if_congr eq_comm rfl rfl]
  | case8 H H1 T1 I0 N child value hr => rw [content_tuple_out _ _ hr]

theorem isKeyNode_eq {node : Node V} (h : node.isTuple = true) (v : Option V) (H : Nat) (T : List Nat) :
    isKeyNode H T node = .ok (node.content v (H :: T)).isSome := by
  fun_induction isKeyNode H T node generalizing v with
  | case1 => exact nomatch h
  | case2 H I0 N child value hr I0' N' child' value' hc =>
    rw [content_tuple_cons _ _ hr, hc]
    rfl
  | case3 H I0 N child value hr hc =>
    rw [content_tuple_cons _ _ hr, hc]
    rfl
  | case4 H I0 N child value hr BH BT hc =>
    rw [content_tuple_cons _ _ hr, hc, content_suffix, if_neg (List.cons_ne_nil _ _).symm]
    rfl
  | case5 H I0 N child value hr => rw [content_tuple_out _ _ hr]; rfl
  | case6 H H1 T1 I0 N child value hr I0' N' child' value' hc ih =>
    rw [content_tuple_cons _ _ hr, hc, ih rfl]
  | case7 H H1 T1 I0 N child value hr s hc =>
    rw [content_tuple_cons _ _ hr, hc, content_suffix, apply_ite Option.isSome,
      if_congr eq_comm rfl rfl]
    rfl
  | case8 H H1 T1 I0 N child value hr => rw [content_tuple_out _ _ hr]; rfl

theorem lookup_suffix_nil (K : List Nat) : lookup (.suffix [] : Node V) K = none :=
  content_suffix_none [] K

/-- `find/2` reads the contents. -/
theorem find_eq {node : Node V} (h : IsTrie node) {K : List Nat} (hK : K ≠ []) :
    find K node = .ok (lookup node K) := by
  obtain ⟨H, T, rfl⟩ := List.exists_cons_of_ne_nil hK
  rcases h with rfl | h
  · rw [find, lookup_suffix_nil]
  · cases node with
    | suffix => exact nomatch h
    | tuple => exact findNode_eq h none H T

/-- `is_key/2` tells whether the contents have the key. -/
theorem isKey_eq {node : Node V} (h : IsTrie node) {K : List Nat} (hK : K ≠ []) :
    isKey K node = .ok (lookup node K).isSome := by
  obtain ⟨H, T, rfl⟩ := List.exists_cons_of_ne_nil hK
  rcases h with rfl | h
  · rw [isKey, lookup_suffix_nil]
    rfl
  · cases node with
    | suffix => exact nomatch h
    | tuple => exact isKeyNode_eq h none H T

/-! ## Clean tries -/

/-- No compressed end below the node has lost its value. -/
def Clean : Node V → Prop
  | .suffix _ => True
  | .tuple _ _ child value =>
    ∀ j, Clean (child j) ∧ ∀ BH BT, child j = .suffix (BH :: BT) → value j ≠ none

/-- A slot that may stand in a clean tuple. -/
def CleanSlot (c : Node V) (v : Option V) : Prop :=
  Clean c ∧ ∀ BH BT, c = .suffix (BH :: BT) → v ≠ none

theorem clean_tuple {I0 N : Nat} {child : Fin (N + 1) → Node V} {value : Fin (N + 1) → Option V} :
    Clean (.tuple I0 N child value) ↔ ∀ j, CleanSlot (child j) (value j) := Iff.rfl

theorem cleanSlot_suffix_nil (v : Option V) : CleanSlot (.suffix []) v :=
  ⟨trivial, fun _ _ h => nomatch h⟩

theorem cleanSlot_suffix_some (s : List Nat) (v : V) : CleanSlot (.suffix s) (some v) :=
  ⟨trivial, fun _ _ _ => Option.some_ne_none v⟩

theorem cleanSlot_of_isTuple {c : Node V} (hc : Clean c) (ht : c.isTuple = true) (v : Option V) :
    CleanSlot c v :=
  ⟨hc, fun _ _ h => by rw [h] at ht; exact nomatch ht⟩

theorem clean_single {H : Nat} {c : Node V} {v : Option V} (h : CleanSlot c v) : Clean (single H c v) :=
  fun _ => h

theorem clean_setSlot {I0 N : Nat} {child : Fin (N + 1) → Node V} {value : Fin (N + 1) → Option V}
    (h : ∀ j, CleanSlot (child j) (value j)) {c : Node V} {v : Option V} (hc : CleanSlot c v)
    (i : Fin (N + 1)) : Clean (setSlot I0 child value i c v) := by
  intro j
  by_cases hj : j = i
  · rw [hj, Function.update_self, Function.update_self]
    exact hc
  · rw [Function.update_of_ne hj, Function.update_of_ne hj]
    exact h j

theorem cleanSlot_tupleMove {N : Nat} {child : Fin (N + 1) → Node V} {value : Fin (N + 1) → Option V}
    (h : ∀ j, CleanSlot (child j) (value j)) (off M : Nat) (j : Fin (M + 1)) :
    CleanSlot (tupleMove off M child (.suffix []) j) (tupleMove off M value none j) := by
  unfold tupleMove
  split
  · exact h _
  · exact cleanSlot_suffix_nil none

/-! ## Writing one key -/

/-- The outcome of a write at `H :: T`: what `put` raises, or a clean tuple
with the value it returns at the key. -/
def Writes (put : Option V → Except Exn V) (H : Nat) (T : List Nat) (node : Node V)
    (r : Except Exn (Node V)) : Prop :=
  match put (node.content none (H :: T)) with
  | .error e => r = .error e
  | .ok y => ∃ node', r = .ok node' ∧ node'.isTuple = true ∧ Clean node' ∧
      ∀ v, node'.content v = Function.update (node.content v) (H :: T) (some y)

section

variable {put : Option V → Except Exn V} {H I0 N : Nat} {T : List Nat} {child : Fin (N + 1) → Node V}
  {value : Fin (N + 1) → Option V} {c : Node V} {w : Option V} {y : V}

/-- A write that replaces the slot of `H`. -/
theorem writes_setSlot (hclean : Clean (.tuple I0 N child value)) (h : InRange H I0 N)
    (hput : put ((child (slot h)).content (value (slot h)) T) = .ok y) (hc : CleanSlot c w)
    (hcont : c.content w = Function.update ((child (slot h)).content (value (slot h))) T (some y)) :
    Writes put H T (.tuple I0 N child value) (.ok (setSlot I0 child value (slot h) c w)) := by
  rw [Writes, content_tuple_cons _ _ h, hput]
  exact ⟨_, rfl, rfl, clean_setSlot hclean hc _, content_setSlot h hcont⟩

theorem writes_error (h : InRange H I0 N) {e : Exn}
    (hput : put ((child (slot h)).content (value (slot h)) T) = .error e) :
    Writes put H T (.tuple I0 N child value) (.error e) := by
  rw [Writes, content_tuple_cons _ _ h, hput]

/-- A write to a slot that a larger tuple adds for `H`. -/
theorem writes_grow {M off I : Nat} (hclean : Clean (.tuple I0 N child value)) (h : InRange H I M)
    (hI : I + off = I0) (hM : N + off ≤ M) (hout : ¬ InRange H I0 N) (hnew : put none = .ok y) :
    Writes put H T (.tuple I0 N child value)
      (.ok (setSlot I (tupleMove off M child (.suffix [])) (tupleMove off M value none) (slot h)
        (.suffix T) (some y))) := by
  have hsame := @content_tupleMove _ _ _ child value _ _ _ hI hM
  have hnone : (tupleMove off M child (.suffix []) (slot h)).content (tupleMove off M value none (slot h)) =
      fun _ => none := by
    funext k
    have := congrFun (hsame none) (H :: k)
    rwa [content_tuple_cons _ _ h, content_tuple_out _ _ hout] at this
  have hw : Writes put H T (.tuple I M (tupleMove off M child (.suffix [])) (tupleMove off M value none)) _ :=
    writes_setSlot (cleanSlot_tupleMove hclean off M) h (by rw [hnone, hnew]) (cleanSlot_suffix_some T y)
      (by rw [hnone]; funext k; rw [content_suffix, Function.update_apply])
  simpa only [Writes, hsame] using hw

/-- Opening the compressed end of a slot before the write changes nothing. -/
theorem writes_open (h : InRange H I0 N) {BH : Nat} {BT : List Nat}
    (hc : child (slot h) = .suffix (BH :: BT)) {r : Except Exn (Node V)} (hr : Writes put H T
      (setSlot I0 child value (slot h) (single BH (.suffix BT) (value (slot h))) none) r) :
    Writes put H T (.tuple I0 N child value) r := by
  have hsame := @content_setSlot_same _ _ _ child value _ h _ _
    ((content_open BH BT (value (slot h))).trans (by rw [hc]))
  simpa only [Writes, hsame] using hr

theorem clean_open (hclean : Clean (.tuple I0 N child value)) {i : Fin (N + 1)} {BH : Nat} {BT : List Nat}
    (hc : child i = .suffix (BH :: BT)) :
    Clean (setSlot I0 child value i (single BH (.suffix BT) (value i)) none) := by
  have hend : CleanSlot (.suffix BT) (value i) := ⟨trivial, fun _ _ _ => (hclean i).2 BH BT hc⟩
  exact clean_setSlot hclean (cleanSlot_of_isTuple (clean_single hend) rfl _) i

end

theorem writeNode_spec {new : V} {put overwrite : Option V → Except Exn V} (hnew : put none = .ok new)
    (hover : ∀ v, overwrite (some v) = put (some v)) {H : Nat} {T : List Nat} {node : Node V}
    (ht : node.isTuple = true) (hclean : Clean node) :
    Writes put H T node (writeNode new put overwrite H T node) := by
  fun_induction writeNode new put overwrite H T node with
  | case1 => exact nomatch ht
  | case2 H T I0 N child value hlo h =>
    exact writes_grow hclean h (by omega) (by omega) (by omega) hnew
  | case3 H T I0 N child value hlo hhi h =>
    exact writes_grow hclean h (by omega) (by omega) (by omega) hnew
  | case4 H I0 N child value hlo hhi h BH BT hc ih =>
    exact writes_open h hc (ih rfl (clean_open hclean hc))
  | case5 H I0 N child value hlo hhi h hne =>
    have hend : (child (slot h)).isTuple = true ∨ child (slot h) = .suffix [] := by
      cases hc : child (slot h) with
      | tuple => exact .inl rfl
      | suffix s =>
        cases s with
        | nil => exact .inr rfl
        | cons BH BT => exact (hne BH BT hc).elim
    have hnil : (child (slot h)).content (value (slot h)) [] = value (slot h) := by
      rw [content_set_value _ none _ hend, Function.update_self]
    cases hp : put (value (slot h)) with
    | error e => exact writes_error h (by rw [hnil, hp])
    | ok y =>
      refine writes_setSlot hclean h (by rw [hnil, hp]) ⟨(hclean _).1, fun BH BT hc => ?_⟩
        (content_set_value _ _ _ hend)
      exact (hne BH BT hc).elim
  | case6 H I0 N child value hlo hhi h H1 T1 I0' N' child' value' hc ih =>
    have hcons : (child (slot h)).content (value (slot h)) (H1 :: T1) =
        (tuple I0' N' child' value').content none (H1 :: T1) := by
      rw [hc, content_cons_irrel rfl (value (slot h)) none]
    have hr := ih rfl (hc ▸ (hclean (slot h)).1)
    cases hp : put ((tuple I0' N' child' value').content none (H1 :: T1)) with
    | error e =>
      rw [Writes, hp] at hr
      rw [hr]
      exact writes_error h (by rw [hcons, hp])
    | ok y =>
      rw [Writes, hp] at hr
      obtain ⟨c, hcr, hct, hcc, hcont⟩ := hr
      rw [hcr]
      exact writes_setSlot hclean h (by rw [hcons, hp]) (cleanSlot_of_isTuple hcc hct _)
        (by rw [hc]; exact hcont _)
  | case7 H I0 N child value hlo hhi h H1 T1 hc =>
    have hself : (child (slot h)).content (value (slot h)) (H1 :: T1) = value (slot h) := by
      rw [hc, content_suffix, if_pos rfl]
    obtain ⟨v, hv⟩ := Option.ne_none_iff_exists'.mp ((hclean (slot h)).2 _ _ hc)
    rw [hv, hover]
    cases hp : put (some v) with
    | error e => exact writes_error h (by rw [hself, hv, hp])
    | ok y =>
      refine writes_setSlot hclean h (by rw [hself, hv, hp]) (cleanSlot_suffix_some _ y) ?_
      funext k
      rw [hc, content_suffix, Function.update_apply, content_suffix]
      split <;> rfl
  | case8 H I0 N child value hlo hhi h H1 T1 _ hv hc =>
    have hnone : (child (slot h)).content (value (slot h)) = fun _ => none := by
      rw [hc, hv]
      exact funext (content_suffix_none [])
    refine writes_setSlot hclean h (by rw [hnone, hnew]) (cleanSlot_suffix_some _ new) ?_
    funext k
    rw [hnone, content_suffix, Function.update_apply]
  | case9 H I0 N child value hlo hhi h H1 T1 _ v hv hc =>
    have hnone : (child (slot h)).content (value (slot h)) (H1 :: T1) = none := by
      rw [hc, content_suffix, if_neg (List.cons_ne_nil _ _)]
    refine writes_setSlot hclean h (by rw [hnone, hnew])
      (cleanSlot_of_isTuple (clean_single (cleanSlot_suffix_some T1 new)) rfl _) ?_
    rw [hc, hv]
    exact content_newInstance H1 T1 (some new) (some v)
  | case10 H I0 N child value hlo hhi h H1 T1 BH BT hc _ _ ih =>
    exact writes_open h hc (ih rfl (clean_open hclean hc))

/-- `store/3` gives the key its value, and keeps every other one. -/
theorem store_spec {node : Node V} (h : IsTrie node) (hclean : Clean node) {K : List Nat} (hK : K ≠ []) (v : V) :
    ∃ node', store K v node = .ok node' ∧ node'.isTuple = true ∧ Clean node' ∧
      lookup node' = Function.update (lookup node) K (some v) := by
  obtain ⟨H, T, rfl⟩ := List.exists_cons_of_ne_nil hK
  rcases h with rfl | h
  · exact ⟨_, rfl, rfl, clean_single (cleanSlot_suffix_some T v), content_newInstance H T (some v) none⟩
  · cases node with
    | suffix => exact nomatch h
    | tuple =>
      obtain ⟨node', hr, ht, hc, hcont⟩ := @writeNode_spec _ v (fun _ => .ok v) (fun _ => .ok v) rfl
        (fun _ => rfl) H T _ h hclean
      exact ⟨node', hr, ht, hc, hcont none⟩

/-! ## Erasing -/

/-- The key ends within the compressed end of a longer key. -/
def cutsEnd (H : Nat) : List Nat → Node V → Bool
  | _, .suffix _ => false
  | T, .tuple I0 N child value =>
    if h : InRange H I0 N then
      match child (slot h), T with
      | .suffix (_ :: _), [] => (value (slot h)).isSome
      | .tuple I0' N' child' value', H1 :: T1 => cutsEnd H1 T1 (.tuple I0' N' child' value')
      | _, _ => false
    else false

/-- The outcome of erasing `H :: T`. -/
def Erases (H : Nat) (T : List Nat) (node : Node V) (r : Except Exn (Node V)) : Prop :=
  ∃ node', r = .ok node' ∧ node'.isTuple = true ∧ Clean node' ∧
    ∀ v, node'.content v = Function.update (node.content v) (H :: T) none

section

variable {H I0 N : Nat} {T : List Nat} {child : Fin (N + 1) → Node V} {value : Fin (N + 1) → Option V}
  {c : Node V} {w : Option V}

theorem erases_setSlot (hclean : Clean (.tuple I0 N child value)) (h : InRange H I0 N) (hc : CleanSlot c w)
    (hcont : c.content w = Function.update ((child (slot h)).content (value (slot h))) T none) :
    Erases H T (.tuple I0 N child value) (.ok (setSlot I0 child value (slot h) c w)) :=
  ⟨_, rfl, rfl, clean_setSlot hclean hc _, content_setSlot h hcont⟩

/-- Erasing a key that has no value changes nothing. -/
theorem erases_absent (hclean : Clean (.tuple I0 N child value))
    (hnone : (tuple I0 N child value).content none (H :: T) = none) :
    Erases H T (.tuple I0 N child value) (.ok (.tuple I0 N child value)) := by
  refine ⟨_, rfl, rfl, hclean, fun v => ?_⟩
  rw [← hnone, content_cons_irrel rfl none v, Function.update_eq_self]

end

/-- A key that does not cut a compressed end is erased, and no other one. -/
theorem eraseNode_spec {H : Nat} {T : List Nat} {node : Node V} (ht : node.isTuple = true)
    (hclean : Clean node) (hcut : cutsEnd H T node = false) : Erases H T node (eraseNode H T node) := by
  fun_induction eraseNode H T node with
  | case1 => exact nomatch ht
  | case2 H I0 N child value h T hnone hc =>
    refine erases_absent hclean ?_
    rw [content_tuple_cons _ _ h, hc, content_suffix, if_pos rfl, Option.isNone_iff_eq_none.mp hnone]
  | case3 H I0 N child value h T hsome hc =>
    refine erases_setSlot hclean h (cleanSlot_suffix_nil none) ?_
    funext k
    rw [hc, content_suffix_none, Function.update_apply, content_suffix]
    split <;> rfl
  | case4 H I0 N child value h s hc hnone hs =>
    refine erases_absent hclean ?_
    rw [content_tuple_cons _ _ h, hc, content_suffix, if_neg hs]
  | case5 H I0 N child value h s hc hsome hs =>
    obtain ⟨BH, BT, rfl⟩ := List.exists_cons_of_ne_nil (Ne.symm hs)
    simp only [cutsEnd, dif_pos h, hc] at hcut
    exact absurd (Option.isSome_eq_false_iff.mp hcut) hsome
  | case6 H I0 N child value h s T hc hs hT =>
    refine erases_absent hclean ?_
    rw [content_tuple_cons _ _ h, hc, content_suffix, if_neg hs]
  | case7 H I0 N child value h I0' N' child' value' hc hnone =>
    refine erases_absent hclean ?_
    rw [content_tuple_cons _ _ h, hc, content_tuple_nil, Option.isNone_iff_eq_none.mp hnone]
  | case8 H I0 N child value h I0' N' child' value' hc hsome =>
    refine erases_setSlot hclean h (cleanSlot_of_isTuple (hc ▸ (hclean _).1) rfl none) ?_
    rw [hc]
    exact content_set_value _ _ _ (.inl rfl)
  | case9 H I0 N child value h I0' N' child' value' H1 T1 hc ih =>
    rw [cutsEnd, dif_pos h] at hcut
    simp only [hc] at hcut
    obtain ⟨c, hcr, hct, hcc, hcont⟩ := ih rfl (hc ▸ (hclean (slot h)).1) hcut
    rw [hcr]
    exact erases_setSlot hclean h (cleanSlot_of_isTuple hcc hct _) (by rw [hc]; exact hcont _)
  | case10 H T I0 N child value h => exact erases_absent hclean (content_tuple_out _ _ h)

/-! ## Filtering -/

/-- A predicate true of a key is true of every longer key that is held. -/
def Upward (F : List Nat → V → Bool) (Key : List Nat) (held : List Nat → Option V) : Prop :=
  ∀ k x, held k = some x → F (Key ++ k) x = true →
    ∀ k' x', held (k ++ k') = some x' → F (Key ++ k ++ k') x' = true

/-- Below a slot of a tuple the keys are longer by its character. -/
theorem Upward.slot {F : List Nat → V → Bool} {Key : List Nat} {I0 N : Nat} {child : Fin (N + 1) → Node V}
    {value : Fin (N + 1) → Option V} {v : Option V}
    (h : Upward F Key ((tuple I0 N child value).content v)) (j : Fin (N + 1)) :
    Upward F (Key ++ [I0 + j]) ((child j).content (value j)) := by
  have hr : InRange (I0 + j.val) I0 N := by omega
  have hj : Node.slot hr = j := Fin.ext (by simp only [Node.slot]; omega)
  have hcons : ∀ k, (tuple I0 N child value).content v ((I0 + j.val) :: k) = (child j).content (value j) k :=
    fun k => by rw [content_tuple_cons _ _ hr, hj]
  intro k x hk hF k' x' hk'
  have := h ((I0 + j.val) :: k) x (by rw [hcons, hk]) (by simpa using hF) k' x'
    (by rw [List.cons_append, hcons, hk'])
  simpa using this

/-- A function of the slots of a tuple acts on its contents slot by slot. -/
theorem content_tuple_congr {I0 N : Nat} {child child' : Fin (N + 1) → Node V}
    {value value' : Fin (N + 1) → Option V} {g : List Nat → Option V → Option V}
    (hg : ∀ k, g k none = none) {v v' : Option V} (hv : v' = g [] v) (h : ∀ j, (child' j).content (value' j) =
      fun k => g ((I0 + j.val) :: k) ((child j).content (value j) k)) :
    (tuple I0 N child' value').content v' = fun k => g k ((tuple I0 N child value).content v k) := by
  funext k
  cases k with
  | nil => exact hv
  | cons H T =>
    by_cases hr : InRange H I0 N
    · rw [content_tuple_cons _ _ hr, content_tuple_cons _ _ hr, h]
      have hH : I0 + (slot hr).val = H := by simp only [slot]; omega
      rw [hH]
    · rw [content_tuple_out _ _ hr, content_tuple_out _ _ hr, hg]

/-- What filtering makes of a slot. -/
def Filters (F : List Nat → V → Bool) (Key : List Nat) (c : Node V) (v : Option V)
    (r : Node V × Option V) : Prop :=
  CleanSlot r.1 r.2 ∧ r.1.content r.2 = fun k => (c.content v k).filter (F (Key ++ k))

theorem filters_tuple {F : List Nat → V → Bool} {Key : List Nat} {I0 N : Nat}
    {child : Fin (N + 1) → Node V} {value : Fin (N + 1) → Option V} {v v' : Option V}
    (hv : v' = v.filter (F Key)) {r : Fin (N + 1) → Node V × Option V}
    (h : ∀ j : Fin (N + 1), Filters F (Key ++ [I0 + j]) (child j) (value j) (r j)) :
    Filters F Key (.tuple I0 N child value) v
      (.tuple I0 N (fun j => (r j).1) (fun j => (r j).2), v') := by
  refine ⟨cleanSlot_of_isTuple (clean_tuple.mpr fun j => (h j).1) rfl _, ?_⟩
  refine content_tuple_congr (g := fun k o => o.filter (F (Key ++ k))) (fun _ => rfl) ?_ fun j => ?_
  · rw [List.append_nil, hv]
  · rw [(h j).2]
    simp only [List.append_assoc, List.singleton_append]

theorem filterSlot_spec {F : List Nat → V → Bool} {Key : List Nat} {c : Node V} {v : Option V}
    (hclean : CleanSlot c v) (hF : Upward F Key (c.content v)) :
    Filters F Key c v (filterSlot F Key c v) := by
  fun_induction filterSlot F Key c v with
  | case1 Key s =>
    refine ⟨hclean, funext fun k => ?_⟩
    simp only [content_suffix_none, Option.filter_none]
  | case2 Key s v hv =>
    refine ⟨hclean, funext fun k => ?_⟩
    rw [content_suffix]
    split
    · rename_i hk
      rw [hk, Option.filter_some_pos hv]
    · rfl
  | case3 Key s v hv =>
    refine ⟨cleanSlot_suffix_nil none, funext fun k => ?_⟩
    rw [content_suffix_none, content_suffix]
    split
    · rename_i hk
      rw [hk, Option.filter_some_neg (Bool.eq_false_iff.mpr hv)]
    · rfl
  | case4 Key I0 N child value _ ih =>
    exact filters_tuple rfl fun j => ih j (hclean.1 j) (hF.slot j)
  | case5 Key I0 N child value v hv ih =>
    refine ⟨hclean, funext fun k => ?_⟩
    cases hk : (tuple I0 N child value).content (some v) k with
    | none => rfl
    | some x =>
      have hFk := hF [] v rfl (by rwa [List.append_nil]) k x hk
      rw [List.append_nil] at hFk
      rw [Option.filter_some_pos hFk]
  | case6 Key I0 N child value _ v hv ih =>
    exact filters_tuple (Option.filter_some_neg (Bool.eq_false_iff.mpr hv)).symm fun j => ih j (hclean.1 j) (hF.slot j)

/-- `filter/2` keeps the keys that the predicate is true of. -/
theorem filter_lookup {F : List Nat → V → Bool} {node : Node V} (hclean : CleanSlot node none)
    (hF : Upward F [] (lookup node)) :
    Clean (filter F node) ∧ lookup (filter F node) = fun k => (lookup node k).filter (F k) := by
  have h := filterSlot_spec hclean hF
  have hnone : (filterSlot F [] node none).2 = none := by
    cases node <;> rfl
  rw [Filters, hnone] at h
  exact ⟨h.1.1, h.2⟩

theorem filterSlot_isTuple (F : List Nat → V → Bool) (Key : List Nat) {c : Node V} (v : Option V)
    (h : c.isTuple = true) : (filterSlot F Key c v).1.isTuple = true := by
  fun_cases filterSlot F Key c v <;> first | rfl | exact nomatch (show false = true from h)

/-! ## Mapping -/

theorem mapSlot_spec (F : List Nat → V → V) (Key : List Nat) (c : Node V) (v : Option V) (hclean : CleanSlot c v) :
    CleanSlot (mapSlot F Key c v).1 (mapSlot F Key c v).2 ∧
      (mapSlot F Key c v).1.content (mapSlot F Key c v).2 =
        fun k => (c.content v k).map (F (Key ++ k)) := by
  induction c generalizing Key v with
  | suffix s =>
    refine ⟨⟨trivial, fun BH BT h => ?_⟩, funext fun k => ?_⟩
    · simpa only [mapSlot, ne_eq, Option.map_eq_none_iff] using hclean.2 BH BT h
    · rw [mapSlot, content_suffix, content_suffix]
      split
      · rename_i hk
        rw [hk]
      · rfl
  | tuple I0 N child value ih =>
    have hj := fun j => ih j (Key ++ [I0 + j.val]) (value j) (hclean.1 j)
    refine ⟨cleanSlot_of_isTuple (clean_tuple.mpr fun j => (hj j).1) rfl _, ?_⟩
    refine content_tuple_congr (g := fun k o => o.map (F (Key ++ k))) (fun _ => rfl) ?_ fun j => ?_
    · rw [List.append_nil]
      rfl
    · rw [(hj j).2]
      simp only [List.append_assoc, List.singleton_append]

/-- `map/2` maps the values. -/
theorem map_lookup (F : List Nat → V → V) {node : Node V} (hclean : CleanSlot node none) :
    Clean (map F node) ∧ lookup (map F node) = fun k => (lookup node k).map (F k) := by
  have h := mapSlot_spec F [] node none hclean
  have hnone : (mapSlot F [] node none).2 = none := by
    cases node <;> rfl
  rw [hnone] at h
  exact ⟨h.1.1, h.2⟩

theorem mapSlot_isTuple (F : List Nat → V → V) (Key : List Nat) {c : Node V} (v : Option V)
    (h : c.isTuple = true) : (mapSlot F Key c v).1.isTuple = true := by
  cases c with
  | suffix => exact nomatch h
  | tuple => rfl

/-! ## Entries -/

/-- The entries of a slot in the order of `to_list/1`. -/
def entries (Key : List Nat) : Node V → Option V → List (List Nat × V)
  | .suffix s, v => v.toList.map (Key ++ s, ·)
  | .tuple I0 N child value, v =>
    v.toList.map (Key, ·) ++
      (List.finRange (N + 1)).flatMap fun j => entries (Key ++ [I0 + j.val]) (child j) (value j)

theorem foldrSlot_eq {A : Type} (F : List Nat → V → A → A) (Key : List Nat) (c : Node V) (v : Option V)
    (a : A) : foldrSlot F Key c v a = (entries Key c v).foldr (fun p a => F p.1 p.2 a) a := by
  induction c generalizing Key v a with
  | suffix s => cases v <;> rfl
  | tuple I0 N child value ih =>
    have hfold : ∀ l : List (Fin (N + 1)),
        l.foldr (fun j a => foldrSlot F (Key ++ [I0 + j.val]) (child j) (value j) a) a =
          (l.flatMap fun j => entries (Key ++ [I0 + j.val]) (child j) (value j)).foldr
            (fun p a => F p.1 p.2 a) a := by
      intro l
      induction l with
      | nil => rfl
      | cons j l ihl => rw [List.foldr_cons, List.flatMap_cons, List.foldr_append, ihl, ih]
    rw [foldrSlot, entries, List.foldr_append, hfold]
    cases v <;> rfl

theorem toList_eq (node : Node V) : toList node = entries [] node none := by
  rw [toList, foldr, foldrSlot_eq]
  exact (List.foldr_cons_eq_append' ..).trans (List.append_nil _)

theorem mem_entries {Key : List Nat} {c : Node V} {v : Option V} {k : List Nat} {x : V} :
    (k, x) ∈ entries Key c v ↔ ∃ t, k = Key ++ t ∧ c.content v t = some x := by
  induction c generalizing Key v with
  | suffix s =>
    simp only [entries, List.mem_map, Option.mem_toList, Prod.mk.injEq, content_suffix]
    constructor
    · rintro ⟨y, hy, rfl, rfl⟩
      exact ⟨s, rfl, by rw [if_pos rfl, hy]⟩
    · rintro ⟨t, rfl, ht⟩
      split at ht
      · rename_i hts
        exact ⟨x, ht, by rw [hts], rfl⟩
      · exact nomatch ht
  | tuple I0 N child value ih =>
    simp only [entries, List.mem_append, List.mem_map, Option.mem_toList, Prod.mk.injEq,
      List.mem_flatMap, List.mem_finRange, true_and, ih]
    constructor
    · rintro (⟨y, hy, rfl, rfl⟩ | ⟨j, t, rfl, ht⟩)
      · exact ⟨[], (List.append_nil _).symm, hy⟩
      · have hr : InRange (I0 + j.val) I0 N := by omega
        have hj : slot hr = j := Fin.ext (by simp only [slot]; omega)
        exact ⟨(I0 + j.val) :: t, by simp, by rw [content_tuple_cons _ _ hr, hj, ht]⟩
    · rintro ⟨t, rfl, ht⟩
      cases t with
      | nil => exact .inl ⟨x, ht, (List.append_nil _).symm, rfl⟩
      | cons H T =>
        by_cases hr : InRange H I0 N
        · have hH : I0 + (slot hr).val = H := by simp only [slot]; omega
          exact .inr ⟨slot hr, T, by simp [hH], by rwa [content_tuple_cons _ _ hr] at ht⟩
        · rw [content_tuple_out _ _ hr] at ht
          exact nomatch ht

theorem entries_sorted (Key : List Nat) (c : Node V) (v : Option V) :
    (entries Key c v).Pairwise fun p q => p.1 < q.1 := by
  induction c generalizing Key v with
  | suffix s => cases v <;> simp [entries]
  | tuple I0 N child value ih =>
    rw [entries, List.pairwise_append, List.pairwise_flatMap]
    refine ⟨by cases v <;> simp, ⟨fun j _ => ih j _ _, ?_⟩, ?_⟩
    · refine (List.pairwise_lt_finRange _).imp fun {i j} hij p hp q hq => ?_
      obtain ⟨t, ht, -⟩ := mem_entries.mp hp
      obtain ⟨u, hu, -⟩ := mem_entries.mp hq
      rw [ht, hu, List.append_assoc, List.append_assoc]
      refine List.append_left_lt (List.cons_lt_cons_iff.mpr (.inl ?_))
      have : i.val < j.val := hij
      omega
    · intro p hp q hq
      obtain ⟨x, -, rfl⟩ := List.mem_map.mp hp
      obtain ⟨j, -, hj⟩ := List.mem_flatMap.mp hq
      obtain ⟨t, ht, -⟩ := mem_entries.mp hj
      rw [ht, List.append_assoc]
      conv_lhs => rw [← List.append_nil Key]
      exact List.append_left_lt (List.nil_lt_cons _ _)

/-- `to_list/1` lists exactly the keys held, each once, in ascending order. -/
theorem toList_spec (node : Node V) :
    (∀ k x, (k, x) ∈ toList node ↔ lookup node k = some x) ∧
      (toList node).Pairwise fun p q => p.1 < q.1 := by
  rw [toList_eq]
  refine ⟨fun k x => ?_, entries_sorted ..⟩
  rw [mem_entries]
  exact ⟨fun ⟨t, ht, hx⟩ => by rw [ht]; exact hx, fun hx => ⟨k, rfl, hx⟩⟩

end CloudI.Trie
