import CloudI.Framework.Dict
import CloudI.Trie.FiniteMap

/-!
# The trie as a dictionary module

The functions of the trie that share their names with those of `dict`, with
`fetch/2` and `fold/3`, make a module with the interface of `dict`
(`dictI`), for keys that are nonempty strings. A key that is held cuts no
compressed end (`cutsEnd_of_held`), so that a caller which erases only the
keys it has found keeps the trie clean.
-/

namespace CloudI.Trie

open Node

variable {V : Type}

/-! ## Fetching -/

def fetchNode (H : Nat) : List Nat → Node V → Except Exn V
  | _, .suffix _ => .error .functionClause
  | [], .tuple I0 N child value =>
    if h : InRange H I0 N then
      match child (slot h), value (slot h) with
      | .tuple .., some Value | .suffix [], some Value => .ok Value
      | _, _ => .error .ifClause
    else .error .functionClause
  | H1 :: T1, .tuple I0 N child value =>
    if h : InRange H I0 N then
      match child (slot h) with
      | .tuple I0' N' child' value' => fetchNode H1 T1 (.tuple I0' N' child' value')
      | .suffix s =>
        match if s = H1 :: T1 then value (slot h) else none with
        | some Value => .ok Value
        | none => .error .caseClause
    else .error .functionClause

/-- `fetch/2` -/
def fetch : List Nat → Node V → Except Exn V
  | H :: T, .tuple I0 N child value => fetchNode H T (.tuple I0 N child value)
  | _, _ => .error .functionClause

variable {node : Node V}

theorem fetchNode_of_findNode {H : Nat} {T : List Nat} {v : V}
    (h : findNode H T node = .ok (some v)) : fetchNode H T node = .ok v := by
  fun_induction findNode H T node with
  | case1 => cases h
  | case2 H I0 N child value hr I0' N' child' value' hc =>
    simp only [fetchNode, dif_pos hr, hc, Except.ok.inj h]
  | case3 H I0 N child value hr hc => simp only [fetchNode, dif_pos hr, hc, Except.ok.inj h]
  | case4 => cases h
  | case5 => cases h
  | case6 H H1 T1 I0 N child value hr I0' N' child' value' hc ih =>
    simp only [fetchNode, dif_pos hr, hc]
    exact ih h
  | case7 H H1 T1 I0 N child value hr s hc => simp only [fetchNode, dif_pos hr, hc, Except.ok.inj h]
  | case8 => cases h

/-- `fetch/2` reads the contents. -/
theorem fetch_eq (ht : IsTrie node) {K : List Nat} (hK : K ≠ []) {v : V}
    (h : lookup node K = some v) : fetch K node = .ok v := by
  have hf := find_eq ht hK
  rw [h] at hf
  obtain ⟨H, T, rfl⟩ := List.exists_cons_of_ne_nil hK
  cases node with
  | suffix s =>
    rcases ht with hs | ht
    · rw [hs, lookup_suffix_nil] at h
      cases h
    · cases ht
  | tuple => exact fetchNode_of_findNode hf

/-! ## Folding -/

/-- `foldl_element/7` on a slot. -/
def foldlSlot {A : Type} (F : List Nat → V → A → A) (Key : List Nat) : Node V → Option V → A → A
  | .suffix s, v, a => v.elim a fun v => F (Key ++ s) v a
  | .tuple I0 N child value, v, a =>
    (List.finRange (N + 1)).foldl
      (fun a (j : Fin (N + 1)) => foldlSlot F (Key ++ [I0 + j]) (child j) (value j) a)
      (v.elim a fun v => F Key v a)

/-- `fold/3` -/
def fold {A : Type} (F : List Nat → V → A → A) (a : A) (node : Node V) : A := foldlSlot F [] node none a

theorem foldlSlot_eq {A : Type} (F : List Nat → V → A → A) (Key : List Nat) (c : Node V) (v : Option V)
    (a : A) : foldlSlot F Key c v a = (entries Key c v).foldl (fun a p => F p.1 p.2 a) a := by
  induction c generalizing Key v a with
  | suffix s => cases v <;> rfl
  | tuple I0 N child value ih =>
    have hfold : ∀ (l : List (Fin (N + 1))) (a : A),
        l.foldl (fun a j => foldlSlot F (Key ++ [I0 + j.val]) (child j) (value j) a) a =
          (l.flatMap fun j => entries (Key ++ [I0 + j.val]) (child j) (value j)).foldl
            (fun a p => F p.1 p.2 a) a := by
      intro l
      induction l with
      | nil => exact fun _ => rfl
      | cons j l ihl =>
        intro a
        rw [List.foldl_cons, List.flatMap_cons, List.foldl_append, ihl, ih]
    rw [foldlSlot, entries, List.foldl_append, hfold]
    cases v <;> rfl

/-- `fold/3` visits the pairs of `to_list/1` in order. -/
theorem fold_eq {A : Type} (F : List Nat → V → A → A) (a : A) (node : Node V) :
    fold F a node = (toList node).foldl (fun a p => F p.1 p.2 a) a := by
  rw [fold, foldlSlot_eq, toList_eq]

/-! ## Writing and erasing -/

/-- `update_node/4`; `F` takes any term. -/
def updateNode3 (F : Option V → Except Exn V) (H : Nat) : List Nat → Node V → Except Exn (Node V)
  | _, .suffix _ => .error .functionClause
  | [], .tuple I0 N child value =>
    if h : InRange H I0 N then
      match child (slot h) with
      | .tuple I0' N' child' value' => do
        return setSlot I0 child value (slot h) (.tuple I0' N' child' value') (some (← F (value (slot h))))
      | .suffix [] =>
        match value (slot h) with
        | none => .error .ifClause
        | some Value => do return setSlot I0 child value (slot h) (.suffix []) (some (← F (some Value)))
      | .suffix (_ :: _) => .error .ifClause
    else .error .functionClause
  | H1 :: T1, .tuple I0 N child value =>
    if h : InRange H I0 N then
      match child (slot h) with
      | .tuple I0' N' child' value' => do
        let c ← updateNode3 F H1 T1 (.tuple I0' N' child' value')
        return setSlot I0 child value (slot h) c (value (slot h))
      | .suffix s =>
        if s = H1 :: T1 then
          match value (slot h) with
          | none => .error .badmatch
          | some Value => do return setSlot I0 child value (slot h) (.suffix s) (some (← F (some Value)))
        else .error .caseClause
    else .error .functionClause

/-- `update/3` -/
def update3 (F : Option V → Except Exn V) : List Nat → Node V → Except Exn (Node V)
  | H :: T, .tuple I0 N child value => updateNode3 F H T (.tuple I0 N child value)
  | _, _ => .error .functionClause

/-- A key that is held gets the value that `F` returns. -/
theorem updateNode3_spec {F : Option V → Except Exn V} {H : Nat} {T : List Nat} {w : Option V}
    {v y : V} (ht : node.isTuple = true) (hclean : Clean node) (hheld : node.content w (H :: T) = some v)
    (hF : F (some v) = .ok y) : Writes (fun _ => .ok y) H T node (updateNode3 F H T node) := by
  fun_induction updateNode3 F H T node generalizing w with
  | case1 => cases ht
  | case2 H I0 N child value hr I0' N' child' value' hc =>
    rw [content_tuple_cons _ _ hr, hc, content_tuple_nil] at hheld
    rw [hheld, hF]
    refine writes_setSlot hclean hr rfl (cleanSlot_of_isTuple (hc ▸ (hclean _).1) rfl _) ?_
    rw [hc]
    exact content_set_value _ _ _ (.inl rfl)
  | case3 H I0 N child value hr hc hv =>
    rw [content_tuple_cons _ _ hr, hc, hv, content_suffix, if_pos rfl] at hheld
    cases hheld
  | case4 H I0 N child value hr hc v' hv =>
    rw [content_tuple_cons _ _ hr, hc, hv, content_suffix, if_pos rfl] at hheld
    rw [hheld, hF]
    refine writes_setSlot hclean hr rfl (cleanSlot_suffix_some _ y) ?_
    rw [hc]
    exact content_set_value _ _ _ (.inr rfl)
  | case5 H I0 N child value hr BH BT hc =>
    rw [content_tuple_cons _ _ hr, hc, content_suffix, if_neg (List.cons_ne_nil _ _).symm] at hheld
    cases hheld
  | case6 H I0 N child value hr =>
    rw [content_tuple_out _ _ hr] at hheld
    cases hheld
  | case7 H H1 T1 I0 N child value hr I0' N' child' value' hc ih =>
    rw [content_tuple_cons _ _ hr, hc] at hheld
    obtain ⟨c, hcr, hct, hcc, hcont⟩ := ih rfl (hc ▸ (hclean (slot hr)).1) hheld
    rw [hcr]
    exact writes_setSlot hclean hr rfl (cleanSlot_of_isTuple hcc hct _) (by rw [hc]; exact hcont _)
  | case8 H H1 T1 I0 N child value hr hv hc =>
    rw [content_tuple_cons _ _ hr, hc, hv, content_suffix, if_pos rfl] at hheld
    cases hheld
  | case9 H H1 T1 I0 N child value hr v' hv hc =>
    rw [content_tuple_cons _ _ hr, hc, hv, content_suffix, if_pos rfl] at hheld
    rw [hheld, hF]
    refine writes_setSlot hclean hr rfl (cleanSlot_suffix_some _ y) ?_
    funext k
    rw [hc, content_suffix, Function.update_apply, content_suffix]
    split <;> rfl
  | case10 H H1 T1 I0 N child value hr s hc hs =>
    rw [content_tuple_cons _ _ hr, hc, content_suffix, if_neg (Ne.symm hs)] at hheld
    cases hheld
  | case11 H H1 T1 I0 N child value hr =>
    rw [content_tuple_out _ _ hr] at hheld
    cases hheld

/-- `update/3` of a key that is held changes its value alone. -/
theorem update3_spec (h : IsTrie node) (hclean : Clean node) {K : List Nat} (hK : K ≠ [])
    {F : Option V → Except Exn V} {v y : V} (hheld : lookup node K = some v) (hF : F (some v) = .ok y) :
    ∃ node', update3 F K node = .ok node' ∧ node'.isTuple = true ∧ Clean node' ∧
      lookup node' = Function.update (lookup node) K (some y) := by
  rcases h with rfl | h
  · rw [lookup_suffix_nil] at hheld
    cases hheld
  · obtain ⟨H, T, rfl⟩ := List.exists_cons_of_ne_nil hK
    cases node with
    | suffix => cases h
    | tuple =>
      obtain ⟨node', hr, ht, hc, hcont⟩ := updateNode3_spec h hclean hheld hF
      exact ⟨node', hr, ht, hc, hcont none⟩

/-- `update/4` with a function that only values are given to. -/
theorem update4_spec (h : IsTrie node) (hclean : Clean node) {K : List Nat} (hK : K ≠ [])
    {F : Option V → Except Exn V} {Initial v : V} (hv : updateValue F Initial (lookup node K) = .ok v) :
    ∃ node', update4 K F Initial node = .ok node' ∧ node'.isTuple = true ∧ Clean node' ∧
      lookup node' = Function.update (lookup node) K (some v) := by
  rcases h with rfl | h
  · rw [lookup_suffix_nil] at hv
    obtain rfl := Except.ok.inj hv
    exact store_spec (.inl rfl) hclean hK Initial
  · obtain ⟨H, T, rfl⟩ := List.exists_cons_of_ne_nil hK
    cases node with
    | suffix => cases h
    | tuple =>
      have hw := @writeNode_spec _ Initial (updateValue F Initial) F rfl (fun _ => rfl) H T _ h hclean
      rw [Writes, show updateValue F Initial ((tuple _ _ _ _).content none (H :: T)) = .ok v from hv] at hw
      obtain ⟨node', hr, ht, hc, hcont⟩ := hw
      exact ⟨node', hr, ht, hc, hcont none⟩

/-- A key that is held does not cut a compressed end. -/
theorem cutsEnd_of_held {H : Nat} {T : List Nat} {v : Option V}
    (h : node.content v (H :: T) ≠ none) : cutsEnd H T node = false := by
  fun_induction cutsEnd H T node generalizing v with
  | case1 => rfl
  | case2 H I0 N child value hr BH BT hc =>
    rw [content_tuple_cons _ _ hr, hc, content_suffix, if_neg (List.cons_ne_nil _ _).symm] at h
    exact absurd rfl h
  | case3 H I0 N child value hr I0' N' child' value' H1 T1 hc ih =>
    rw [content_tuple_cons _ _ hr, hc] at h
    exact ih h
  | case4 => rfl
  | case5 => rfl

/-- Erasing a key that is held removes it alone. -/
theorem erase_spec (h : IsTrie node) (hclean : Clean node) {K : List Nat} (hK : K ≠ [])
    (hheld : lookup node K ≠ none) :
    ∃ node', erase K node = .ok node' ∧ node'.isTuple = true ∧ Clean node' ∧
      lookup node' = Function.update (lookup node) K none := by
  rcases h with rfl | h
  · exact absurd (lookup_suffix_nil K) hheld
  · obtain ⟨H, T, rfl⟩ := List.exists_cons_of_ne_nil hK
    obtain ⟨node', hr, ht, hc, hcont⟩ := eraseNode_spec h hclean (cutsEnd_of_held hheld)
    cases node with
    | suffix => cases h
    | tuple => exact ⟨node', hr, ht, hc, hcont none⟩

/-! ## The module -/

/-- The trie is clean and stands for the map. -/
def HoldsMap (node : Node V) (m : Key → Option V) : Prop :=
  IsTrie node ∧ Clean node ∧ ∀ K : Key, lookup node K = m K

theorem HoldsMap.update {_ : DecidableEq Key} {node node' : Node V} {m : Key → Option V} (h : HoldsMap node m)
    {K : Key} {v : Option V} (ht : node'.isTuple = true) (hc : Clean node')
    (hl : lookup node' = Function.update (lookup node) K v) : HoldsMap node' (Function.update m K v) := by
  refine ⟨.inr ht, hc, fun K' => ?_⟩
  by_cases hK : K' = K
  · rw [hl, hK, Function.update_self, Function.update_self]
  · rw [hl, Function.update_of_ne hK, Function.update_of_ne fun h' => hK (Subtype.ext h'), h.2.2]

/-- The pairs of `to_list/1`, with the keys as such; a trie holds nothing for the empty string. -/
def pairs (node : Node V) : List (Key × V) :=
  (toList node).filterMap fun p => if hK : p.1 ≠ [] then some (⟨p.1, hK⟩, p.2) else none

theorem pairs_spec {m : Key → Option V} (h : HoldsMap node m) :
    ((pairs node).map Prod.fst).Nodup ∧ ∀ K v, (K, v) ∈ pairs node ↔ m K = some v := by
  obtain ⟨hmem, hsort⟩ := toList_spec node
  constructor
  · rw [List.Nodup, List.pairwise_map, pairs, List.pairwise_filterMap]
    refine hsort.imp fun {p q} hpq a ha b hb => ?_
    rintro hab
    split at ha <;> split at hb <;> cases ha <;> cases hb
    have he : p.1 = q.1 := congrArg Subtype.val hab
    exact List.lt_irrefl _ (he ▸ hpq)
  · intro K v
    rw [pairs, List.mem_filterMap, ← h.2.2, ← hmem]
    constructor
    · rintro ⟨p, hp, he⟩
      split at he <;> cases he
      exact hp
    · exact fun hp => ⟨(K.1, v), hp, dif_pos K.2⟩

/-- The module `trie` as a dictionary module. -/
def dictI : DictI Key V where
  Data := Node V
  new := .suffix []
  find K := find K.1
  fetch K := fetch K.1
  isKey K := isKey K.1
  store K := store K.1
  update3 K F := update3 (fun o => o.elim (.error .functionClause) F) K.1
  update4 K F := update4 K.1 fun o => o.elim (.error .functionClause) F
  erase K := erase K.1
  fold F a := fold (fun K v r => if hK : K ≠ [] then r >>= F ⟨K, hK⟩ v else r) (.ok a)
  Holds := HoldsMap
  holds_new := ⟨.inl rfl, trivial, fun _ => lookup_suffix_nil _⟩
  find_ok h K := by rw [find_eq h.1 K.2, h.2.2]
  fetch_ok {_ _ K _} h hv := fetch_eq h.1 K.2 ((h.2.2 K).trans hv)
  isKey_ok h K := by rw [isKey_eq h.1 K.2, h.2.2]
  store_ok h K v := by
    obtain ⟨node', hr, ht, hc, hl⟩ := store_spec h.1 h.2.1 K.2 v
    exact ⟨node', hr, h.update ht hc hl⟩
  update3_ok := by
    intro _ _ _ h K F v v' hv hF
    obtain ⟨node', hr, ht, hc, hl⟩ := @update3_spec _ _ h.1 h.2.1 _ K.2
      (fun o => o.elim (.error .functionClause) F) v v' ((h.2.2 K).trans hv) hF
    exact ⟨node', hr, h.update ht hc hl⟩
  update4_ok := by
    intro _ _ m h K F Initial v hv
    have hv' : updateValue (fun o => o.elim (.error .functionClause) F) Initial (m K) = .ok v := by
      rw [← hv]
      cases m K <;> rfl
    rw [← h.2.2] at hv'
    obtain ⟨node', hr, ht, hc, hl⟩ := update4_spec h.1 h.2.1 K.2 hv'
    exact ⟨node', hr, h.update ht hc hl⟩
  erase_ok := by
    intro _ _ _ h K hK
    rw [← h.2.2] at hK
    obtain ⟨node', hr, ht, hc, hl⟩ := erase_spec h.1 h.2.1 K.2 hK
    exact ⟨node', hr, h.update ht hc hl⟩
  fold_ok {node _} h := by
    refine ⟨pairs node, (pairs_spec h).1, (pairs_spec h).2, fun {A} F a => ?_⟩
    rw [fold_eq, pairs]
    have hfold : ∀ (l : List (List Nat × V)) (r : Except Exn A),
        l.foldl (fun r p => if hK : p.1 ≠ [] then r >>= F ⟨p.1, hK⟩ p.2 else r) r =
          r >>= fun a => (l.filterMap fun p => if hK : p.1 ≠ [] then some ((⟨p.1, hK⟩ : Key), p.2) else none).foldlM
            (fun a p => F p.1 p.2 a) a := by
      intro l
      induction l with
      | nil => exact fun r => (bind_pure r).symm
      | cons p l ih =>
        intro r
        rw [List.foldl_cons, ih]
        by_cases hK : p.1 ≠ []
        · simp only [dif_pos hK, List.filterMap_cons, List.foldlM_cons, bind_assoc]
        · simp only [dif_neg hK, List.filterMap_cons]
    exact hfold _ _

end CloudI.Trie
