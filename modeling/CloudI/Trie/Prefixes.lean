import CloudI.Trie.Dict

/-!
# The prefixes of a string in a trie

`find_prefixes/2`, `find_prefix_longest/2`, `is_prefixed/2` and `is_prefixed/3`
walk along a string and look at the keys that end on the way. The keys are
`prefixesFrom`, in increasing length (`mem_prefixesFrom`, `prefixesFrom_sorted`),
and each of the functions is judged by that list: `findPrefixesNode_eq`,
`findPrefixLongestNode_eq`, `isPrefixed_eq` and `isPrefixedMatch_eq`.
-/

namespace CloudI.Trie

open Node

variable {V : Type}

/-! ## The functions -/

/-- `find_prefix_longest/4`; `Key` and the key of `LastMatch` are reversed. -/
def findPrefixLongestNode : List Nat → List Nat → Option (List Nat × V) → Node V → Option (List Nat × V)
  | H :: T, Key, LastMatch, .tuple I0 N child value =>
    if h : InRange H I0 N then
      match child (slot h), value (slot h) with
      | .tuple I0' N' child' value', Value =>
        findPrefixLongestNode T (H :: Key) (Value.elim LastMatch fun v => some (H :: Key, v))
          (.tuple I0' N' child' value')
      | .suffix s, some v =>
        if s.isPrefixOf T then some ((H :: Key).reverse ++ s, v)
        else LastMatch.map fun p => (p.1.reverse, p.2)
      | .suffix _, none => LastMatch.map fun p => (p.1.reverse, p.2)
    else LastMatch.map fun p => (p.1.reverse, p.2)
  | _, _, LastMatch, _ => LastMatch.map fun p => (p.1.reverse, p.2)

/-- `find_prefix_longest/2`, with `none` for `error`. -/
def findPrefixLongest (Match : List Nat) : Node V → Except Exn (Option (List Nat × V))
  | .tuple I0 N child value => .ok (findPrefixLongestNode Match [] none (.tuple I0 N child value))
  | .suffix [] => .ok none
  | .suffix (_ :: _) => .error .functionClause

/-- `find_prefixes/4`; `Key` and `Acc` are reversed. -/
def findPrefixesNode : List Nat → List Nat → List (List Nat × V) → Node V → List (List Nat × V)
  | H :: T, Key, Acc, .tuple I0 N child value =>
    if h : InRange H I0 N then
      match child (slot h), value (slot h) with
      | .tuple I0' N' child' value', Value =>
        findPrefixesNode T (H :: Key) (Value.elim Acc fun v => ((H :: Key).reverse, v) :: Acc)
          (.tuple I0' N' child' value')
      | .suffix s, some v =>
        (if s.isPrefixOf T then ((H :: Key).reverse ++ s, v) :: Acc else Acc).reverse
      | .suffix _, none => Acc.reverse
    else Acc.reverse
  | _, _, Acc, _ => Acc.reverse

/-- `find_prefixes/2` -/
def findPrefixes (Match : List Nat) : Node V → Except Exn (List (List Nat × V))
  | .tuple I0 N child value => .ok (findPrefixesNode Match [] [] (.tuple I0 N child value))
  | .suffix [] => .ok []
  | .suffix (_ :: _) => .error .functionClause

/-- `is_prefixed/2` -/
def isPrefixed : List Nat → Node V → Except Exn Bool
  | [H], .tuple I0 N child value =>
    if h : InRange H I0 N then
      match child (slot h), value (slot h) with
      | _, none => .ok false
      | .tuple .., some _ => .ok true
      | .suffix [], some _ => .ok true
      | .suffix (_ :: _), some _ => .ok false
    else .ok false
  | H :: T, .tuple I0 N child value =>
    if h : InRange H I0 N then
      match child (slot h), value (slot h) with
      | .tuple I0' N' child' value', none => isPrefixed T (.tuple I0' N' child' value')
      | .tuple .., some _ => .ok true
      | .suffix _, none => .ok false
      | .suffix s, some _ => .ok (if s = T then true else s.isPrefixOf T)
    else .ok false
  | _, .suffix [] => .ok false
  | _, _ => .error .functionClause

/-- `is_prefixed_match_check/4` -/
def isPrefixedMatchCheck (Exclude : List Nat) : List Nat → List Nat → Bool → Bool
  | [], _, Matched => Matched
  | H :: T1, H' :: T2, Matched =>
    if H = H' then isPrefixedMatchCheck Exclude T1 T2 (Matched || !Exclude.contains H) else false
  | _ :: _, [], _ => false

/-- `is_prefixed_match/4` -/
def isPrefixedMatch (Exclude : List Nat) : List Nat → Bool → Node V → Except Exn Bool
  | [H], Matched, .tuple I0 N child value =>
    if h : InRange H I0 N then
      match child (slot h), value (slot h) with
      | _, none => .ok false
      | .tuple .., some _ => .ok (Matched || !Exclude.contains H)
      | .suffix [], some _ => .ok (Matched || !Exclude.contains H)
      | .suffix (_ :: _), some _ => .ok false
    else .ok false
  | H :: T, Matched, .tuple I0 N child value =>
    if h : InRange H I0 N then
      match child (slot h), value (slot h) with
      | .tuple I0' N' child' value', none =>
        isPrefixedMatch Exclude T (Matched || !Exclude.contains H) (.tuple I0' N' child' value')
      | .tuple I0' N' child' value', some _ =>
        if Matched || !Exclude.contains H then .ok true
        else isPrefixedMatch Exclude T false (.tuple I0' N' child' value')
      | .suffix _, none => .ok false
      | .suffix s, some _ => .ok (isPrefixedMatchCheck Exclude s T (Matched || !Exclude.contains H))
    else .ok false
  | _, _, .suffix [] => .ok false
  | _, _, _ => .error .functionClause

/-- `is_prefixed/3` -/
def isPrefixed3 (Key Exclude : List Nat) (node : Node V) : Except Exn Bool := isPrefixedMatch Exclude Key false node

/-! ## The keys that end on the way -/

/-- The keys held that are prefixes of a string, each after `Key`. -/
def prefixesFrom (Key : List Nat) (held : List Nat → Option V) : List Nat → List (List Nat × V)
  | [] => (held []).toList.map (Key, ·)
  | H :: T => (held []).toList.map (Key, ·) ++ prefixesFrom (Key ++ [H]) (fun k => held (H :: k)) T

section From

variable {Key S : List Nat} {held : List Nat → Option V}

theorem mem_prefixesFrom {k : List Nat} {x : V} :
    (k, x) ∈ prefixesFrom Key held S ↔ ∃ t, k = Key ++ t ∧ held t = some x ∧ t <+: S := by
  induction S generalizing Key held with
  | nil =>
    simp only [prefixesFrom, List.mem_map, Option.mem_toList, Prod.mk.injEq, List.prefix_nil]
    constructor
    · rintro ⟨y, hy, rfl, rfl⟩
      exact ⟨[], (List.append_nil _).symm, hy, rfl⟩
    · rintro ⟨t, rfl, ht, rfl⟩
      exact ⟨x, ht, (List.append_nil _).symm, rfl⟩
  | cons H T ih =>
    simp only [prefixesFrom, List.mem_append, List.mem_map, Option.mem_toList, Prod.mk.injEq, ih]
    constructor
    · rintro (⟨y, hy, rfl, rfl⟩ | ⟨t, rfl, ht, hp⟩)
      · exact ⟨[], (List.append_nil _).symm, hy, List.nil_prefix⟩
      · exact ⟨H :: t, by simp, ht, List.cons_prefix_cons.mpr ⟨rfl, hp⟩⟩
    · rintro ⟨t, rfl, ht, hp⟩
      cases t with
      | nil => exact .inl ⟨x, ht, (List.append_nil _).symm, rfl⟩
      | cons H' t =>
        obtain ⟨rfl, hpre⟩ := List.cons_prefix_cons.mp hp
        exact .inr ⟨t, by simp, ht, hpre⟩

theorem prefixesFrom_sorted : (prefixesFrom Key held S).Pairwise fun p q => p.1.length < q.1.length := by
  induction S generalizing Key held with
  | nil => cases h : held [] <;> simp [prefixesFrom, h]
  | cons H T ih =>
    rw [prefixesFrom, List.pairwise_append]
    refine ⟨by cases held [] <;> simp, ih, fun p hp q hq => ?_⟩
    obtain ⟨x, -, rfl⟩ := List.mem_map.mp hp
    obtain ⟨t, ht, -, -⟩ := mem_prefixesFrom.mp (show (q.1, q.2) ∈ _ from hq)
    rw [ht]
    simp only [List.length_append, List.length_singleton]
    omega

theorem prefixesFrom_none (Key S : List Nat) : prefixesFrom Key (fun _ => (none : Option V)) S = [] := by
  induction S generalizing Key with
  | nil => rfl
  | cons H T ih => exact ih _

/-- A compressed end is the one key of its slot. -/
theorem prefixesFrom_suffix (Key s T : List Nat) (v : V) :
    prefixesFrom Key ((suffix s).content (some v)) T = if s.isPrefixOf T then [(Key ++ s, v)] else [] := by
  induction T generalizing Key s with
  | nil =>
    cases s with
    | nil => simp [prefixesFrom, content_suffix]
    | cons b s => simp [prefixesFrom, content_suffix]
  | cons H T ih =>
    cases s with
    | nil =>
      have hnone : (fun k => (suffix [] : Node V).content (some v) (H :: k)) = fun _ => none := by
        funext k
        rw [content_suffix, if_neg (List.cons_ne_nil _ _)]
      rw [prefixesFrom, hnone, prefixesFrom_none]
      simp [content_suffix]
    | cons b s =>
      by_cases hb : b = H
      · subst hb
        have hrest : (fun k => (suffix (b :: s) : Node V).content (some v) (b :: k)) = (suffix s).content (some v) := by
          funext k
          rw [content_suffix, content_suffix]
          simp only [List.cons.injEq, true_and]
        rw [prefixesFrom, hrest, ih]
        simp [content_suffix]
      · have hnone : (fun k => (suffix (b :: s) : Node V).content (some v) (H :: k)) = fun _ => none := by
          funext k
          rw [content_suffix, if_neg fun h => hb (List.cons.inj h).1.symm]
        rw [prefixesFrom, hnone, prefixesFrom_none]
        simp [content_suffix, hb]

end From

/-! ## What the functions find -/

section Walk

variable {I0 N : Nat} {child : Fin (N + 1) → Node V} {value : Fin (N + 1) → Option V} {v : Option V}

/-- The prefixes of a string below a tuple. -/
def below (Key : List Nat) (node : Node V) : List Nat → List (List Nat × V)
  | [] => []
  | H :: T => prefixesFrom (Key ++ [H]) (fun k => node.content none (H :: k)) T

theorem below_slot (Key : List Nat) {H : Nat} (T : List Nat) (h : InRange H I0 N) :
    below Key (.tuple I0 N child value) (H :: T) =
      prefixesFrom (Key ++ [H]) ((child (slot h)).content (value (slot h))) T := by
  have heq : (fun k => (tuple I0 N child value).content none (H :: k)) =
      (child (slot h)).content (value (slot h)) := funext fun k => content_tuple_cons none k h
  rw [below, heq]

theorem below_out (Key : List Nat) {H : Nat} (T : List Nat) (h : ¬ InRange H I0 N) :
    below Key (.tuple I0 N child value) (H :: T) = [] := by
  have heq : (fun k => (tuple I0 N child value).content none (H :: k)) = fun _ => none :=
    funext fun k => content_tuple_out none k h
  rw [below, heq, prefixesFrom_none]

theorem prefixesFrom_tuple (Key : List Nat) (T : List Nat) :
    prefixesFrom Key ((tuple I0 N child value).content v) T =
      v.toList.map (Key, ·) ++ below Key (.tuple I0 N child value) T := by
  cases T with
  | nil => rw [prefixesFrom, below, List.append_nil]; rfl
  | cons H T => rfl

section Slot

variable {H : Nat} (h : InRange H I0 N) (Key T : List Nat)

theorem below_tuple {I0' N' : Nat} {child' : Fin (N' + 1) → Node V} {value' : Fin (N' + 1) → Option V}
    (hc : child (slot h) = .tuple I0' N' child' value') :
    below Key (.tuple I0 N child value) (H :: T) =
      (value (slot h)).toList.map (Key ++ [H], ·) ++ below (Key ++ [H]) (.tuple I0' N' child' value') T := by
  rw [below_slot _ _ h, hc, prefixesFrom_tuple]

theorem below_end {s : List Nat} {x : V} (hc : child (slot h) = .suffix s) (hv : value (slot h) = some x) :
    below Key (.tuple I0 N child value) (H :: T) = if s.isPrefixOf T then [(Key ++ [H] ++ s, x)] else [] := by
  rw [below_slot _ _ h, hc, hv, prefixesFrom_suffix]

theorem below_end_none {s : List Nat} (hc : child (slot h) = .suffix s) (hv : value (slot h) = none) :
    below Key (.tuple I0 N child value) (H :: T) = [] := by
  have hnone : (suffix s : Node V).content none = fun _ => none := funext (content_suffix_none s)
  rw [below_slot _ _ h, hc, hv, hnone, prefixesFrom_none]

end Slot

/-- The keys are found in increasing length, after those in `Acc`. -/
theorem findPrefixesNode_eq (S Key : List Nat) (Acc : List (List Nat × V)) {node : Node V}
    (hn : node.isTuple = true) :
    findPrefixesNode S Key Acc node = Acc.reverse ++ below Key.reverse node S := by
  fun_induction findPrefixesNode S Key Acc node with
  | case1 H T Key Acc I0 N child value h I0' N' child' value' hc ih =>
    rw [ih rfl, below_tuple h _ _ hc, List.reverse_cons]
    cases value (slot h) with
    | none => rfl
    | some v => simp
  | case2 H T Key Acc I0 N child value h s v hv hc =>
    rw [below_end h _ _ hc hv, List.reverse_cons]
    split <;> simp
  | case3 H T Key Acc I0 N child value h s hv hc => rw [below_end_none h _ _ hc hv, List.append_nil]
  | case4 H T Key Acc I0 N child value h => rw [below_out _ _ h, List.append_nil]
  | case5 S Key Acc node hne =>
    cases node with
    | suffix => cases hn
    | tuple I0 N child value =>
      cases S with
      | nil => rw [below, List.append_nil]
      | cons H T => exact absurd rfl (hne H T I0 N child value rfl)

/-- The longest key is the last one that is found. -/
theorem findPrefixLongestNode_eq (S Key : List Nat) (LastMatch : Option (List Nat × V)) (Acc : List (List Nat × V))
    (hAcc : Acc.head? = LastMatch.map fun p => (p.1.reverse, p.2)) (node : Node V) :
    findPrefixLongestNode S Key LastMatch node = (findPrefixesNode S Key Acc node).getLast? := by
  fun_induction findPrefixLongestNode S Key LastMatch node generalizing Acc with
  | case1 H T Key LastMatch I0 N child value h I0' N' child' value' hc ih =>
    rw [findPrefixesNode, dif_pos h]
    simp only [hc]
    refine ih _ ?_
    cases value (slot h) with
    | none => exact hAcc
    | some v => rfl
  | case2 H T Key LastMatch I0 N child value h s v hv hc hp =>
    rw [findPrefixesNode, dif_pos h]
    simp only [hc, hv, if_pos hp, List.getLast?_reverse, List.head?_cons]
  | case3 H T Key LastMatch I0 N child value h s v hv hc hp =>
    rw [findPrefixesNode, dif_pos h]
    simp only [hc, hv, if_neg hp, List.getLast?_reverse, hAcc]
  | case4 H T Key LastMatch I0 N child value h s hv hc =>
    rw [findPrefixesNode, dif_pos h]
    simp only [hc, hv, List.getLast?_reverse, hAcc]
  | case5 H T Key LastMatch I0 N child value h =>
    rw [findPrefixesNode, dif_neg h, List.getLast?_reverse, hAcc]
  | case6 S Key LastMatch node hne =>
    have hstop : findPrefixesNode S Key Acc node = Acc.reverse := by
      cases node with
      | suffix => cases S <;> rfl
      | tuple I0 N child value =>
        cases S with
        | nil => rfl
        | cons H T => exact absurd rfl (hne H T I0 N child value rfl)
    rw [hstop, List.getLast?_reverse, hAcc]

/-- A string is prefixed if a key is found. -/
theorem isPrefixed_eq (S Key : List Nat) {node : Node V} (hS : S ≠ []) (hn : node.isTuple = true) :
    isPrefixed S node = .ok (!(below Key node S).isEmpty) := by
  fun_induction isPrefixed S node generalizing Key with
  | case1 H I0 N child value h hv =>
    cases hc : child (slot h) with
    | suffix s => rw [below_end_none h _ _ hc hv]; rfl
    | tuple => rw [below_tuple h _ _ hc, hv]; rfl
  | case2 H I0 N child value h _ _ _ _ v hv hc => rw [below_tuple h _ _ hc, hv]; rfl
  | case3 H I0 N child value h v hv hc => rw [below_end h _ _ hc hv]; rfl
  | case4 H I0 N child value h b s v hv hc => rw [below_end h _ _ hc hv]; rfl
  | case5 H I0 N child value h => rw [below_out _ _ h]; rfl
  | case6 H T I0 N child value hT h I0' N' child' value' hv hc ih =>
    rw [ih (Key ++ [H]) hT rfl, below_tuple h _ _ hc, hv]
    rfl
  | case7 H T I0 N child value hT h _ _ _ _ v hv hc => rw [below_tuple h _ _ hc, hv]; rfl
  | case8 H T I0 N child value hT h s hv hc => rw [below_end_none h _ _ hc hv]; rfl
  | case9 H T I0 N child value hT h s v hv hc =>
    rw [below_end h _ _ hc hv]
    split
    · rename_i hs
      rw [hs, if_pos (List.isPrefixOf_iff_prefix.mpr (List.prefix_refl T))]
      rfl
    · cases s.isPrefixOf T <;> rfl
  | case10 H T I0 N child value hT h => rw [below_out _ _ h]; rfl
  | case11 => cases hn
  | case12 S node hs h₁ h₂ =>
    obtain ⟨H, T, rfl⟩ := List.exists_cons_of_ne_nil hS
    cases node with
    | suffix => cases hn
    | tuple I0 N child value => exact (h₂ H T I0 N child value rfl rfl).elim

/-- A key has a character that is not excluded. -/
def accepts (Exclude Key : List Nat) : Bool := Key.any fun c => !Exclude.contains c

theorem accepts_concat (Exclude Key : List Nat) (H : Nat) :
    accepts Exclude (Key ++ [H]) = (accepts Exclude Key || !Exclude.contains H) := by
  simp [accepts]

theorem isPrefixedMatchCheck_eq (Exclude Key s T : List Nat) :
    isPrefixedMatchCheck Exclude s T (accepts Exclude Key) = (s.isPrefixOf T && accepts Exclude (Key ++ s)) := by
  induction s generalizing Key T with
  | nil => rw [List.append_nil]; rfl
  | cons b s ih =>
    cases T with
    | nil => rfl
    | cons c T =>
      rw [isPrefixedMatchCheck, ← accepts_concat, ih]
      by_cases hb : b = c
      · simp [hb]
      · simp [hb]

/-- A string has an acceptable prefix if a key that is found has a character
that is not excluded. -/
theorem isPrefixedMatch_eq (Exclude S Key : List Nat) {Matched : Bool} (hM : Matched = accepts Exclude Key)
    {node : Node V} (hS : S ≠ []) (hn : node.isTuple = true) :
    isPrefixedMatch Exclude S Matched node = .ok ((below Key node S).any fun p => accepts Exclude p.1) := by
  fun_induction isPrefixedMatch Exclude S Matched node generalizing Key with
  | case1 H Matched I0 N child value h hv =>
    cases hc : child (slot h) with
    | suffix s => rw [below_end_none h _ _ hc hv]; rfl
    | tuple => rw [below_tuple h _ _ hc, hv]; rfl
  | case2 H Matched I0 N child value h _ _ _ _ v hv hc =>
    rw [below_tuple h _ _ hc, hv, hM, ← accepts_concat]
    exact congrArg _ (Bool.or_false _).symm
  | case3 H Matched I0 N child value h v hv hc =>
    rw [below_end h _ _ hc hv, hM, ← accepts_concat]
    simp
  | case4 H Matched I0 N child value h b s v hv hc => rw [below_end h _ _ hc hv]; rfl
  | case5 H Matched I0 N child value h => rw [below_out _ _ h]; rfl
  | case6 H T Matched I0 N child value hT h I0' N' child' value' hv hc ih =>
    rw [ih (Key ++ [H]) (by rw [hM, accepts_concat]) hT rfl, below_tuple h _ _ hc, hv]
    rfl
  | case7 H T Matched I0 N child value hT h _ _ _ _ v hv hc hm =>
    rw [hM, ← accepts_concat] at hm
    rw [below_tuple h _ _ hc, hv, List.any_append]
    simp [hm]
  | case8 H T Matched I0 N child value hT h _ _ _ _ v hv hc hm ih =>
    rw [hM, ← accepts_concat, Bool.not_eq_true] at hm
    rw [ih (Key ++ [H]) hm.symm hT rfl, below_tuple h _ _ hc, hv, List.any_append]
    simp [hm]
  | case9 H T Matched I0 N child value hT h s hv hc => rw [below_end_none h _ _ hc hv]; rfl
  | case10 H T Matched I0 N child value hT h s v hv hc =>
    rw [hM, ← accepts_concat, isPrefixedMatchCheck_eq, below_end h _ _ hc hv]
    cases s.isPrefixOf T <;> simp
  | case11 H T Matched I0 N child value hT h => rw [below_out _ _ h]; rfl
  | case12 => cases hn
  | case13 S Matched node hs h₁ h₂ =>
    obtain ⟨H, T, rfl⟩ := List.exists_cons_of_ne_nil hS
    cases node with
    | suffix => cases hn
    | tuple I0 N child value => exact (h₂ H T I0 N child value rfl rfl).elim

/-- Below the root are the prefixes of a string that are held. -/
theorem mem_below {node : Node V} (hn : node.isTuple = true) {S k : List Nat} {x : V} :
    (k, x) ∈ below [] node S ↔ lookup node k = some x ∧ k <+: S := by
  cases node with
  | suffix => cases hn
  | tuple I0 N child value =>
    cases S with
    | nil =>
      rw [below, List.prefix_nil]
      constructor
      · exact fun h => absurd h List.not_mem_nil
      · rintro ⟨h, rfl⟩
        cases h
    | cons H T =>
      rw [below, mem_prefixesFrom]
      constructor
      · rintro ⟨t, rfl, ht, hp⟩
        exact ⟨ht, List.cons_prefix_cons.mpr ⟨rfl, hp⟩⟩
      · rintro ⟨hk, hp⟩
        cases k with
        | nil => cases hk
        | cons H' t =>
          obtain ⟨rfl, hpre⟩ := List.cons_prefix_cons.mp hp
          exact ⟨t, rfl, hk, hpre⟩

theorem below_sorted (Key : List Nat) (node : Node V) (S : List Nat) :
    (below Key node S).Pairwise fun p q => p.1.length < q.1.length := by
  cases S with
  | nil => exact .nil
  | cons H T => exact prefixesFrom_sorted

end Walk

/-! ## The prefixes that are stored -/

/-- A trie that `store/3` builds, with `erase/2` of keys that are stored, and
the values that are stored. -/
inductive BuiltOf : Node V → (List Nat → Option V) → Prop where
  | new : BuiltOf (.suffix []) fun _ => none
  | store {node node' : Node V} {m : List Nat → Option V} {Key : List Nat} {NewValue : V} (hKey : Key ≠ [])
    (h : BuiltOf node m) (hr : Trie.store Key NewValue node = .ok node') :
    BuiltOf node' (Function.update m Key (some NewValue))
  | erase {node node' : Node V} {m : List Nat → Option V} {Key : List Nat} (hKey : Key ≠ [])
    (h : BuiltOf node m) (hheld : m Key ≠ none) (hr : Trie.erase Key node = .ok node') :
    BuiltOf node' (Function.update m Key none)

theorem BuiltOf.holds {node : Node V} {m : List Nat → Option V} (h : BuiltOf node m) :
    IsTrie node ∧ Clean node ∧ lookup node = m := by
  induction h with
  | new => exact ⟨.inl rfl, trivial, funext lookup_suffix_nil⟩
  | store hKey _ hr ih =>
    obtain ⟨ht, hclean, rfl⟩ := ih
    obtain ⟨node', hr', ht', hclean', hl⟩ := store_spec ht hclean hKey _
    cases hr.symm.trans hr'
    exact ⟨.inr ht', hclean', hl⟩
  | erase hKey _ hheld hr ih =>
    obtain ⟨ht, hclean, rfl⟩ := ih
    obtain ⟨node', hr', ht', hclean', hl⟩ := erase_spec ht hclean hKey hheld
    cases hr.symm.trans hr'
    exact ⟨.inr ht', hclean', hl⟩

/-- The four functions answer by the list of the stored keys that are prefixes of the string. -/
theorem find_prefixes_stored {node : Node V} {m : List Nat → Option V} (h : BuiltOf node m) {S : List Nat}
    (hS : S ≠ []) :
    ∃ l, findPrefixes S node = .ok l ∧ (∀ k x, (k, x) ∈ l ↔ m k = some x ∧ k <+: S) ∧
      l.Pairwise (fun p q => p.1.length < q.1.length) ∧
      findPrefixLongest S node = .ok l.getLast? ∧
      (∃ b, isPrefixed S node = .ok b ∧ (b = true ↔ l ≠ [])) ∧
      ∀ Exclude, ∃ b, isPrefixed3 S Exclude node = .ok b ∧
        (b = true ↔ ∃ k, m k ≠ none ∧ k <+: S ∧ ∃ c ∈ k, c ∉ Exclude) := by
  obtain ⟨ht, -, rfl⟩ := h.holds
  rcases ht with rfl | hn
  · have hnone : ∀ k, lookup (suffix [] : Node V) k = none := lookup_suffix_nil
    refine ⟨[], rfl, fun k x => ?_, .nil, rfl, ⟨false, by rw [isPrefixed], by simp⟩, fun Exclude =>
      ⟨false, by rw [isPrefixed3, isPrefixedMatch], ?_⟩⟩
    · simp [hnone]
    · simp [hnone]
  · have hfind : findPrefixes S node = .ok (below [] node S) := by
      cases node with
      | suffix => cases hn
      | tuple => exact congrArg _ (findPrefixesNode_eq S [] [] hn)
    have hlongest : findPrefixLongest S node = .ok (below [] node S).getLast? := by
      cases node with
      | suffix => cases hn
      | tuple I0 N child value =>
        rw [findPrefixLongest, findPrefixLongestNode_eq S [] none [] rfl, findPrefixesNode_eq S [] [] hn]
        rfl
    refine ⟨below [] node S, hfind, fun k x => mem_below hn, below_sorted [] node S, hlongest,
      ⟨_, isPrefixed_eq S [] hS hn, by simp⟩, fun Exclude =>
      ⟨_, isPrefixedMatch_eq Exclude S [] rfl hS hn, ?_⟩⟩
    rw [List.any_eq_true]
    constructor
    · rintro ⟨⟨k, x⟩, hk, haccepts⟩
      obtain ⟨hheld, hp⟩ := (mem_below hn).mp hk
      obtain ⟨c, hc, hx⟩ := List.any_eq_true.mp haccepts
      exact ⟨k, by rw [hheld]; exact Option.some_ne_none x, hp, c, hc, by simpa using hx⟩
    · rintro ⟨k, hk, hp, c, hc, hx⟩
      obtain ⟨x, hx'⟩ := Option.ne_none_iff_exists'.mp hk
      exact ⟨(k, x), (mem_below hn).mpr ⟨hx', hp⟩, List.any_eq_true.mpr ⟨c, hc, by simpa using hx⟩⟩

/-- The key `ab` is the one prefix of `abc`, and has a character other than `a`. -/
theorem find_prefixes_stored_ab :
    (∃ l, findPrefixes [97, 98, 99] (single 97 (.suffix [98]) (some 1)) = .ok l ∧ ([97, 98], 1) ∈ l) ∧
      ∃ b, isPrefixed3 [97, 98, 99] [97] (single 97 (.suffix [98]) (some 1)) = .ok b ∧ b = true := by
  have hbuilt : BuiltOf (single 97 (.suffix [98]) (some 1)) (Function.update (fun _ => none) [97, 98] (some 1)) :=
    .store (by decide) .new rfl
  obtain ⟨l, hl, hmem, -, -, -, h3⟩ := find_prefixes_stored hbuilt (show [97, 98, 99] ≠ [] by decide)
  obtain ⟨b, hb, hiff⟩ := h3 [97]
  refine ⟨⟨l, hl, (hmem _ _).mpr ⟨Function.update_self .., by decide⟩⟩, b, hb, hiff.mpr ?_⟩
  refine ⟨[97, 98], ?_, by decide, 98, by decide, by decide⟩
  rw [Function.update_self]
  exact Option.some_ne_none 1

end CloudI.Trie
