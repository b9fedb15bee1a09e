import CloudI.Framework.Run
import CloudI.Trie.FindMatch

/-!
# The patterns stored in a trie

A trie built by `store/3` alone branches exactly where two stored patterns
share a prefix (`store_stores`), so its shape is known from the patterns and
`find_match/2` can be judged by them: `find_match_correct_iff` says when its
answer is correct, and `find_match_crash` has a string for which it raises.
-/

namespace CloudI.Trie

open Node Wildcard

variable {V : Type}

/-- Two keys held have the prefix `p`. -/
def Branches (held : List Nat → Option V) (p : List Nat) : Prop :=
  ∃ k₁ k₂, k₁ ≠ k₂ ∧ p <+: k₁ ∧ p <+: k₂ ∧ held k₁ ≠ none ∧ held k₂ ≠ none

/-! ## Where a trie has tuples -/

/-- A node is a tuple wherever two of its keys share a prefix. -/
theorem isTupleAt_of_branches {c : Node V} {w : Option V} {p : List Nat} (h : Branches (c.content w) p) :
    isTupleAt c p = true := by
  induction p generalizing c w with
  | nil =>
    obtain ⟨k₁, k₂, hne, -, -, h₁, h₂⟩ := h
    cases c with
    | tuple => rfl
    | suffix s =>
      rw [content_suffix] at h₁ h₂
      have e₁ : k₁ = s := by_contra fun hk => h₁ (if_neg hk)
      have e₂ : k₂ = s := by_contra fun hk => h₂ (if_neg hk)
      exact absurd (e₁.trans e₂.symm) hne
  | cons H p ih =>
    obtain ⟨_, _, hne, ⟨t₁, rfl⟩, ⟨t₂, rfl⟩, h₁, h₂⟩ := h
    cases c with
    | suffix s =>
      rw [content_suffix] at h₁ h₂
      have e₁ : H :: p ++ t₁ = s := by_contra fun hk => h₁ (if_neg hk)
      have e₂ : H :: p ++ t₂ = s := by_contra fun hk => h₂ (if_neg hk)
      exact absurd (e₁.trans e₂.symm) hne
    | tuple I0 N child value =>
      rw [List.cons_append] at h₁ h₂
      by_cases hr : InRange H I0 N
      · rw [content_tuple_cons _ _ hr] at h₁ h₂
        rw [isTupleAt, dif_pos hr]
        exact ih ⟨p ++ t₁, p ++ t₂, fun he => hne (by simp [he]), List.prefix_append .., List.prefix_append ..,
          h₁, h₂⟩
      · rw [content_tuple_out _ _ hr] at h₁
        exact absurd rfl h₁

section Slots

variable {I0 N : Nat} {child : Fin (N + 1) → Node V} {value : Fin (N + 1) → Option V} {H : Nat}

theorem isTupleAt_tuple_cons (h : InRange H I0 N) (T : List Nat) :
    isTupleAt (.tuple I0 N child value) (H :: T) = isTupleAt (child (slot h)) T := dif_pos h

theorem isTupleAt_tuple_out (h : ¬ InRange H I0 N) (T : List Nat) :
    isTupleAt (.tuple I0 N child value) (H :: T) = false := dif_neg h

/-- Replacing a slot only changes the tuples below it. -/
theorem isTupleAt_setSlot (h : InRange H I0 N) (c : Node V) (w : Option V) (H' : Nat) (T : List Nat) :
    isTupleAt (setSlot I0 child value (slot h) c w) (H' :: T) =
      if H' = H then isTupleAt c T else isTupleAt (.tuple I0 N child value) (H' :: T) := by
  by_cases h' : InRange H' I0 N
  · rw [setSlot, isTupleAt_tuple_cons h', isTupleAt_tuple_cons h']
    by_cases hH : H' = H
    · subst hH
      rw [Function.update_self, if_pos rfl]
    · rw [Function.update_of_ne fun hs => hH ((slot_inj h' h).mp hs), if_neg hH]
  · have hH : H' ≠ H := fun hH => h' (hH ▸ h)
    rw [setSlot, isTupleAt_tuple_out h', isTupleAt_tuple_out h', if_neg hH]

theorem isTupleAt_tupleMove {I M off : Nat} (hI : I + off = I0) (hM : N + off ≤ M) (H' : Nat) (T : List Nat) :
    isTupleAt (.tuple I M (tupleMove off M child (.suffix [])) (tupleMove off M value none)) (H' :: T) =
      isTupleAt (.tuple I0 N child value) (H' :: T) := by
  by_cases h : InRange H' I M
  · rw [isTupleAt_tuple_cons h]
    by_cases h' : InRange H' I0 N
    · have hb : off ≤ (slot h).val ∧ (slot h).val - off ≤ N := by simp only [slot]; omega
      have hs : (⟨(slot h).val - off, by omega⟩ : Fin (N + 1)) = slot h' := by
        simp only [slot, Fin.mk.injEq]
        omega
      rw [isTupleAt_tuple_cons h', tupleMove, dif_pos hb, hs]
    · have hb : ¬ (off ≤ (slot h).val ∧ (slot h).val - off ≤ N) := by simp only [slot]; omega
      rw [isTupleAt_tuple_out h', tupleMove, dif_neg hb, isTupleAt_suffix]
  · rw [isTupleAt_tuple_out h, isTupleAt_tuple_out (by omega)]

/-- A slot that holds the end of a key adds no tuple. -/
theorem isTupleAt_of_suffix (h : InRange H I0 N) {s : List Nat} {w : Option V} {H' : Nat} {T : List Nat}
    (hp : isTupleAt (setSlot I0 child value (slot h) (.suffix s) w) (H' :: T) = true) :
    isTupleAt (.tuple I0 N child value) (H' :: T) = true := by
  rw [isTupleAt_setSlot] at hp
  split at hp
  · rw [isTupleAt_suffix] at hp
    exact nomatch hp
  · exact hp

end Slots

theorem isTupleAt_single {BH : Nat} {s : List Nat} {w : Option V} {T : List Nat}
    (h : isTupleAt (single BH (.suffix s) w) T = true) : T = [] := by
  cases T with
  | nil => rfl
  | cons H T =>
    rw [single, isTupleAt] at h
    split at h
    · rw [isTupleAt_suffix] at h
      cases h
    · cases h

/-- Where a write makes a tuple, the key written and another key held meet. -/
def NewTuple (node : Node V) (K p : List Nat) : Prop :=
  p <+: K ∧ ∃ k, k ≠ K ∧ p <+: k ∧ node.content none k ≠ none

section

variable {H I0 N : Nat} {T : List Nat} {child : Fin (N + 1) → Node V} {value : Fin (N + 1) → Option V}
  {H' : Nat} {T' : List Nat}

theorem newTuple_open (h : InRange H I0 N) (hclean : Clean (.tuple I0 N child value)) {BH : Nat} {BT : List Nat}
    (hc : child (slot h) = .suffix (BH :: BT)) (hT : BH :: BT ≠ T)
    (hp : isTupleAt (setSlot I0 child value (slot h) (single BH (.suffix BT) (value (slot h))) none)
        (H' :: T') = true ∨
      NewTuple (setSlot I0 child value (slot h) (single BH (.suffix BT) (value (slot h))) none) (H :: T)
        (H' :: T')) :
    isTupleAt (.tuple I0 N child value) (H' :: T') = true ∨
      NewTuple (.tuple I0 N child value) (H :: T) (H' :: T') := by
  have hsame := @content_setSlot_same _ _ _ child value _ h _ _
    ((content_open BH BT (value (slot h))).trans (by rw [hc])) none
  rcases hp with hp | hp
  · rw [isTupleAt_setSlot] at hp
    split at hp
    · rename_i hH
      obtain rfl := isTupleAt_single hp
      subst hH
      refine .inr ⟨List.prefix_append [H'] T, H' :: BH :: BT, fun he => hT (List.cons.inj he).2,
        List.prefix_append [H'] _, ?_⟩
      rw [content_tuple_cons _ _ h, hc, content_suffix, if_pos rfl]
      exact (hclean (slot h)).2 BH BT hc
    · exact .inl hp
  · rw [NewTuple, hsame] at hp
    exact .inr hp

theorem newTuple_child (h : InRange H I0 N) {H1 : Nat} {T1 : List Nat} (ht : (child (slot h)).isTuple = true)
    {H2 : Nat} {T2 : List Nat} (hp : NewTuple (child (slot h)) (H1 :: T1) (H2 :: T2)) :
    NewTuple (.tuple I0 N child value) (H :: H1 :: T1) (H :: H2 :: T2) := by
  obtain ⟨hpre, k, hne, hk, hheld⟩ := hp
  refine ⟨List.cons_prefix_cons.mpr ⟨rfl, hpre⟩, H :: k, fun he => hne (List.cons.inj he).2,
    List.cons_prefix_cons.mpr ⟨rfl, hk⟩, ?_⟩
  obtain ⟨t, rfl⟩ := hk
  rw [content_tuple_cons _ _ h, List.cons_append, content_cons_irrel ht _ none]
  exact hheld

end

theorem writeNode_isTupleAt {new : V} {put overwrite : Option V → Except Exn V} {H : Nat} {T : List Nat}
    {node node' : Node V} (hclean : Clean node) (hw : writeNode new put overwrite H T node = .ok node')
    {H' : Nat} {T' : List Nat} (hp : isTupleAt node' (H' :: T') = true) :
    isTupleAt node (H' :: T') = true ∨ NewTuple node (H :: T) (H' :: T') := by
  fun_induction writeNode new put overwrite H T node generalizing node' H' T' with
  | case1 => cases hw
  | case2 H T I0 N child value hlo h =>
    cases hw
    have := isTupleAt_of_suffix h hp
    rw [isTupleAt_tupleMove (show H + (I0 - H) = I0 by omega) (by omega)] at this
    exact .inl this
  | case3 H T I0 N child value hlo hhi h =>
    cases hw
    have := isTupleAt_of_suffix h hp
    rw [isTupleAt_tupleMove (show I0 + 0 = I0 by omega) (by omega)] at this
    exact .inl this
  | case4 H I0 N child value hlo hhi h BH BT hc ih =>
    exact newTuple_open h hclean hc (List.cons_ne_nil _ _) (ih (clean_open hclean hc) hw hp)
  | case5 H I0 N child value hlo hhi h hne =>
    cases hput : put (value (slot h)) with
    | error e => rw [hput] at hw; cases hw
    | ok y =>
      rw [hput] at hw
      cases hw
      rw [isTupleAt_setSlot] at hp
      split at hp
      · rename_i hH
        rw [hH, isTupleAt_tuple_cons h]
        exact .inl hp
      · exact .inl hp
  | case6 H I0 N child value hlo hhi h H1 T1 I0' N' child' value' hc ih =>
    cases hr : writeNode new put overwrite H1 T1 (.tuple I0' N' child' value') with
    | error e => rw [hr] at hw; cases hw
    | ok c =>
      rw [hr] at hw
      cases hw
      rw [isTupleAt_setSlot] at hp
      split at hp
      · rename_i hH
        subst hH
        cases T' with
        | nil =>
          rw [isTupleAt_tuple_cons h, hc]
          exact .inl rfl
        | cons H2 T2 =>
          rcases ih (hc ▸ (hclean (slot h)).1) hr hp with hold | hnew
          · rw [isTupleAt_tuple_cons h, hc]
            exact .inl hold
          · rw [← hc] at hnew
            exact .inr (newTuple_child h (by rw [hc]; rfl) hnew)
      · exact .inl hp
  | case7 H I0 N child value hlo hhi h H1 T1 hc =>
    cases hput : overwrite (value (slot h)) with
    | error e => rw [hput] at hw; cases hw
    | ok y =>
      rw [hput] at hw
      cases hw
      exact .inl (isTupleAt_of_suffix h hp)
  | case8 H I0 N child value hlo hhi h H1 T1 _ hv hc =>
    cases hw
    exact .inl (isTupleAt_of_suffix h hp)
  | case9 H I0 N child value hlo hhi h H1 T1 _ v hv hc =>
    cases hw
    rw [isTupleAt_setSlot] at hp
    split at hp
    · rename_i hH
      obtain rfl := isTupleAt_single hp
      subst hH
      refine .inr ⟨List.prefix_append [H'] _, [H'], by simp, List.prefix_rfl, ?_⟩
      rw [content_tuple_cons _ _ h, hc, hv]
      exact Option.some_ne_none v
    · exact .inl hp
  | case10 H I0 N child value hlo hhi h H1 T1 BH BT hc _ hne ih =>
    exact newTuple_open h hclean hc hne (ih (clean_open hclean hc) hw hp)

/-! ## Tries built by `store/3` -/

/-- A nonempty pattern without `**`. -/
abbrev Pattern := { K : List Nat // K ≠ [] ∧ NoDouble star K }

/-- The trie after storing the patterns in turn. -/
def storeAll (ops : List (Pattern × V)) : Except Exn (Node V) :=
  ops.foldlM (fun node op => store op.1.val op.2 node) (.suffix [])

/-- The value stored last for each pattern. -/
def stored (ops : List (Pattern × V)) : List Nat → Option V :=
  ops.foldl (fun m op => Function.update m op.1.val (some op.2)) fun _ => none

/-- A trie that holds the patterns of `m` and branches only between them. -/
structure Stores (node : Node V) (m : List Nat → Option V) : Prop where
  trie : IsTrie node
  clean : Clean node
  lookup_eq : lookup node = m
  patterns : ∀ K v, m K = some v → K ≠ [] ∧ NoDouble star K
  branches : ∀ p ≠ [], isTupleAt node p = true → Branches m p

theorem Branches.update {m : List Nat → Option V} {p : List Nat} (h : Branches m p) (K : List Nat) (v : V) :
    Branches (Function.update m K (some v)) p := by
  obtain ⟨k₁, k₂, hne, hp₁, hp₂, h₁, h₂⟩ := h
  have hheld : ∀ k, m k ≠ none → Function.update m K (some v) k ≠ none := fun k hk => by
    rw [Function.update_apply]
    split
    · exact Option.some_ne_none v
    · exact hk
  exact ⟨k₁, k₂, hne, hp₁, hp₂, hheld k₁ h₁, hheld k₂ h₂⟩

/-- A trie that branches only between its keys still does so after a store. -/
theorem store_branches {node node' : Node V} (ht : IsTrie node) (hclean : Clean node)
    (hb : ∀ p ≠ [], isTupleAt node p = true → Branches (lookup node) p) {K : List Nat} (hK : K ≠ []) {v : V}
    (hr : store K v node = .ok node') {p : List Nat} (hp : p ≠ []) (hdeep : isTupleAt node' p = true) :
    Branches (Function.update (lookup node) K (some v)) p := by
  obtain ⟨H, T, rfl⟩ := List.exists_cons_of_ne_nil hK
  obtain ⟨H', T', rfl⟩ := List.exists_cons_of_ne_nil hp
  rcases ht with rfl | ht
  · cases hr
    exact nomatch isTupleAt_single hdeep
  · cases node with
    | suffix => exact nomatch ht
    | tuple =>
      rcases writeNode_isTupleAt hclean hr hdeep with hold | ⟨hpre, k, hne, hk, hheld⟩
      · exact (hb _ hp hold).update _ v
      · refine ⟨H :: T, k, hne.symm, hpre, hk, ?_, ?_⟩
        · rw [Function.update_self]
          exact Option.some_ne_none v
        · rwa [Function.update_of_ne hne]

/-- Storing a pattern. -/
theorem store_stores {node : Node V} {m : List Nat → Option V} (h : Stores node m) (K : Pattern) (v : V) :
    ∃ node', store K.val v node = .ok node' ∧ Stores node' (Function.update m K.val (some v)) := by
  obtain ⟨node', hr, ht', hclean', hl⟩ := store_spec h.trie h.clean K.property.1 v
  have hb := h.branches
  rw [← h.lookup_eq] at hb
  refine ⟨node', hr, .inr ht', hclean', by rw [hl, h.lookup_eq], fun K' v' hK' => ?_, fun p hp hdeep => ?_⟩
  · rw [Function.update_apply] at hK'
    split at hK'
    · rename_i heq
      rw [heq]
      exact K.property
    · exact h.patterns K' v' hK'
  · rw [← h.lookup_eq]
    exact store_branches h.trie h.clean hb K.property.1 hr hp hdeep

/-- Every sequence of stores succeeds. -/
theorem storeAll_stores (ops : List (Pattern × V)) :
    ∃ node, storeAll ops = .ok node ∧ Stores node (stored ops) := by
  refine foldlM_foldl (fun (m : List Nat → Option V) (op : Pattern × V) => Function.update m op.1.val (some op.2))
      Stores
    (fun op h => store_stores h op.1 op.2) ops ⟨.inl rfl, trivial, funext lookup_suffix_nil, nofun, fun p _ hp => ?_⟩
  rw [isTupleAt_suffix] at hp
  exact nomatch hp

/-! ## The answer of `find_match/2` -/

/-- The answer is right: the call returns normally, a pattern it returns is
stored with that value and matches, and it returns `error` only when no stored
pattern matches. -/
def Correct (ops : List (Pattern × V)) (Match : List Nat) : Prop :=
  ∃ r, (do findMatch Match (← storeAll ops)) = .ok r ∧
    (∀ P v, r = some (P, v) → stored ops P = some v ∧ Match ∈ language star P) ∧
    (r = none → ∀ P, stored ops P ≠ none → Match ∉ language star P)

/-- The string has a reading in which its last character is literal right
after a character read by a wildcard, two stored patterns share the pattern of
that reading as a prefix, and no reading before it (literal before wild, from
the left) gives a stored pattern. -/
def EndsBeforeBranch (ops : List (Pattern × V)) (Match : List Nat) : Prop :=
  ∃ m : List Bool, m.length = Match.length ∧ [true, false] <:+ m ∧
    Branches (stored ops) (render star false m Match) ∧
    ∀ m' < m, m'.length = Match.length → stored ops (render star false m' Match) = none

theorem render_ne_nil {m : List Bool} {w : List Nat} (hm : m.length = w.length) (hw : w ≠ []) :
    render star false m w ≠ [] := by
  obtain ⟨h, t, rfl⟩ := List.exists_cons_of_ne_nil hw
  obtain ⟨b, m, rfl⟩ := List.exists_cons_of_length_eq_add_one hm
  cases b <;> exact List.cons_ne_nil _ _

/-- The search over the patterns stored is blocked where the string ends before a branch. -/
theorem blocked_iff {ops : List (Pattern × V)} {node : Node V} (h : Stores node (stored ops)) {Match : List Nat}
    (hne : Match ≠ []) :
    Blocked star false (stored ops) (isTupleAt node) Match ↔ EndsBeforeBranch ops Match := by
  have hsuf : ∀ m : List Bool, [true, false] <:+ false :: m ↔ [true, false] <:+ m := fun m => by
    rw [List.suffix_cons_iff]
    exact or_iff_right nofun
  have hdeep : ∀ m : List Bool, m.length = Match.length →
      (isTupleAt node (render star false m Match) = true ↔
        Branches (stored ops) (render star false m Match)) := fun m hm => by
    refine ⟨h.branches _ (render_ne_nil hm hne), fun hb => ?_⟩
    rw [← h.lookup_eq] at hb
    exact isTupleAt_of_branches hb
  constructor
  · rintro ⟨m, hm, hs, hd, hmin⟩
    exact ⟨m, hm, (hsuf m).mp hs, (hdeep m hm).mp hd, hmin⟩
  · rintro ⟨m, hm, hs, hd, hmin⟩
    exact ⟨m, hm, (hsuf m).mpr hs, (hdeep m hm).mpr hd, hmin⟩

/-- The call is the search over the patterns stored. -/
theorem findMatch_answer {node : Node V} {m : List Nat → Option V} (h : Stores node m) {Match : List Nat}
    (hne : Match ≠ []) (hstar : star ∉ Match) :
    findMatch Match node = answer [] (search star false m (isTupleAt node) Match) := by
  have hheld : node.content none = m := h.lookup_eq
  rcases h.trie with rfl | ht
  · rw [← hheld, search_suffix_none]
    rfl
  · have hp : Patterns [] (node.content none) := fun k x hk => (h.patterns k x (by rw [← hheld, hk])).2
    rw [← hheld, ← (findMatch_search hstar).1 [] node none ht hp hne]
    cases node with
    | suffix => exact nomatch ht
    | tuple => rfl

/-- The answer is right exactly when the string does not end before a branch. -/
theorem find_match_correct_iff (ops : List (Pattern × V)) (Match : List Nat) (hne : Match ≠ [])
    (hstar : star ∉ Match) : Correct ops Match ↔ ¬ EndsBeforeBranch ops Match := by
  obtain ⟨node, hrun, h⟩ := storeAll_stores ops
  rw [Correct, hrun, ← blocked_iff h hne, ← search_stuck]
  change (∃ r, findMatch Match node = .ok r ∧ _) ↔ _
  rw [findMatch_answer h hne hstar]
  cases hs : search star false (stored ops) (isTupleAt node) Match with
  | found P v =>
    obtain ⟨m, hm, rfl, hv⟩ := search_found hs
    refine iff_of_true ⟨_, rfl, fun P' v' he => ?_, nofun⟩ nofun
    cases he
    exact ⟨hv, (render_mem hstar hm).1⟩
  | missing =>
    refine iff_of_true ⟨_, rfl, nofun, fun _ P hP hmem => hP ?_⟩ nofun
    obtain ⟨v, hv⟩ := Option.ne_none_iff_exists'.mp hP
    obtain ⟨m, hm, rfl⟩ := (exists_render hstar).1 (h.patterns P v hv).2 hmem
    exact search_missing hs hm
  | stuck => exact iff_of_false (fun ⟨_, hr, _⟩ => nomatch hr) fun hn => hn rfl

/-- Of the patterns `a` and `*b`, the string `xb` gets the right answer. -/
theorem find_match_correct_wild :
    Correct [(⟨[97], by decide⟩, 1), (⟨[star, 98], by decide⟩, 2)] [120, 98] := by
  refine (find_match_correct_iff _ _ (by decide) (by decide)).mpr ?_
  rintro ⟨m, hm, hsuf, ⟨k₁, k₂, hne, hp₁, hp₂, h₁, h₂⟩, -⟩
  obtain rfl := hsuf.eq_of_length hm.symm
  have hkey : ∀ k, [star, 98] <+: k →
      stored [((⟨[97], by decide⟩ : Pattern), 1), (⟨[star, 98], by decide⟩, 2)] k ≠ none → k = [star, 98] := by
    intro k hk hs
    by_contra hne
    refine hs ((Function.update_of_ne hne ..).trans (Function.update_of_ne ?_ ..))
    rintro rfl
    exact absurd hk (by decide)
  exact hne ((hkey k₁ hp₁ h₁).trans (hkey k₂ hp₂ h₂).symm)

/-- The string `x/` ends before the branch of the patterns `*/a` and `*/b`, and
the call raises. -/
theorem find_match_crash :
    ¬ Correct [(⟨[star, 47, 97], by decide⟩, 1), (⟨[star, 47, 98], by decide⟩, 2)] [120, 47] := by
  rintro ⟨r, hr, -⟩
  have hcrash : (do findMatch [120, 47] (← storeAll [((⟨[star, 47, 97], by decide⟩ : Pattern), 1),
      (⟨[star, 47, 98], by decide⟩, 2)])) = Except.error Exn.functionClause := by decide +kernel
  exact nomatch hr.symm.trans hcrash

end CloudI.Trie
