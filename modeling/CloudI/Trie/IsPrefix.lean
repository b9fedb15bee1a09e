import CloudI.Trie.FiniteMap
import CloudI.Trie.StoredPatterns

/-!
# The prefixes in a trie

`is_prefix/2` looks for an inner node or a value at the end of a string, and
an inner node stays when the keys below it are erased. `Written`, `Erased` and
`Loses` say what an operation does to the inner nodes and the values, also in a
trie where an `erase/2` has cut a compressed end. From them comes what the
answer says after any sequence of operations (`is_prefix_run`).
-/

namespace CloudI.Trie

open Node

variable {V : Type}

/-- `is_prefix/2` -/
def isPrefix : List Nat → Node V → Except Exn Bool
  | [H], .tuple I0 N child value =>
    if h : InRange H I0 N then
      match child (slot h), value (slot h) with
      | .tuple .., _ => .ok true
      | .suffix _, none => .ok false
      | .suffix _, some _ => .ok true
    else .ok false
  | H :: T, .tuple I0 N child value =>
    if h : InRange H I0 N then
      match child (slot h), value (slot h) with
      | .tuple I0' N' child' value', _ => isPrefix T (.tuple I0' N' child' value')
      | .suffix _, none => .ok false
      | .suffix s, some _ => .ok (if s = T then true else T.isPrefixOf s)
    else .ok false
  | _, .suffix [] => .ok false
  | _, _ => .error .functionClause

/-! ## What the function finds -/

/-- A slot has an inner node at the end of the string, or a key with the string as its prefix. -/
def Reaches (c : Node V) (v : Option V) (S : List Nat) : Prop :=
  isTupleAt c S = true ∨ ∃ k, S <+: k ∧ c.content v k ≠ none

section

variable {I0 N : Nat} {child : Fin (N + 1) → Node V} {value : Fin (N + 1) → Option V} {v : Option V} {H : Nat}

theorem reaches_slot (h : InRange H I0 N) (T : List Nat) :
    Reaches (.tuple I0 N child value) v (H :: T) ↔ Reaches (child (slot h)) (value (slot h)) T := by
  rw [Reaches, isTupleAt_tuple_cons h, Reaches]
  refine or_congr_right ⟨?_, ?_⟩
  · rintro ⟨_, ⟨t, rfl⟩, hk⟩
    rw [List.cons_append, content_tuple_cons _ _ h] at hk
    exact ⟨T ++ t, List.prefix_append T t, hk⟩
  · rintro ⟨k, hpre, hk⟩
    exact ⟨H :: k, List.cons_prefix_cons.mpr ⟨rfl, hpre⟩, by rwa [content_tuple_cons _ _ h]⟩

theorem not_reaches_out (h : ¬ InRange H I0 N) (T : List Nat) :
    ¬ Reaches (.tuple I0 N child value) v (H :: T) := by
  rintro (ht | ⟨_, ⟨t, rfl⟩, hk⟩)
  · rw [isTupleAt_tuple_out h] at ht
    cases ht
  · exact hk (content_tuple_out _ _ h)

theorem reaches_end (s : List Nat) (x : V) (T : List Nat) : Reaches (.suffix s) (some x) T ↔ T <+: s := by
  rw [Reaches, isTupleAt_suffix]
  constructor
  · rintro (h | ⟨k, hpre, hk⟩)
    · cases h
    · rw [content_suffix] at hk
      split at hk
      · rename_i hs
        rwa [hs] at hpre
      · exact absurd rfl hk
  · intro hpre
    refine .inr ⟨s, hpre, ?_⟩
    rw [content_suffix, if_pos rfl]
    exact Option.some_ne_none x

theorem not_reaches_end_none (s T : List Nat) : ¬ Reaches (.suffix s : Node V) none T := by
  rintro (h | ⟨k, -, hk⟩)
  · rw [isTupleAt_suffix] at h
    cases h
  · exact hk (content_suffix_none s k)

/-- The value of the node itself does not count below it. -/
theorem reaches_value {T : List Nat} (hT : T ≠ []) (v w : Option V) :
    Reaches (.tuple I0 N child value) v T ↔ Reaches (.tuple I0 N child value) w T := by
  obtain ⟨H, T, rfl⟩ := List.exists_cons_of_ne_nil hT
  by_cases h : InRange H I0 N
  · rw [reaches_slot h, reaches_slot h]
  · exact iff_of_false (not_reaches_out h T) (not_reaches_out h T)

end

theorem isPrefix_iff {node : Node V} (hn : node.isTuple = true) {S : List Nat} (hS : S ≠ []) :
    ∃ b, isPrefix S node = .ok b ∧ (b = true ↔ Reaches node none S) := by
  fun_induction isPrefix S node with
  | case1 H I0 N child value h _ _ _ _ hc =>
    refine ⟨true, rfl, iff_of_true rfl ?_⟩
    rw [reaches_slot h, hc]
    exact .inl rfl
  | case2 H I0 N child value h s hv hc =>
    refine ⟨false, rfl, iff_of_false Bool.false_ne_true ?_⟩
    rw [reaches_slot h, hc, hv]
    exact not_reaches_end_none s []
  | case3 H I0 N child value h s x hv hc =>
    refine ⟨true, rfl, iff_of_true rfl ?_⟩
    rw [reaches_slot h, hc, hv, reaches_end]
    exact List.nil_prefix
  | case4 H I0 N child value h =>
    exact ⟨false, rfl, iff_of_false Bool.false_ne_true (not_reaches_out h [])⟩
  | case5 H T I0 N child value hT h I0' N' child' value' hc ih =>
    have hne : T ≠ [] := fun he => hT he
    obtain ⟨b, hb, hiff⟩ := ih rfl hne
    refine ⟨b, hb, hiff.trans ?_⟩
    rw [reaches_slot h, hc]
    exact reaches_value hne _ _
  | case6 H T I0 N child value hT h s hv hc =>
    refine ⟨false, rfl, iff_of_false Bool.false_ne_true ?_⟩
    rw [reaches_slot h, hc, hv]
    exact not_reaches_end_none s T
  | case7 H T I0 N child value hT h s x hv hc =>
    refine ⟨_, rfl, ?_⟩
    rw [reaches_slot h, hc, hv, reaches_end]
    split
    · rename_i hs
      exact iff_of_true rfl (hs ▸ List.prefix_rfl)
    · exact List.isPrefixOf_iff_prefix
  | case8 H T I0 N child value hT h =>
    exact ⟨false, rfl, iff_of_false Bool.false_ne_true (not_reaches_out h T)⟩
  | case9 => cases hn
  | case10 S node h₁ h₂ h₃ =>
    obtain ⟨H, T, rfl⟩ := List.exists_cons_of_ne_nil hS
    cases node with
    | suffix => cases hn
    | tuple I0 N child value => exact (h₃ H T I0 N child value rfl rfl).elim

/-! ## Writing a key -/

/-- A key gets a value, the other keys keep theirs, and a new inner node is on the way to the key. -/
structure Written (K : List Nat) (node node' : Node V) : Prop where
  isTuple : node'.isTuple = true
  content : ∃ y, ∀ v, node'.content v = Function.update (node.content v) K (some y)
  tuples : ∀ p, isTupleAt node' p = true → isTupleAt node p = true ∨ p <+: K

theorem Written.of_same {K : List Nat} {node₀ node node' : Node V} (h : Written K node₀ node')
    (hcont : ∀ v, node₀.content v = node.content v)
    (htup : ∀ p, isTupleAt node₀ p = true → isTupleAt node p = true ∨ p <+: K) : Written K node node' where
  isTuple := h.isTuple
  content := by
    obtain ⟨y, hy⟩ := h.content
    exact ⟨y, fun v => by rw [hy, hcont]⟩
  tuples p hp := (h.tuples p hp).elim (htup p) .inr

section

variable {H I0 N : Nat} {T : List Nat} {child : Fin (N + 1) → Node V} {value : Fin (N + 1) → Option V}
  {c : Node V} {w : Option V} {y : V}

theorem written_setSlot (h : InRange H I0 N)
    (hcont : c.content w = Function.update ((child (slot h)).content (value (slot h))) T (some y))
    (htup : ∀ p, isTupleAt c p = true → isTupleAt (child (slot h)) p = true ∨ p <+: T) :
    Written (H :: T) (.tuple I0 N child value) (setSlot I0 child value (slot h) c w) := by
  refine ⟨rfl, ⟨y, content_setSlot h hcont⟩, fun p hp => ?_⟩
  cases p with
  | nil => exact .inr List.nil_prefix
  | cons H' T' =>
    rw [isTupleAt_setSlot] at hp
    split at hp
    · rename_i hH
      subst hH
      rw [isTupleAt_tuple_cons h]
      exact (htup T' hp).imp_right fun hpre => List.cons_prefix_cons.mpr ⟨rfl, hpre⟩
    · exact .inl hp

/-- A write to a slot that a larger tuple adds for `H`. -/
theorem written_grow {M off I : Nat} (h : InRange H I M) (hI : I + off = I0) (hM : N + off ≤ M)
    (hout : ¬ InRange H I0 N) :
    Written (H :: T) (.tuple I0 N child value)
      (setSlot I (tupleMove off M child (.suffix [])) (tupleMove off M value none) (slot h) (.suffix T) (some y)) := by
  have hsame := @content_tupleMove _ _ _ child value _ _ _ hI hM
  have hnone : (tupleMove off M child (.suffix []) (slot h)).content (tupleMove off M value none (slot h)) =
      fun _ => none := by
    funext k
    have := congrFun (hsame none) (H :: k)
    rwa [content_tuple_cons _ _ h, content_tuple_out _ _ hout] at this
  refine (written_setSlot (y := y) h ?_ fun p hp => ?_).of_same hsame fun p hp => ?_
  · rw [hnone]
    funext k
    rw [content_suffix, Function.update_apply]
  · rw [isTupleAt_suffix] at hp
    cases hp
  · cases p with
    | nil => exact .inl rfl
    | cons H' T' =>
      rw [isTupleAt_tupleMove hI hM] at hp
      exact .inl hp

/-- Opening the compressed end of a slot makes an inner node on the way. -/
theorem Written.open {node' : Node V} (h : InRange H I0 N) {BH : Nat} {BT : List Nat}
    (hc : child (slot h) = .suffix (BH :: BT))
    (hw : Written (H :: T) (setSlot I0 child value (slot h) (single BH (.suffix BT) (value (slot h))) none) node') :
    Written (H :: T) (.tuple I0 N child value) node' := by
  refine hw.of_same (content_setSlot_same h ((content_open BH BT (value (slot h))).trans (by rw [hc]))) fun p hp => ?_
  cases p with
  | nil => exact .inl rfl
  | cons H' T' =>
    rw [isTupleAt_setSlot] at hp
    split at hp
    · rename_i hH
      obtain rfl := isTupleAt_single hp
      exact .inr (hH ▸ List.prefix_append [H'] T)
    · exact .inl hp

end

theorem writeNode_written {new : V} {put overwrite : Option V → Except Exn V} {H : Nat} {T : List Nat}
    {node node' : Node V} (hw : writeNode new put overwrite H T node = .ok node') : Written (H :: T) node node' := by
  fun_induction writeNode new put overwrite H T node generalizing node' with
  | case1 => cases hw
  | case2 H T I0 N child value hlo h =>
    cases hw
    exact written_grow h (by omega) (by omega) (by omega)
  | case3 H T I0 N child value hlo hhi h =>
    cases hw
    exact written_grow h (by omega) (by omega) (by omega)
  | case4 H I0 N child value hlo hhi h BH BT hc ih => exact (ih hw).open h hc
  | case5 H I0 N child value hlo hhi h hne =>
    obtain ⟨y, -, hy⟩ := bind_eq_ok hw
    cases hy
    have hend : (child (slot h)).isTuple = true ∨ child (slot h) = .suffix [] := by
      cases hc : child (slot h) with
      | tuple => exact .inl rfl
      | suffix s =>
        cases s with
        | nil => exact .inr rfl
        | cons BH BT => exact (hne BH BT hc).elim
    exact written_setSlot h (content_set_value _ _ _ hend) fun p hp => .inl hp
  | case6 H I0 N child value hlo hhi h H1 T1 I0' N' child' value' hc ih =>
    obtain ⟨c, hr, hc'⟩ := bind_eq_ok hw
    cases hc'
    obtain ⟨-, ⟨y, hy⟩, htup⟩ := ih hr
    exact written_setSlot h (by rw [hc]; exact hy _) fun p hp => by rw [hc]; exact htup p hp
  | case7 H I0 N child value hlo hhi h H1 T1 hc =>
    obtain ⟨y, -, hy⟩ := bind_eq_ok hw
    cases hy
    refine written_setSlot (y := y) h ?_ fun p hp => ?_
    · funext k
      rw [hc, content_suffix, Function.update_apply, content_suffix]
      split <;> rfl
    · rw [isTupleAt_suffix] at hp
      cases hp
  | case8 H I0 N child value hlo hhi h H1 T1 _ hv hc =>
    cases hw
    refine written_setSlot (y := new) h ?_ fun p hp => ?_
    · funext k
      rw [hc, hv, content_suffix, Function.update_apply, content_suffix_none]
    · rw [isTupleAt_suffix] at hp
      cases hp
  | case9 H I0 N child value hlo hhi h H1 T1 _ v hv hc =>
    cases hw
    refine written_setSlot (y := new) h ?_ fun p hp => ?_
    · rw [hc, hv]
      exact content_newInstance H1 T1 (some new) (some v)
    · obtain rfl := isTupleAt_single hp
      exact .inr List.nil_prefix
  | case10 H I0 N child value hlo hhi h H1 T1 BH BT hc _ _ ih => exact (ih hw).open h hc

/-! ## Erasing, filtering and mapping -/

/-- The keys that lose their values: the erased one or, at a compressed end, all that the erased one is a prefix of. -/
structure Erased (K : List Nat) (node node' : Node V) : Prop where
  isTuple : node'.isTuple = true
  content : ∀ v k, node'.content v k = node.content v k ∨
    node'.content v k = none ∧ K <+: k ∧ (k = K ∨ isTupleAt node K = false)
  tuples : ∀ p, isTupleAt node' p = true → isTupleAt node p = true

theorem erased_same {K : List Nat} {node : Node V} (hn : node.isTuple = true) : Erased K node node :=
  ⟨hn, fun _ _ => .inl rfl, fun _ hp => hp⟩

theorem erased_setSlot {H I0 N : Nat} {T : List Nat} {child : Fin (N + 1) → Node V} {value : Fin (N + 1) → Option V}
    {c : Node V} {w : Option V} (h : InRange H I0 N)
    (hcont : ∀ k, c.content w k = (child (slot h)).content (value (slot h)) k ∨
      c.content w k = none ∧ T <+: k ∧ (k = T ∨ isTupleAt (child (slot h)) T = false))
    (htup : ∀ p, isTupleAt c p = true → isTupleAt (child (slot h)) p = true) :
    Erased (H :: T) (.tuple I0 N child value) (setSlot I0 child value (slot h) c w) := by
  refine ⟨rfl, fun v k => ?_, fun p hp => ?_⟩
  · cases k with
    | nil => exact .inl rfl
    | cons H' T' =>
      by_cases hH : H' = H
      · subst hH
        rw [setSlot, content_tuple_cons _ _ h, content_tuple_cons _ _ h, Function.update_self, Function.update_self,
          isTupleAt_tuple_cons h]
        rcases hcont T' with hsame | ⟨hnone, hpre, hend⟩
        · exact .inl hsame
        · exact .inr ⟨hnone, List.cons_prefix_cons.mpr ⟨rfl, hpre⟩, hend.imp_left fun he => by rw [he]⟩
      · left
        by_cases h' : InRange H' I0 N
        · have hs : slot h' ≠ slot h := fun hs => hH ((slot_inj h' h).mp hs)
          rw [setSlot, content_tuple_cons _ _ h', content_tuple_cons _ _ h', Function.update_of_ne hs,
            Function.update_of_ne hs]
        · rw [setSlot, content_tuple_out _ _ h', content_tuple_out _ _ h']
  · cases p with
    | nil => rfl
    | cons H' T' =>
      rw [isTupleAt_setSlot] at hp
      split at hp
      · rename_i hH
        subst hH
        rw [isTupleAt_tuple_cons h]
        exact htup T' hp
      · exact hp

theorem eraseNode_erased {H : Nat} {T : List Nat} {node node' : Node V} (hr : eraseNode H T node = .ok node') :
    Erased (H :: T) node node' := by
  fun_induction eraseNode H T node generalizing node' with
  | case1 => cases hr
  | case3 H I0 N child value h T hsome hc =>
    cases hr
    refine erased_setSlot h (fun k => ?_) fun p hp => ?_
    · rw [hc, content_suffix_none, content_suffix]
      split
      · rename_i hk
        exact .inr ⟨rfl, hk ▸ List.prefix_rfl, .inl hk⟩
      · exact .inl rfl
    · rw [isTupleAt_suffix] at hp
      cases hp
  | case5 H I0 N child value h s hc hsome hs =>
    cases hr
    refine erased_setSlot h (fun k => .inr ⟨content_suffix_none s k, List.nil_prefix, .inr ?_⟩) fun p hp => ?_
    · rw [hc, isTupleAt_suffix]
    · rw [isTupleAt_suffix] at hp
      cases hp
  | case8 H I0 N child value h I0' N' child' value' hc hsome =>
    cases hr
    refine erased_setSlot h (fun k => ?_) fun p hp => by rwa [hc]
    rw [hc]
    cases k with
    | nil => exact .inr ⟨rfl, List.prefix_rfl, .inl rfl⟩
    | cons H' T' => exact .inl rfl
  | case9 H I0 N child value h I0' N' child' value' H1 T1 hc ih =>
    obtain ⟨c, hr', hc'⟩ := bind_eq_ok hr
    cases hc'
    obtain ⟨-, hcont, htup⟩ := ih hr'
    exact erased_setSlot h (fun k => by rw [hc]; exact hcont _ k) fun p hp => by rw [hc]; exact htup p hp
  | _ =>
    cases hr
    exact erased_same rfl

/-- Children without new inner nodes. -/
theorem isTupleAt_children {I0 N : Nat} {child child' : Fin (N + 1) → Node V} {value value' : Fin (N + 1) → Option V}
    (h : ∀ (j : Fin (N + 1)) {p : List Nat}, isTupleAt (child' j) p = true → isTupleAt (child j) p = true)
    {p : List Nat} (hp : isTupleAt (.tuple I0 N child' value') p = true) :
    isTupleAt (.tuple I0 N child value) p = true := by
  cases p with
  | nil => rfl
  | cons H T =>
    by_cases hr : InRange H I0 N
    · rw [isTupleAt_tuple_cons hr] at hp
      rw [isTupleAt_tuple_cons hr]
      exact h _ hp
    · rw [isTupleAt_tuple_out hr] at hp
      cases hp

/-- A key keeps its value in a slot, or loses it and the predicate is false of it. -/
def Loses (F : List Nat → V → Bool) (Key : List Nat) (c : Node V) (v : Option V) (r : Node V × Option V)
    (k : List Nat) : Prop :=
  r.1.content r.2 k = c.content v k ∨ r.1.content r.2 k = none ∧ ∃ x, c.content v k = some x ∧ F (Key ++ k) x = false

theorem loses_cons {F : List Nat → V → Bool} {Key : List Nat} {I0 N : Nat} {child : Fin (N + 1) → Node V}
    {value : Fin (N + 1) → Option V} {v v' : Option V} {r : Fin (N + 1) → Node V × Option V}
    (hr : ∀ (j : Fin (N + 1)) k, Loses F (Key ++ [I0 + j]) (child j) (value j) (r j) k) (H : Nat) (T : List Nat) :
    Loses F Key (.tuple I0 N child value) v (.tuple I0 N (fun j => (r j).1) fun j => (r j).2, v') (H :: T) := by
  by_cases h : InRange H I0 N
  · have hj : I0 + (slot h).val = H := by simp only [slot]; omega
    have := hr (slot h) T
    rw [Loses, hj, List.append_assoc] at this
    rw [Loses, content_tuple_cons _ _ h, content_tuple_cons _ _ h]
    exact this
  · exact .inl (by rw [content_tuple_out _ _ h, content_tuple_out _ _ h])

theorem filterSlot_loses (F : List Nat → V → Bool) (Key : List Nat) (c : Node V) (v : Option V) (k : List Nat) :
    Loses F Key c v (filterSlot F Key c v) k := by
  fun_induction filterSlot F Key c v generalizing k with
  | case1 => exact .inl rfl
  | case2 => exact .inl rfl
  | case3 Key s v hv =>
    rw [Loses, content_suffix_none, content_suffix]
    split
    · rename_i hk
      exact .inr ⟨rfl, v, rfl, by rw [hk]; exact Bool.eq_false_iff.mpr hv⟩
    · exact .inl rfl
  | case4 Key I0 N child value _ ih =>
    cases k with
    | nil => exact .inl rfl
    | cons H T => exact loses_cons ih H T
  | case5 => exact .inl rfl
  | case6 Key I0 N child value _ v hv ih =>
    cases k with
    | nil => exact .inr ⟨rfl, v, rfl, by rw [List.append_nil]; exact Bool.eq_false_iff.mpr hv⟩
    | cons H T => exact loses_cons ih H T

theorem filterSlot_tuples (F : List Nat → V → Bool) (Key : List Nat) (c : Node V) (v : Option V) {p : List Nat}
    (hp : isTupleAt (filterSlot F Key c v).1 p = true) : isTupleAt c p = true := by
  induction c generalizing Key v p with
  | suffix s =>
    cases v with
    | none => exact hp
    | some x =>
      rw [filterSlot] at hp
      split at hp
      · exact hp
      · rw [isTupleAt_suffix] at hp
        cases hp
  | tuple I0 N child value ih =>
    have hchildren := @isTupleAt_children V I0 N child
      (fun j => (filterSlot F (Key ++ [I0 + j.val]) (child j) (value j)).1) value
      (fun j => (filterSlot F (Key ++ [I0 + j.val]) (child j) (value j)).2) (fun j _ => ih j _ _) p
    cases v with
    | none => exact hchildren hp
    | some x =>
      rw [filterSlot] at hp
      split at hp
      · exact hp
      · exact hchildren hp

/-- `map/2` keeps the keys. -/
theorem mapSlot_content (F : List Nat → V → V) (Key : List Nat) (c : Node V) (v : Option V) (k : List Nat) :
    (mapSlot F Key c v).1.content (mapSlot F Key c v).2 k = (c.content v k).map (F (Key ++ k)) := by
  induction c generalizing Key v k with
  | suffix s =>
    rw [mapSlot, content_suffix, content_suffix]
    split
    · rename_i hk
      rw [hk]
    · rfl
  | tuple I0 N child value ih =>
    refine congrFun (content_tuple_congr (g := fun k o => o.map (F (Key ++ k))) (fun _ => rfl) ?_ fun j => ?_) k
    · rw [List.append_nil]
      rfl
    · funext t
      rw [ih, List.append_assoc, List.singleton_append]

theorem mapSlot_tuples (F : List Nat → V → V) (Key : List Nat) (c : Node V) (v : Option V) {p : List Nat}
    (hp : isTupleAt (mapSlot F Key c v).1 p = true) : isTupleAt c p = true := by
  induction c generalizing Key v p with
  | suffix s => exact hp
  | tuple I0 N child value ih => exact isTupleAt_children (fun j _ => ih j (Key ++ [I0 + j.val]) (value j)) hp

/-! ## Sequences of operations -/

variable {α : Type}

/-- The key that an operation gives a value. -/
def Op.writes : Op α → Option Key
  | store K _ => some K
  | update K _ _ => some K
  | append K _ => some K
  | _ => none

/-- The operation is for a key with the prefix `S` that it takes away. -/
def Op.Removes (S : List Nat) : Op α → Prop
  | erase K => S <+: K.val
  | filter F => ∃ k v, S <+: k ∧ F k v = false
  | _ => False

theorem store_written {node node' : Node V} (ht : IsTrie node) {K : List Nat} {v : V}
    (hr : store K v node = .ok node') : Written K node node' := by
  cases K with
  | nil => cases node <;> cases hr
  | cons H T =>
    rcases ht with rfl | ht
    · cases hr
      refine ⟨rfl, ⟨v, content_newInstance H T (some v)⟩, fun p hp => .inr ?_⟩
      obtain rfl := isTupleAt_single hp
      exact List.nil_prefix
    · cases node with
      | suffix => cases ht
      | tuple => exact writeNode_written hr

theorem update4_written {node node' : Node V} (ht : IsTrie node) {K : List Nat} {F : Option V → Except Exn V}
    {Initial : V} (hr : update4 K F Initial node = .ok node') : Written K node node' := by
  rcases ht with rfl | ht
  · exact store_written (.inl rfl) hr
  · cases node with
    | suffix => cases ht
    | tuple =>
      cases K with
      | nil => cases hr
      | cons H T => exact writeNode_written hr

variable {node node' : Node (Term α)}

theorem apply_written {op : Op α} {K : Key} (hop : op.writes = some K)
    (ht : IsTrie node) (hr : op.apply node = .ok node') : Written K.val node node' := by
  cases op with
  | store K' v =>
    cases hop
    exact store_written ht hr
  | update K' F Initial =>
    cases hop
    exact update4_written ht hr
  | append K' Value =>
    cases hop
    exact update4_written ht hr
  | erase | filter | map => cases hop

/-- What a sequence of operations leaves: where the trie has an inner node or
a key, a key was written, and an inner node has a key below it unless one was
taken away there. -/
structure Left (ops : List (Op α)) (node : Node (Term α)) : Prop where
  trie : IsTrie node
  written : ∀ S ≠ [], Reaches node none S → ∃ op ∈ ops, ∃ K, op.writes = some K ∧ S <+: K.val
  kept : ∀ S ≠ [], (∀ op ∈ ops, ¬ op.Removes S) → isTupleAt node S = true → ∃ k, S <+: k ∧ lookup node k ≠ none

theorem Left.write {ops : List (Op α)} {op : Op α} {K : Key} (h : Left ops node)
    (hop : op.writes = some K) (hw : Written K.val node node') : Left (ops ++ [op]) node' := by
  obtain ⟨y, hy⟩ := hw.content
  have hheld : lookup node' = Function.update (lookup node) K.val (some y) := hy none
  have hlast : op ∈ ops ++ [op] := List.mem_append_right ops List.mem_cons_self
  refine ⟨.inr hw.isTuple, fun S hS hreach => ?_, fun S hS hrem hdeep => ?_⟩
  · have hold : Reaches node none S → ∃ op' ∈ ops ++ [op], ∃ K, op'.writes = some K ∧ S <+: K.val := fun hr => by
      obtain ⟨op', hmem, hK⟩ := h.written S hS hr
      exact ⟨op', List.mem_append_left _ hmem, hK⟩
    rcases hreach with hdeep | ⟨k, hpre, hk⟩
    · rcases hw.tuples S hdeep with hdeep | hpre
      · exact hold (.inl hdeep)
      · exact ⟨op, hlast, K, hop, hpre⟩
    · by_cases hkK : k = K.val
      · exact ⟨op, hlast, K, hop, hkK ▸ hpre⟩
      · rw [hy, Function.update_of_ne hkK] at hk
        exact hold (.inr ⟨k, hpre, hk⟩)
  · rw [hheld]
    rcases hw.tuples S hdeep with hdeep | hpre
    · obtain ⟨k, hpre, hk⟩ := h.kept S hS (fun op' hmem => hrem op' (List.mem_append_left _ hmem)) hdeep
      refine ⟨k, hpre, ?_⟩
      rw [Function.update_apply]
      split
      · exact Option.some_ne_none y
      · exact hk
    · refine ⟨K.val, hpre, ?_⟩
      rw [Function.update_self]
      exact Option.some_ne_none y

/-- An operation without a new inner node or key, that keeps the keys it is not for. -/
theorem Left.shrink {ops : List (Op α)} {op : Op α} (h : Left ops node)
    (ht : IsTrie node') (htup : ∀ p, isTupleAt node' p = true → isTupleAt node p = true)
    (hheld : ∀ k, lookup node' k ≠ none → lookup node k ≠ none)
    (hkeep : ∀ S, ¬ op.Removes S → isTupleAt node S = true → ∀ k, S <+: k → lookup node k ≠ none →
      lookup node' k ≠ none) : Left (ops ++ [op]) node' := by
  refine ⟨ht, fun S hS hreach => ?_, fun S hS hrem hdeep => ?_⟩
  · have hold : Reaches node none S := by
      rcases hreach with hdeep | ⟨k, hpre, hk⟩
      · exact .inl (htup S hdeep)
      · exact .inr ⟨k, hpre, hheld k hk⟩
    obtain ⟨op', hmem, hK⟩ := h.written S hS hold
    exact ⟨op', List.mem_append_left _ hmem, hK⟩
  · obtain ⟨k, hpre, hk⟩ := h.kept S hS (fun op' hmem => hrem op' (List.mem_append_left _ hmem)) (htup S hdeep)
    have hop := hrem op (List.mem_append_right ops List.mem_cons_self)
    exact ⟨k, hpre, hkeep S hop (htup S hdeep) k hpre hk⟩

/-- An inner node is below inner nodes alone. -/
theorem isTupleAt_above {node : Node V} {p S : List Nat} (hpre : p <+: S) (hS : isTupleAt node S = true) :
    isTupleAt node p = true := by
  obtain ⟨t, rfl⟩ := hpre
  induction p generalizing node with
  | nil =>
    cases node with
    | tuple => rfl
    | suffix =>
      rw [isTupleAt_suffix] at hS
      cases hS
  | cons H p ih =>
    cases node with
    | suffix =>
      rw [isTupleAt_suffix] at hS
      cases hS
    | tuple I0 N child value =>
      rw [List.cons_append] at hS
      by_cases h : InRange H I0 N
      · rw [isTupleAt_tuple_cons h] at hS
        rw [isTupleAt_tuple_cons h]
        exact ih hS
      · rw [isTupleAt_tuple_out h] at hS
        cases hS

/-- An erased key above an inner node cuts no compressed end. -/
theorem Erased.keeps {K S k : List Nat} {node node' : Node V} (h : Erased K node node') (hK : ¬ S <+: K)
    (hdeep : isTupleAt node S = true) (hpre : S <+: k) (hk : lookup node k ≠ none) : lookup node' k ≠ none := by
  rcases h.content none k with hsame | ⟨-, hKk, hend⟩
  · rwa [lookup, hsame]
  · exfalso
    rcases hend with rfl | hcut
    · exact hK hpre
    · have hKS : K <+: S := (List.prefix_or_prefix_of_prefix hpre hKk).resolve_left hK
      rw [isTupleAt_above hKS hdeep] at hcut
      cases hcut

theorem Left.apply {ops : List (Op α)} {op : Op α} (h : Left ops node)
    (hr : op.apply node = .ok node') : Left (ops ++ [op]) node' := by
  cases op with
  | store K v => exact h.write rfl (apply_written rfl h.trie hr)
  | update K F Initial => exact h.write rfl (apply_written rfl h.trie hr)
  | append K Value => exact h.write rfl (apply_written rfl h.trie hr)
  | erase K =>
    obtain ⟨_ | ⟨H, T⟩, hK⟩ := K
    · exact absurd rfl hK
    rcases h.trie with rfl | ht
    · cases hr
      exact h.shrink (.inl rfl) (fun _ hp => hp) (fun _ hk => hk) fun _ _ _ _ _ hk => hk
    · cases node with
      | suffix => cases ht
      | tuple =>
        have he := eraseNode_erased hr
        refine h.shrink (.inr he.isTuple) he.tuples (fun k hk => ?_) fun S hS hdeep k hpre => he.keeps hS hdeep hpre
        rcases he.content none k with hsame | ⟨hnone, -⟩
        · rwa [lookup, ← hsame]
        · exact absurd hnone hk
  | filter F =>
    cases hr
    have hloses : ∀ k, lookup (Trie.filter F node) k = lookup node k ∨
        lookup (Trie.filter F node) k = none ∧ ∃ x, lookup node k = some x ∧ F k x = false := fun k => by
      have h := filterSlot_loses F [] node none k
      rwa [Loses, show (filterSlot F [] node none).2 = none by cases node <;> rfl] at h
    refine h.shrink (h.trie.imp (fun h0 => by rw [h0]; rfl) (filterSlot_isTuple F [] none))
      (fun p hp => filterSlot_tuples F [] node none hp) (fun k hk => ?_) fun S hS _ k hpre hk => ?_
    · rcases hloses k with hsame | ⟨hnone, -⟩
      · rwa [← hsame]
      · exact absurd hnone hk
    · rcases hloses k with hsame | ⟨-, x, -, hx⟩
      · rwa [hsame]
      · exact absurd ⟨k, x, hpre, hx⟩ hS
  | map F =>
    cases hr
    have hmaps : ∀ k, lookup (Trie.map F node) k = (lookup node k).map (F k) := fun k => by
      have h := mapSlot_content F [] node none k
      rwa [show (mapSlot F [] node none).2 = none by cases node <;> rfl] at h
    refine h.shrink (h.trie.imp (fun h0 => by rw [h0]; rfl) (mapSlot_isTuple F [] none))
      (fun p hp => mapSlot_tuples F [] node none hp) (fun k hk => ?_) fun S _ _ k _ hk => ?_
    · rwa [hmaps, ne_eq, Option.map_eq_none_iff] at hk
    · rwa [hmaps, ne_eq, Option.map_eq_none_iff]

/-- Every run leaves what the operations say. -/
theorem run_left {ops : List (Op α)} {node : Node (Term α)} (hr : ops.foldlM Op.apply (.suffix []) = .ok node) :
    Left ops node := by
  induction ops using List.reverseRecOn generalizing node with
  | nil =>
    cases hr
    refine ⟨.inl rfl, fun S _ hreach => absurd hreach (not_reaches_end_none [] S), fun S _ _ hdeep => ?_⟩
    rw [isTupleAt_suffix] at hdeep
    cases hdeep
  | append_singleton ops op ih =>
    rw [List.foldlM_append] at hr
    obtain ⟨node₁, h₁, hop⟩ := bind_eq_ok hr
    obtain ⟨node₂, h₂, hpure⟩ := bind_eq_ok hop
    cases hpure
    exact (ih h₁).apply h₂

/-- `is_prefix/2` after any sequence of operations: it is true of the prefixes
of the keys held, and true of no other string than the prefixes of keys that
were written. As long as no key with the prefix was taken away, it is true if
and only if a key is held. -/
theorem is_prefix_run {ops : List (Op α)} {node : Node (Term α)}
    (hr : ops.foldlM Op.apply (.suffix []) = .ok node) (S : Key) :
    ∃ b, isPrefix S.val node = .ok b ∧
      ((∃ (K : Key) (v : Term α), find K.val node = .ok (some v) ∧ S.val <+: K.val) → b = true) ∧
      (b = true → ∃ op ∈ ops, ∃ K, op.writes = some K ∧ S.val <+: K.val) ∧
      ((∀ op ∈ ops, ¬ op.Removes S.val) → b = true →
        ∃ (K : Key) (v : Term α), find K.val node = .ok (some v) ∧ S.val <+: K.val) := by
  have hleft := run_left hr
  have hfind : ∀ k, S.val <+: k → lookup node k ≠ none →
      ∃ (K : Key) (v : Term α), find K.val node = .ok (some v) ∧ S.val <+: K.val := fun k hpre hk => by
    obtain ⟨v, hv⟩ := Option.ne_none_iff_exists'.mp hk
    have hne : k ≠ [] := fun h0 => S.property (List.prefix_nil.mp (h0 ▸ hpre))
    exact ⟨⟨k, hne⟩, v, by rw [find_eq hleft.trie hne, hv], hpre⟩
  have hb : ∃ b, isPrefix S.val node = .ok b ∧ (b = true ↔ Reaches node none S.val) := by
    rcases hleft.trie with rfl | ht
    · refine ⟨false, ?_, iff_of_false Bool.false_ne_true (not_reaches_end_none [] S.val)⟩
      obtain ⟨_ | ⟨H, T⟩, hS⟩ := S
      · exact absurd rfl hS
      · cases T <;> rfl
    · exact isPrefix_iff ht S.property
  obtain ⟨b, hb, hiff⟩ := hb
  refine ⟨b, hb, ?_, fun htrue => hleft.written S.val S.property (hiff.mp htrue), fun hrem htrue => ?_⟩
  · rintro ⟨K, v, hK, hpre⟩
    rw [find_eq hleft.trie K.property] at hK
    have hv : lookup node K.val = some v := Except.ok.inj hK
    exact hiff.mpr (.inr ⟨K.val, hpre, fun hnone => Option.some_ne_none v (hv.symm.trans hnone)⟩)
  · rcases hiff.mp htrue with hdeep | ⟨k, hpre, hk⟩
    · obtain ⟨k, hpre, hk⟩ := hleft.kept S.val S.property hrem hdeep
      exact hfind k hpre hk
    · exact hfind k hpre hk

/-- The key `ab` has the prefix `a`. -/
theorem is_prefix_run_ab :
    isPrefix [97] (single 97 (.suffix [98]) (some (Term.other 1))) = .ok true := by
  obtain ⟨b, hb, hheld, -, -⟩ := @is_prefix_run Nat [.store ⟨[97, 98], by decide⟩ (.other 1)]
    (single 97 (.suffix [98]) (some (.other 1))) rfl ⟨[97], by decide⟩
  rw [← hheld ⟨⟨[97, 98], by decide⟩, .other 1, rfl, by decide⟩]
  exact hb

/-- The inner node at `a` stays after its keys. -/
example : ([Op.store ⟨[97, 98], by decide⟩ (.other 1), .store ⟨[97, 99], by decide⟩ (.other 2),
      .erase ⟨[97, 98], by decide⟩, .erase ⟨[97, 99], by decide⟩].foldlM Op.apply (.suffix [] : Node (Term Nat)) >>=
    isPrefix [97]) = .ok true := by decide +kernel

end CloudI.Trie
