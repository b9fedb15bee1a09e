import CloudI.Trie.Similar

/-!
# The first entry that shares a prefix with a string

`find_similar/2` walks the trie as `fold_similar_node/8` does, and takes the first entry below the end of the walk from
an iteration whose function never asks for the rest. `itera/4` goes on after a slot without a value, so a later entry
takes the place of the one found below it (`itera_first_iff`), and a compressed end is only taken when it is what is
left of the string (`itera_slot_iff`). `find_similar_first` is when the entry is the first of `to_list_similar/2`.
-/

namespace CloudI.Trie

open Node

variable {V A : Type}

/-! ## Iterating -/

/-- What the function of an iteration returns: `{trie_itera_done, A}`, or another term. -/
inductive Returned (A : Type) where
  | iteraDone (a : A)
  | result (r : A)

/-- `itera_element/7` on a slot; `rest` is the iteration over the slots after it. -/
def iteraSlot (F : List Nat → V → A → (A → A) → Returned A) (Key : List Nat) :
    Node V → Option V → A → (A → A) → A
  | .suffix _, none, a, rest => rest a
  | .suffix s, some v, a, rest =>
    match F (Key ++ s) v a rest with
    | .iteraDone a => a
    | .result r => r
  | .tuple I0 N child value, v, a, rest =>
    let iter (a : A) : A := (List.finRange (N + 1)).foldr
      (fun (j : Fin (N + 1)) rest a => iteraSlot F (Key ++ [I0 + j]) (child j) (value j) a rest) id a
    match v with
    | none => rest (iter a)
    | some v =>
      match F Key v a iter with
      | .iteraDone a => rest a
      | .result r => r

/-- `itera/4` -/
def itera (F : List Nat → V → A → (A → A) → Returned A) (a : A) (Key : List Nat) (node : Node V) : A :=
  iteraSlot F Key node none a id

/-! ## Finding -/

/-- The function of `find_similar_element/2`. -/
def found (NewKey : List Nat) (Value : V) (_ : Option (List Nat × V))
    (_ : Option (List Nat × V) → Option (List Nat × V)) : Returned (Option (List Nat × V)) :=
  .result (some (NewKey, Value))

def findSimilarElement (Key : List Nat) (node : Node V) : Option (List Nat × V) := itera found none Key node

def findSimilarEntry (H : Nat) : List Nat → List Nat → Option V → Node V → Except Exn (Option (List Nat × V))
  | _, _, _, .suffix _ => .error .functionClause
  | [], Key, LastValue, .tuple I0 N child value =>
    if h : InRange H I0 N then
      match child (slot h), value (slot h) with
      | .tuple I0' N' child' value', none => .ok (findSimilarElement (Key ++ [H]) (.tuple I0' N' child' value'))
      | .tuple .., some Value => .ok (some (Key ++ [H], Value))
      | .suffix s, some Value =>
        if s = [] then .ok (some (Key ++ [H], Value))
        else .ok (findSimilarElement Key (.tuple I0 N child value))
      | .suffix _, none => .ok (findSimilarElement Key (.tuple I0 N child value))
    else
      match LastValue with
      | none => .ok (findSimilarElement Key (.tuple I0 N child value))
      | some LastValue => .ok (some (Key, LastValue))
  | H1 :: T1, Key, LastValue, .tuple I0 N child value =>
    if h : InRange H I0 N then
      match child (slot h), value (slot h) with
      | .tuple I0' N' child' value', Value =>
        findSimilarEntry H1 T1 (Key ++ [H]) Value (.tuple I0' N' child' value')
      | .suffix s, some Value =>
        if s = H1 :: T1 then .ok (some (Key ++ H :: H1 :: T1, Value))
        else .ok (findSimilarElement Key (.tuple I0 N child value))
      | .suffix _, none => .ok (findSimilarElement Key (.tuple I0 N child value))
    else
      match LastValue with
      | none => .ok (findSimilarElement Key (.tuple I0 N child value))
      | some LastValue => .ok (some (Key, LastValue))

/-- `find_similar/2`, with `none` for `error`. -/
def findSimilar (Similar : List Nat) (node : Node V) : Except Exn (Option (List Nat × V)) :=
  if outside Similar node then .ok none
  else
    match Similar, node with
    | _, .suffix [] => .ok none
    | H :: T, node => findSimilarEntry H T [] none node
    | [], _ => .error .functionClause

/-! ## What an iteration finds -/

/-- A slot below which nothing has a value. -/
def Vacant (c : Node V) (v : Option V) : Prop := ∀ t, c.content v t = none

theorem entries_eq_nil (Key : List Nat) (c : Node V) (v : Option V) : entries Key c v = [] ↔ Vacant c v := by
  rw [List.eq_nil_iff_forall_not_mem]
  constructor
  · intro h t
    by_contra ht
    obtain ⟨x, hx⟩ := Option.ne_none_iff_exists'.mp ht
    exact h _ (mem_entries.mpr ⟨t, rfl, hx⟩)
  · rintro h ⟨k, x⟩ hp
    obtain ⟨t, -, ht⟩ := mem_entries.mp hp
    rw [h] at ht
    exact nomatch ht

theorem iteraSlot_some (Key : List Nat) (c : Node V) (x : V) (a : Option (List Nat × V))
    (rest : Option (List Nat × V) → Option (List Nat × V)) :
    iteraSlot found Key c (some x) a rest = (entries Key c (some x)).head? := by
  cases c <;> rfl

theorem iteraSlot_none (Key : List Nat) (c : Node V) (a : Option (List Nat × V))
    (rest : Option (List Nat × V) → Option (List Nat × V)) :
    iteraSlot found Key c none a rest = rest (itera found a Key c) := by
  cases c <;> rfl

theorem head_entries_some (Key : List Nat) (c : Node V) (x : V) :
    ∃ t, (entries Key c (some x)).head? = some (Key ++ t, x) := by
  cases c with
  | suffix s => exact ⟨s, rfl⟩
  | tuple => exact ⟨[], by rw [List.append_nil]; rfl⟩

theorem not_vacant_some (c : Node V) (x : V) : ¬ Vacant c (some x) := by
  rw [← entries_eq_nil []]
  obtain ⟨t, ht⟩ := head_entries_some [] c x
  exact List.ne_nil_of_mem (List.mem_of_mem_head? ht)

/-- The first entry is reached: the first slot that has entries has a value, or is the only one and its first entry is
reached. -/
def FirstStops : Node V → Prop
  | .suffix _ => True
  | .tuple _ N child value => ∀ j : Fin (N + 1), (∀ i < j, Vacant (child i) (value i)) →
      (value j).isSome ∨ Vacant (child j) none ∨ (∀ i, j < i → Vacant (child i) (value i)) ∧ FirstStops (child j)

/-- The outcome of an iteration from `a` over the entries `l`: `a` if there are none, or one of them. -/
def Picks (l : List (List Nat × V)) (a r : Option (List Nat × V)) : Prop := (l = [] ∧ r = a) ∨ ∃ p ∈ l, r = some p

section Slots

variable {I0 N : Nat} {child : Fin (N + 1) → Node V} {value : Fin (N + 1) → Option V} (Key : List Nat)

/-- The iteration over the slots of a list. -/
def iteraSlots (I0 : Nat) (child : Fin (N + 1) → Node V) (value : Fin (N + 1) → Option V) (l : List (Fin (N + 1)))
    (a : Option (List Nat × V)) : Option (List Nat × V) :=
  l.foldr (fun j rest a => iteraSlot found (Key ++ [I0 + j.val]) (child j) (value j) a rest) id a

/-- The entries of the slots of a list. -/
def entriesOf (I0 : Nat) (child : Fin (N + 1) → Node V) (value : Fin (N + 1) → Option V) (l : List (Fin (N + 1))) :
    List (List Nat × V) :=
  l.flatMap fun j => entries (Key ++ [I0 + j.val]) (child j) (value j)

theorem entriesOf_eq_nil (l : List (Fin (N + 1))) :
    entriesOf Key I0 child value l = [] ↔ ∀ i ∈ l, Vacant (child i) (value i) := by
  rw [entriesOf, List.flatMap_eq_nil_iff]
  exact forall₂_congr fun i _ => entries_eq_nil _ _ _

/-- An entry is below one slot. -/
theorem slot_of_entries {i j : Fin (N + 1)} {c d : Node V} {v w : Option V} {p : List Nat × V}
    (hi : p ∈ entries (Key ++ [I0 + i.val]) c v) (hj : p ∈ entries (Key ++ [I0 + j.val]) d w) : i.val = j.val := by
  obtain ⟨s, hs, -⟩ := mem_entries.mp hi
  obtain ⟨t, ht, -⟩ := mem_entries.mp hj
  rw [hs, List.append_assoc, List.append_assoc] at ht
  have := List.head_eq_of_cons_eq (List.append_cancel_left ht)
  omega

theorem iteraSlots_some {j : Fin (N + 1)} {x : V} (hv : value j = some x) (l : List (Fin (N + 1)))
    (a : Option (List Nat × V)) : iteraSlots Key I0 child value (j :: l) a =
      (entries (Key ++ [I0 + j.val]) (child j) (value j)).head? := by
  rw [hv]
  refine Eq.trans ?_ (iteraSlot_some _ _ _ a (iteraSlots Key I0 child value l))
  rw [← hv]
  rfl

theorem iteraSlots_none {j : Fin (N + 1)} (hv : value j = none) (l : List (Fin (N + 1)))
    (a : Option (List Nat × V)) : iteraSlots Key I0 child value (j :: l) a =
      iteraSlots Key I0 child value l (itera found a (Key ++ [I0 + j.val]) (child j)) := by
  refine Eq.trans ?_ (iteraSlot_none _ _ a (iteraSlots Key I0 child value l))
  rw [← hv]
  rfl

theorem iteraSlots_picks (ih : ∀ j Key a, Picks (entries Key (child j) none) a (itera found a Key (child j)))
    (l : List (Fin (N + 1))) (a : Option (List Nat × V)) :
    Picks (entriesOf Key I0 child value l) a (iteraSlots Key I0 child value l a) := by
  induction l generalizing a with
  | nil => exact .inl ⟨rfl, rfl⟩
  | cons j l ihl =>
    rw [entriesOf, List.flatMap_cons]
    cases hv : value j with
    | some x =>
      rw [iteraSlots_some Key hv, hv]
      obtain ⟨t, ht⟩ := head_entries_some (Key ++ [I0 + j.val]) (child j) x
      exact .inr ⟨_, List.mem_append_left _ (List.mem_of_mem_head? ht), ht⟩
    | none =>
      rw [iteraSlots_none Key hv]
      rcases ihl (itera found a (Key ++ [I0 + j.val]) (child j)) with ⟨hnil, hr⟩ | ⟨p, hp, hr⟩
      · rw [entriesOf] at hnil
        rw [hnil, List.append_nil, hr]
        exact ih j _ a
      · exact .inr ⟨p, List.mem_append_right _ hp, hr⟩

/-- The iteration over slots reaches the first entry. -/
theorem iteraSlots_first_iff (hpick : ∀ j Key a, Picks (entries Key (child j) none) a (itera found a Key (child j)))
    (hfirst : ∀ j Key a, itera found a Key (child j) = (entries Key (child j) none).head?.or a ↔ FirstStops (child j))
    {l : List (Fin (N + 1))} (hl : l.Pairwise (· < ·)) (a : Option (List Nat × V)) :
    iteraSlots Key I0 child value l a = (entriesOf Key I0 child value l).head?.or a ↔
      ∀ j ∈ l, (∀ i ∈ l, i < j → Vacant (child i) (value i)) → (value j).isSome ∨ Vacant (child j) none ∨
        (∀ i ∈ l, j < i → Vacant (child i) (value i)) ∧ FirstStops (child j) := by
  induction l generalizing a with
  | nil => exact iff_of_true rfl nofun
  | cons j l ihl =>
    obtain ⟨hj, hl⟩ := List.pairwise_cons.mp hl
    rw [entriesOf, List.flatMap_cons, List.head?_append]
    cases hv : value j with
    | some x =>
      -- The iteration stops at this slot, and no later slot is the first with entries.
      rw [iteraSlots_some Key hv, hv]
      obtain ⟨t, ht⟩ := head_entries_some (Key ++ [I0 + j.val]) (child j) x
      refine iff_of_true (by rw [ht]; rfl) fun j' hj' hbefore => ?_
      rcases List.mem_cons.mp hj' with rfl | hj'
      · exact .inl (by rw [hv]; rfl)
      · have hvac := hbefore j List.mem_cons_self (hj j' hj')
        rw [hv] at hvac
        exact absurd hvac (not_vacant_some (child j) x)
    | none =>
      rw [iteraSlots_none Key hv]
      by_cases hvac : Vacant (child j) none
      · have hnil := (entries_eq_nil (Key ++ [I0 + j.val]) (child j) none).mpr hvac
        have hskip : itera found a (Key ++ [I0 + j.val]) (child j) = a := by
          rcases hpick j (Key ++ [I0 + j.val]) a with h | ⟨p, hp, -⟩
          · exact h.2
          · rw [hnil] at hp
            exact nomatch hp
        rw [hskip, hnil, List.head?_nil, Option.none_or]
        refine (ihl hl a).trans ⟨fun h j' hj' hbefore => ?_, fun h j' hj' hbefore => ?_⟩
        · rcases List.mem_cons.mp hj' with rfl | hmem
          · exact .inr (.inl hvac)
          · refine (h j' hmem fun i hi => hbefore i (List.mem_cons_of_mem j hi)).imp_right (Or.imp_right fun h' => ?_)
            refine ⟨fun i hi hlt => ?_, h'.2⟩
            rcases List.mem_cons.mp hi with rfl | hi
            · exact absurd (hj j' hmem) (Fin.lt_asymm hlt)
            · exact h'.1 i hi hlt
        · refine (h j' (List.mem_cons_of_mem j hj') fun i hi hlt => ?_).imp_right (Or.imp_right fun h' => ?_)
          · rcases List.mem_cons.mp hi with rfl | hi
            · rw [hv]
              exact hvac
            · exact hbefore i hi hlt
          · exact ⟨fun i hi => h'.1 i (List.mem_cons_of_mem j hi), h'.2⟩
      · -- The slot has entries; a later slot that has some takes their place.
        have hne := (entries_eq_nil (Key ++ [I0 + j.val]) (child j) none).not.mpr hvac
        obtain ⟨q, hq⟩ := Option.isSome_iff_exists.mp (List.isSome_head?.mpr hne)
        rw [hq]
        have hown := hfirst j (Key ++ [I0 + j.val]) a
        rw [hq] at hown
        have hnone : ∀ i ∈ j :: l, i < j → Vacant (child i) (value i) := by
          intro i hi hlt
          rcases List.mem_cons.mp hi with rfl | hi
          · exact absurd hlt (Fin.lt_irrefl _)
          · exact absurd (hj i hi) (Fin.lt_asymm hlt)
        rcases iteraSlots_picks Key hpick l (itera found a (Key ++ [I0 + j.val]) (child j)) with
          ⟨hnil, hr⟩ | ⟨p, hp, hr⟩
        · rw [hr]
          refine hown.trans ⟨fun hstops j' hj' hbefore => ?_, fun h => ?_⟩
          · rcases List.mem_cons.mp hj' with rfl | hmem
            · refine .inr (.inr ⟨fun i hi hlt => ?_, hstops⟩)
              rcases List.mem_cons.mp hi with rfl | hi
              · exact absurd hlt (Fin.lt_irrefl _)
              · exact (entriesOf_eq_nil Key l).mp hnil i hi
            · have hj0 := hbefore j List.mem_cons_self (hj j' hmem)
              rw [hv] at hj0
              exact absurd hj0 hvac
          · have hj0 := h j List.mem_cons_self hnone
            rw [hv] at hj0
            exact ((hj0.resolve_left nofun).resolve_left hvac).2
        · rw [hr]
          refine iff_of_false (fun heq => ?_) fun h => ?_
          · obtain rfl : p = q := Option.some.inj heq
            obtain ⟨i, hi, hpi⟩ := List.mem_flatMap.mp hp
            exact Nat.ne_of_lt (hj i hi) (slot_of_entries Key (List.mem_of_mem_head? hq) hpi)
          · have hj0 := h j List.mem_cons_self hnone
            rw [hv] at hj0
            have hlater := ((hj0.resolve_left nofun).resolve_left hvac).1
            rw [(entriesOf_eq_nil Key l).mpr fun i hi => hlater i (List.mem_cons_of_mem j hi) (hj i hi)] at hp
            exact nomatch hp

/-- The iteration over slots reaches the entry of a slot with a value. -/
theorem iteraSlots_slot_iff {j : Fin (N + 1)} {x : V} (hv : value j = some x) {l : List (Fin (N + 1))}
    (hl : l.Pairwise (· < ·)) (hj : j ∈ l) (a : Option (List Nat × V)) :
    iteraSlots Key I0 child value l a = (entries (Key ++ [I0 + j.val]) (child j) (some x)).head? ↔
      ∀ i ∈ l, i < j → value i = none := by
  induction l generalizing a with
  | nil => exact nomatch hj
  | cons i l ihl =>
    obtain ⟨hi, hl⟩ := List.pairwise_cons.mp hl
    rcases List.mem_cons.mp hj with rfl | hmem
    · rw [iteraSlots_some Key hv, hv]
      refine iff_of_true rfl fun i' hi' hlt => ?_
      rcases List.mem_cons.mp hi' with rfl | hi'
      · exact absurd hlt (Fin.lt_irrefl _)
      · exact absurd (hi i' hi') (Fin.lt_asymm hlt)
    · cases hw : value i with
      | some y =>
        rw [iteraSlots_some Key hw, hw]
        refine iff_of_false (fun heq => ?_) fun h => ?_
        · obtain ⟨s, hs⟩ := head_entries_some (Key ++ [I0 + i.val]) (child i) y
          have hs' := heq.symm.trans hs
          exact Nat.ne_of_lt (hi j hmem)
            (slot_of_entries Key (List.mem_of_mem_head? hs) (List.mem_of_mem_head? hs'))
        · have := h i List.mem_cons_self (hi j hmem)
          rw [hw] at this
          exact nomatch this
      | none =>
        rw [iteraSlots_none Key hw, ihl hl hmem]
        refine ⟨fun h i' hi' => ?_, fun h i' hi' => h i' (List.mem_cons_of_mem i hi')⟩
        rcases List.mem_cons.mp hi' with rfl | hi'
        · exact fun _ => hw
        · exact h i' hi'

end Slots

theorem itera_picks (Key : List Nat) (node : Node V) (a : Option (List Nat × V)) :
    Picks (entries Key node none) a (itera found a Key node) := by
  induction node generalizing Key a with
  | suffix => exact .inl ⟨rfl, rfl⟩
  | tuple I0 N child value ih => exact iteraSlots_picks Key (fun j Key a => ih j Key a) (List.finRange (N + 1)) a

/-- When an iteration finds the first entry. -/
theorem itera_first_iff (Key : List Nat) (node : Node V) (a : Option (List Nat × V)) :
    itera found a Key node = (entries Key node none).head?.or a ↔ FirstStops node := by
  induction node generalizing Key a with
  | suffix => exact iff_of_true rfl trivial
  | tuple I0 N child value ih =>
    refine (iteraSlots_first_iff Key (fun j Key a => itera_picks Key (child j) a) (fun j Key a => ih j Key a)
      (List.pairwise_lt_finRange _) a).trans ?_
    simp only [List.mem_finRange, true_implies, FirstStops]

/-- When an iteration finds the entry of a slot with a value. -/
theorem itera_slot_iff {I0 N : Nat} {child : Fin (N + 1) → Node V} {value : Fin (N + 1) → Option V} (Key : List Nat)
    {j : Fin (N + 1)} {x : V} (hv : value j = some x) (a : Option (List Nat × V)) :
    itera found a Key (.tuple I0 N child value) = (entries (Key ++ [I0 + j.val]) (child j) (some x)).head? ↔
      ∀ i < j, value i = none := by
  refine (iteraSlots_slot_iff Key hv (List.pairwise_lt_finRange _) (List.mem_finRange j) a).trans ?_
  simp only [List.mem_finRange, true_implies]

/-! ## When the first entry is found -/

/-- The string leads to the first entry: where the walk ends at a compressed end, it is what is left of the string or no
earlier slot of the node has a value, and elsewhere the first entry below the end of the walk is reached. -/
def LeadsToFirst (H : Nat) : List Nat → Option V → Node V → Prop
  | _, _, .suffix _ => True
  | [], LastValue, .tuple I0 N child value =>
    if h : InRange H I0 N then
      match child (slot h), value (slot h) with
      | .tuple I0' N' child' value', Value => Value.isSome ∨ FirstStops (.tuple I0' N' child' value')
      | .suffix s, some _ => s = [] ∨ ∀ i < slot h, value i = none
      | .suffix _, none => FirstStops (.tuple I0 N child value)
    else LastValue.isSome ∨ FirstStops (.tuple I0 N child value)
  | H1 :: T1, LastValue, .tuple I0 N child value =>
    if h : InRange H I0 N then
      match child (slot h), value (slot h) with
      | .tuple I0' N' child' value', Value => LeadsToFirst H1 T1 Value (.tuple I0' N' child' value')
      | .suffix s, some _ => s = H1 :: T1 ∨ ∀ i < slot h, value i = none
      | .suffix _, none => FirstStops (.tuple I0 N child value)
    else LastValue.isSome ∨ FirstStops (.tuple I0 N child value)

theorem element_iff (Key : List Nat) (node : Node V) :
    (.ok (findSimilarElement Key node) : Except Exn _) = .ok (entries Key node none).head? ↔ FirstStops node := by
  rw [← itera_first_iff Key node none, Option.or_none, Except.ok.injEq, findSimilarElement]

section

variable {I0 N : Nat} {child : Fin (N + 1) → Node V} {value : Fin (N + 1) → Option V} (Key : List Nat)

theorem last_iff (LastValue : Option V) :
    (match LastValue with
      | none => (.ok (findSimilarElement Key (.tuple I0 N child value)) : Except Exn _)
      | some LastValue => .ok (some (Key, LastValue))) =
        .ok (entries Key (.tuple I0 N child value) LastValue).head? ↔
      LastValue.isSome ∨ FirstStops (.tuple I0 N child value) := by
  cases LastValue with
  | none => exact (element_iff Key _).trans (or_iff_right nofun).symm
  | some LastValue => exact iff_of_true rfl (.inl rfl)

theorem end_iff {H : Nat} (T : List Nat) (h : InRange H I0 N) {s : List Nat} {x : V}
    (hc : child (slot h) = .suffix s) (hv : value (slot h) = some x) :
    (if s = T then (.ok (some (Key ++ H :: T, x)) : Except Exn _)
      else .ok (findSimilarElement Key (.tuple I0 N child value))) =
        .ok (entries (Key ++ [H]) (.suffix s) (some x)).head? ↔
      s = T ∨ ∀ i < slot h, value i = none := by
  split
  · rename_i hs
    refine iff_of_true ?_ (.inl hs)
    rw [hs, show Key ++ H :: T = Key ++ [H] ++ T by simp]
    rfl
  · rename_i hs
    have hH : I0 + (slot h).val = H := by simp only [slot]; omega
    rw [or_iff_right hs, ← @itera_slot_iff V I0 N child value Key _ x hv none, hc, hH, Except.ok.injEq,
      findSimilarElement]

end

theorem findSimilarEntry_iff {H : Nat} {T Key : List Nat} {LastValue : Option V} {node : Node V}
    (hn : node.isTuple = true) :
    findSimilarEntry H T Key LastValue node = .ok (visited H T Key LastValue node).head? ↔
      LeadsToFirst H T LastValue node := by
  induction T generalizing H Key LastValue node with
  | nil =>
    cases node with
    | suffix => exact absurd hn Bool.false_ne_true
    | tuple I0 N child value =>
      unfold findSimilarEntry
      rw [visited, LeadsToFirst]
      by_cases h : InRange H I0 N
      · rw [dif_pos h, dif_pos h, dif_pos h]
        cases hc : child (slot h) with
        | tuple I0' N' child' value' =>
          cases hv : value (slot h) with
          | none => exact (element_iff _ _).trans (or_iff_right Bool.false_ne_true).symm
          | some x => exact iff_of_true rfl (.inl rfl)
        | suffix s =>
          cases hv : value (slot h) with
          | none => exact element_iff _ _
          | some x => exact end_iff Key [] h hc hv
      · rw [dif_neg h, dif_neg h, dif_neg h]
        exact last_iff Key LastValue
  | cons H1 T1 ih =>
    cases node with
    | suffix => exact absurd hn Bool.false_ne_true
    | tuple I0 N child value =>
      unfold findSimilarEntry
      rw [visited, LeadsToFirst]
      by_cases h : InRange H I0 N
      · rw [dif_pos h, dif_pos h, dif_pos h]
        cases hc : child (slot h) with
        | tuple I0' N' child' value' => exact ih rfl
        | suffix s =>
          cases hv : value (slot h) with
          | none => exact element_iff _ _
          | some x => exact end_iff Key (H1 :: T1) h hc hv
      · rw [dif_neg h, dif_neg h, dif_neg h]
        exact last_iff Key LastValue

/-- `find_similar/2` is `error` when `to_list_similar/2` is empty, and otherwise its first entry. -/
def FindsFirst (Similar : List Nat) (node : Node V) : Prop :=
  ∃ l, toListSimilar Similar node = .ok l ∧ findSimilar Similar node = .ok l.head?

/-- The first entry is found if and only if the string leads to it, or the walk does not begin. -/
theorem find_similar_first {node : Node V} (h : Built node) (H : Nat) (T : List Nat) :
    FindsFirst (H :: T) node ↔ outside (H :: T) node = true ∨ LeadsToFirst H T none node := by
  have hlist := (@goesThrough_similar V H T node h.isTrie).toListSimilar
  have hfirst : FindsFirst (H :: T) node ↔ findSimilar (H :: T) node = .ok (similar (H :: T) node).head? := by
    constructor
    · rintro ⟨l, hl, hr⟩
      rw [hr, Except.ok.inj (hl.symm.trans hlist)]
    · exact fun hr => ⟨_, hlist, hr⟩
  rw [hfirst, similar]
  unfold findSimilar
  by_cases hout : outside (H :: T) node = true
  · rw [if_pos hout, if_pos hout]
    exact iff_of_true rfl (.inl hout)
  · rw [if_neg hout, if_neg hout, or_iff_right hout]
    rcases h.isTrie with rfl | ht
    · rw [visited, LeadsToFirst]
      exact iff_of_true rfl trivial
    · cases node with
      | suffix => exact absurd ht Bool.false_ne_true
      | tuple => exact findSimilarEntry_iff rfl

/-- The keys `a`, `ab` and `c`, and the string `abd`. -/
theorem find_similar_first_key : ∃ node, (store [97, 98] 2 (single 97 (.suffix []) (some 1))).bind (store [99] 3) =
    .ok node ∧ FindsFirst [97, 98, 100] node ∧ LeadsToFirst 97 [98, 100] none node := by
  have hl : ((store [97, 98] 2 (single 97 (.suffix []) (some 1))).bind (store [99] 3)).bind
      (toListSimilar [97, 98, 100]) = .ok [([97, 98], 2)] := by decide +kernel
  have hf : ((store [97, 98] 2 (single 97 (.suffix []) (some 1))).bind (store [99] 3)).bind
      (findSimilar [97, 98, 100]) = .ok (some ([97, 98], 2)) := by decide +kernel
  have ho : ((store [97, 98] 2 (single 97 (.suffix []) (some 1))).bind (store [99] 3)).map
      (outside [97, 98, 100]) = .ok false := by decide +kernel
  obtain ⟨node, hr, hl⟩ := bind_eq_ok hl
  rw [hr] at hf ho
  obtain ⟨node₁, hr₁, hr₂⟩ := bind_eq_ok hr
  have hbuilt : Built node := .store (by decide)
    (.store (by decide) (@Built.store _ _ _ [97] 1 (by decide) .new rfl) hr₁) hr₂
  have hfirst : FindsFirst [97, 98, 100] node := ⟨_, hl, hf⟩
  refine ⟨node, hr, hfirst, ((find_similar_first hbuilt 97 [98, 100]).mp hfirst).resolve_left ?_⟩
  rw [Except.ok.inj ho]
  exact Bool.false_ne_true

/-- The keys `ab` and `cd`, and the string `c`: the first entry is `cd`, and `ab` is found. -/
theorem not_finds_first :
    ¬ ∀ (node : Node Nat), Built node → ∀ (H : Nat) (T : List Nat), FindsFirst (H :: T) node := by
  intro h
  have hl : ((store [99, 100] 2 (single 97 (.suffix [98]) (some 1))).bind (toListSimilar [99])) =
      .ok [([99, 100], 2)] := by decide +kernel
  have hf : ((store [99, 100] 2 (single 97 (.suffix [98]) (some 1))).bind (findSimilar [99])) =
      .ok (some ([97, 98], 1)) := by decide +kernel
  obtain ⟨node, hr, hl⟩ := bind_eq_ok hl
  rw [hr] at hf
  have hbuilt : Built node := .store (by decide) (@Built.store _ _ _ [97, 98] 1 (by decide) .new rfl) hr
  obtain ⟨l, hl', hf'⟩ := h node hbuilt 99 []
  obtain rfl : [([99, 100], 2)] = l := Except.ok.inj (hl.symm.trans hl')
  exact absurd (hf.symm.trans hf') (by decide)

end CloudI.Trie
