import Mathlib.Data.List.Sort
import CloudI.Trie.StoredPatterns

/-!
# Folding over the keys that a pattern matches

`fold_match/4` walks the keys of a trie along a pattern. While a `*` is read, it goes through the slots of a node in
turn, and at the slot of the character that follows the `*` it goes on with the rest of the pattern and does not come
back: neither to what the `*` may still read there, nor to the slots after it. `Lost` are the keys that are not visited
for this (`foldMatch_eq`), and `fold_match_iff` is when none of them matches the pattern.
-/

namespace CloudI.Trie

open Node Wildcard

variable {V A : Type}

/-! ## The functions -/

mutual

/-- `fold_match_node_1/5`; its clause for `*` is `fold_match_element_1/9`. -/
def foldMatchNode1 (F : List Nat → V → A → A) (Match : List Nat) (a : A) (Prefix : List Nat) :
    Node V → Except Exn A
  | .suffix _ => .error .functionClause
  | .tuple I0 N child value =>
    match Match with
    | [] => .error .functionClause
    | H :: T =>
      if H = star then
        if T.head? = some star then .error .exitBadarg
        else
          (List.finRange (N + 1)).foldr (fun (I : Fin (N + 1)) rest a =>
            if I0 + I = star then
              match child I, value I with
              | .suffix [], none => rest a
              | _, _ => .error .exitBadarg
            else
              match child I, value I with
              | .tuple .., Value => do
                let NewA :=
                  match Value with
                  | some Value => if T = [] then F (Prefix ++ [I0 + I]) Value a else a
                  | none => a
                rest (← foldMatchElementN F (H :: T) NewA Prefix [I0 + I.val] (child I))
              | .suffix s, some Value => do
                let Suffix := (I0 + I) :: s
                rest (if ← wildcardMatchLists (H :: T) Suffix then F (Prefix ++ Suffix) Value a else a)
              | .suffix _, none => rest a) Except.ok a
      else if h : InRange H I0 N then
        match T, child (slot h), value (slot h) with
        | [], .tuple .., some Value | [], .suffix [], some Value => .ok (F (Prefix ++ [H]) Value a)
        | [], _, _ => .ok a
        | T, .tuple .., _ => foldMatchNode1 F T a (Prefix ++ [H]) (child (slot h))
        | T, .suffix s, some Value => do
          return if ← wildcardMatchLists T s then F (Prefix ++ [H] ++ s) Value a else a
        | _, .suffix _, none => .ok a
      else .ok a

/-- `fold_match_element_N/9` on the slots of a node. -/
def foldMatchElementN (F : List Nat → V → A → A) (Match : List Nat) (a : A) (Prefix Mid : List Nat) :
    Node V → Except Exn A
  | .suffix _ => .error .functionClause
  | .tuple I0 N child value =>
    (List.finRange (N + 1)).foldr (fun (I : Fin (N + 1)) rest a =>
      if I0 + I = star then
        match child I, value I with
        | .suffix [], none => rest a
        | _, _ => .error .exitBadarg
      else
        match Match with
        | [] => .error .functionClause
        | [_] =>
          match child I, value I with
          | .tuple .., Value => do
            let NewA :=
              match Value with
              | some Value => F (Prefix ++ (Mid ++ [I0 + I])) Value a
              | none => a
            rest (← foldMatchElementN F Match NewA Prefix (Mid ++ [I0 + I.val]) (child I))
          | .suffix s, some Value => rest (F (Prefix ++ (Mid ++ [I0 + I] ++ s)) Value a)
          | .suffix _, none => rest a
        | _ :: C :: NewMatch =>
          if C = I0 + I then
            match NewMatch, child I, value I with
            | _ :: _, .tuple .., _ => foldMatchNode1 F NewMatch a (Prefix ++ (Mid ++ [I0 + I.val])) (child I)
            | _ :: _, .suffix s, some Value => do
              return if ← wildcardMatchLists NewMatch s then F (Prefix ++ (Mid ++ [I0 + I] ++ s)) Value a else a
            | _ :: _, .suffix _, none => .ok a
            | [], .suffix (_ :: _), _ => .ok a
            | [], _, some Value => .ok (F (Prefix ++ (Mid ++ [I0 + I])) Value a)
            | [], _, none => .ok a
          else
            match child I, value I with
            | .tuple .., _ => do
              rest (← foldMatchElementN F Match a Prefix (Mid ++ [I0 + I.val]) (child I))
            | .suffix s, some Value => do
              let Suffix := Mid ++ [I0 + I] ++ s
              rest (if ← wildcardMatchLists Match Suffix then F (Prefix ++ Suffix) Value a else a)
            | .suffix _, none => rest a) Except.ok a

end

/-- `fold_match/4` -/
def foldMatch (Match : List Nat) (F : List Nat → V → A → A) (a : A) : Node V → Except Exn A
  | .suffix [] => .ok a
  | node => foldMatchNode1 F Match a [] node

/-! ## Entries with a property -/

open Classical in
/-- The entries whose key, from `Key` on, has the property. -/
noncomputable def picked (sel : List Nat → Prop) (Key : List Nat) (c : Node V) (v : Option V) : List (List Nat × V) :=
  (entries Key c v).filter fun p => sel (p.1.drop Key.length)

/-- A fold over entries. -/
def foldEntries (F : List Nat → V → A → A) (l : List (List Nat × V)) (a : A) : A := l.foldl (fun a p => F p.1 p.2 a) a

section Picked

variable {sel : List Nat → Prop} {Key Key' : List Nat} {c c' : Node V} {v v' : Option V}

theorem mem_picked {k : List Nat} {x : V} :
    (k, x) ∈ picked sel Key c v ↔ ∃ t, k = Key ++ t ∧ c.content v t = some x ∧ sel t := by
  simp only [picked, List.mem_filter, mem_entries, decide_eq_true_eq]
  constructor
  · rintro ⟨⟨t, rfl, hx⟩, hsel⟩
    rw [List.drop_left] at hsel
    exact ⟨t, rfl, hx, hsel⟩
  · rintro ⟨t, rfl, hx, hsel⟩
    rw [List.drop_left]
    exact ⟨⟨t, rfl, hx⟩, hsel⟩

theorem picked_sorted : (picked sel Key c v).Pairwise fun p q => p.1 < q.1 := (entries_sorted Key c v).filter _

/-- Two ascending lists with the same entries. -/
theorem eq_of_sorted {l l' : List (List Nat × V)} (hl : l.Pairwise fun p q => p.1 < q.1)
    (hl' : l'.Pairwise fun p q => p.1 < q.1) (h : ∀ k x, (k, x) ∈ l ↔ (k, x) ∈ l') : l = l' := by
  have : Std.Irrefl fun p q : List Nat × V => p.1 < q.1 := ⟨fun p => List.lt_irrefl p.1⟩
  have : Std.Antisymm fun p q : List Nat × V => p.1 < q.1 := ⟨fun p q hpq hqp => absurd hqp (List.lt_asymm hpq)⟩
  exact hl.eq_of_mem_iff hl' fun p => h p.1 p.2

theorem picked_eq_nil (h : ∀ t x, c.content v t = some x → ¬ sel t) : picked sel Key c v = [] := by
  rw [List.eq_nil_iff_forall_not_mem]
  rintro ⟨k, x⟩ hp
  obtain ⟨t, -, hx, hsel⟩ := mem_picked.mp hp
  exact h t x hx hsel

theorem picked_end {s : List Nat} {x : V} (b : Bool) (h : b = true ↔ sel s) (F : List Nat → V → A → A) (a : A) :
    (if b then F (Key ++ s) x a else a) = foldEntries F (picked sel Key (.suffix s) (some x)) a := by
  have hentry : entries Key (.suffix s) (some x) = [(Key ++ s, x)] := rfl
  cases b with
  | true =>
    have hsel := h.mp rfl
    simp only [picked, hentry, List.filter_cons, List.drop_left, hsel, decide_true, if_true, List.filter_nil]
    rfl
  | false =>
    have hsel : ¬ sel s := fun hs => nomatch h.mpr hs
    simp only [picked, hentry, List.filter_cons, List.drop_left, hsel, decide_false, Bool.false_eq_true, if_false,
      List.filter_nil]
    rfl

end Picked

/-! ## Keys that are not visited -/

mutual

/-- The key is lost to the pattern: along it, from a `*` of the pattern on, it is lost in `LostAfter`. -/
def Lost : List Nat → Node V → List Nat → Prop
  | C :: T, .tuple I0 N child _, c :: k =>
    if h : InRange c I0 N then
      if C = star then LostAfter T (child (slot h)) k else Lost T (child (slot h)) k
    else False
  | _, _, _ => False

/-- The key is lost while a `*` is read, before the rest `C :: M` of the pattern: it has a later slot than `C`, whether
or not anything is held in the slot of `C`; or it has `C` there and does not match if the `*` ends before it. -/
def LostAfter : List Nat → Node V → List Nat → Prop
  | C :: M, .tuple I0 N child _, c :: k =>
    if h : InRange c I0 N then
      if C = c then k ∉ language star M ∨ Lost M (child (slot h)) k
      else (I0 ≤ C ∧ C < c) ∨ LostAfter (C :: M) (child (slot h)) k
    else False
  | _, _, _ => False

end

/-- No key has a `*`, and no slot of `*` is taken. -/
def NoStar : Node V → Option V → Prop
  | .suffix s, v => v ≠ none → star ∉ s
  | .tuple I0 N child value, _ => ∀ I : Fin (N + 1),
      (I0 + I.val = star → child I = .suffix [] ∧ value I = none) ∧ NoStar (child I) (value I)

/-! ## What is visited -/

/-- A loop over slots that ends at the first one that `stops`; later ones hold nothing. -/
theorem foldr_visits {N : Nat} {F : List Nat → V → A → A} {step : Fin (N + 1) → (A → Except Exn A) → A → Except Exn A}
    {E : Fin (N + 1) → List (List Nat × V)} (stops : Fin (N + 1) → Prop)
    (hgo : ∀ I, ¬ stops I → (∀ J < I, ¬ stops J) → ∀ rest a, step I rest a = rest (foldEntries F (E I) a))
    (hstop : ∀ I, stops I → ∀ rest a, step I rest a = .ok (foldEntries F (E I) a))
    (hcut : ∀ I J, stops I → I < J → E J = []) (a : A) :
    (List.finRange (N + 1)).foldr step Except.ok a = .ok (foldEntries F ((List.finRange (N + 1)).flatMap E) a) := by
  have hloop : ∀ (l : List (Fin (N + 1))), l.Pairwise (· < ·) → (∀ I ∈ l, ∀ J < I, stops J → J ∈ l) → ∀ a,
      l.foldr step Except.ok a = .ok (foldEntries F (l.flatMap E) a) := by
    intro l hl hpre
    induction l with
    | nil => exact fun a => rfl
    | cons I l ih =>
      intro a
      obtain ⟨hI, hl⟩ := List.pairwise_cons.mp hl
      rw [List.foldr_cons, List.flatMap_cons, foldEntries, List.foldl_append]
      by_cases hs : stops I
      · have hnil : l.flatMap E = [] := List.flatMap_eq_nil_iff.mpr fun J hJ => hcut I J hs (hI J hJ)
        rw [hstop I hs, hnil]
        rfl
      · have hbefore : ∀ J < I, ¬ stops J := by
          intro J hlt hJ
          rcases List.mem_cons.mp (hpre I List.mem_cons_self J hlt hJ) with rfl | hmem
          · exact hs hJ
          · exact absurd (hI J hmem) (Fin.lt_asymm hlt)
        rw [hgo I hs hbefore, ih hl]
        · rfl
        · intro I' hI' J hlt hJ
          rcases List.mem_cons.mp (hpre I' (List.mem_cons_of_mem I hI') J hlt hJ) with rfl | hmem
          · exact absurd hJ hs
          · exact hmem
  exact hloop _ (List.pairwise_lt_finRange _) (fun _ _ J _ _ => List.mem_finRange J) a

section Slots

variable {sel : List Nat → Prop} {Key : List Nat} {I0 N : Nat} {child : Fin (N + 1) → Node V}
  {value : Fin (N + 1) → Option V}

theorem picked_tuple : picked sel Key (.tuple I0 N child value) none = (List.finRange (N + 1)).flatMap fun I =>
      picked (fun t => sel ((I0 + I.val) :: t)) (Key ++ [I0 + I.val]) (child I) (value I) := by
  have hentries : entries Key (.tuple I0 N child value) none =
    (List.finRange (N + 1)).flatMap fun I => entries (Key ++ [I0 + I.val]) (child I) (value I) := rfl
  simp only [picked, hentries, List.filter_flatMap]
  refine congrArg (List.flatMap · _) (funext fun I => List.filter_congr fun p hp => ?_)
  obtain ⟨t, ht, -⟩ := mem_entries.mp hp
  rw [ht, List.drop_left, List.append_assoc, List.drop_left]
  rfl

theorem picked_slot {H : Nat} (h : InRange H I0 N) (hsel : ∀ t, sel t → ∃ t', t = H :: t') :
    picked sel Key (.tuple I0 N child value) none =
      picked (fun t => sel (H :: t)) (Key ++ [H]) (child (slot h)) (value (slot h)) := by
  refine eq_of_sorted picked_sorted picked_sorted fun k x => ?_
  rw [mem_picked, mem_picked]
  constructor
  · rintro ⟨t, rfl, hx, ht⟩
    obtain ⟨t', rfl⟩ := hsel t ht
    rw [content_tuple_cons _ _ h] at hx
    exact ⟨t', by simp, hx, ht⟩
  · rintro ⟨t, rfl, hx, ht⟩
    exact ⟨H :: t, by simp, by rw [content_tuple_cons _ _ h, hx], ht⟩

/-- The value of the node itself is visited first. -/
theorem picked_value (x : V) (h : sel []) :
    picked sel Key (.tuple I0 N child value) (some x) = (Key, x) :: picked sel Key (.tuple I0 N child value) none := by
  have hentries : entries Key (.tuple I0 N child value) (some x) =
    (Key, x) :: entries Key (.tuple I0 N child value) none := rfl
  simp only [picked, hentries, List.filter_cons, List.drop_length, h, decide_true, if_true]

theorem picked_below (v : Option V) (h : ¬ sel []) :
    picked sel Key (.tuple I0 N child value) v = picked sel Key (.tuple I0 N child value) none := by
  cases v with
  | none => rfl
  | some x =>
    have hentries : entries Key (.tuple I0 N child value) (some x) =
      (Key, x) :: entries Key (.tuple I0 N child value) none := rfl
    simp only [picked, hentries, List.filter_cons, List.drop_length, h, decide_false, Bool.false_eq_true, if_false]

end Slots

section Lost

variable {M : List Nat} {t : List Nat} {c : Node V}

@[simp] theorem not_lost_nil : ¬ Lost [] c t := by simp [Lost]

@[simp] theorem not_lost_suffix (s : List Nat) : ¬ Lost M (.suffix s : Node V) t := by simp [Lost]

@[simp] theorem not_lostAfter_nil : ¬ LostAfter [] c t := by simp [LostAfter]

@[simp] theorem not_lostAfter_suffix (s : List Nat) : ¬ LostAfter M (.suffix s : Node V) t := by simp [LostAfter]

theorem afterStar_nil (t : List Nat) : AfterStar star [] t := ⟨t, [], rfl, (List.append_nil t).symm⟩

theorem not_afterStar_nil (hM : M ≠ []) : ¬ AfterStar star M [] := by
  rintro ⟨u, t', ht', hu⟩
  rw [(List.append_eq_nil_iff.mp hu.symm).2] at ht'
  exact hM (nil_mem_language.mp ht')

/-- A character that is not the next one of the pattern is read by the `*`. -/
theorem afterStar_skip {C : Nat} (hC : C ≠ star) {u : List Nat} (hu : C ∉ u) (t : List Nat) :
    AfterStar star (C :: M) (u ++ t) ↔ AfterStar star (C :: M) t := by
  induction u with
  | nil => rfl
  | cons c u ih =>
    rw [List.mem_cons, not_or] at hu
    rw [← ih hu.2, List.cons_append]
    constructor
    · rintro ⟨_ | ⟨c', u'⟩, t', ht', heq⟩
      · obtain ⟨t'', -, rfl⟩ := (mem_language_cons hC).mp ht'
        exact absurd (List.cons.inj heq).1.symm hu.1
      · exact ⟨u', t', ht', (List.cons.inj heq).2⟩
    · rintro ⟨u', t', ht', heq⟩
      exact ⟨c :: u', t', ht', by rw [heq]; rfl⟩

/-- The key that ends at a node, when the pattern ends there. -/
theorem picked_here {Key : List Nat} (hc : c.isTuple = true ∨ c = .suffix []) (v : Option V)
    (F : List Nat → V → A → A) (a : A) :
    foldEntries F (picked (fun t => t ∈ language star [] ∧ ¬ Lost [] c t) Key c v) a = v.elim a fun x => F Key x a := by
  have hself : c.content v [] = v := by
    rcases hc with hc | rfl
    · cases c with
      | suffix => exact nomatch hc
      | tuple => rfl
    · rfl
  have heq : picked (fun t => t ∈ language star [] ∧ ¬ Lost [] c t) Key c v = v.toList.map (Key, ·) := by
    refine eq_of_sorted picked_sorted (by cases v <;> simp) fun k x => ?_
    rw [mem_picked]
    simp only [mem_language_nil, not_lost_nil, not_false_iff, and_true, List.mem_map, Option.mem_toList, Prod.mk.injEq]
    constructor
    · rintro ⟨t, rfl, hx, rfl⟩
      exact ⟨x, hself.symm.trans hx, (List.append_nil Key).symm, rfl⟩
    · rintro ⟨y, hy, rfl, rfl⟩
      exact ⟨[], (List.append_nil Key).symm, hself.trans hy, rfl⟩
  rw [heq]
  cases v <;> rfl

/-- No key ends within a compressed end. -/
theorem picked_within {Key : List Nat} (C : Nat) (s : List Nat) (v : Option V) :
    picked (fun t => t ∈ language star [] ∧ ¬ Lost [] (.suffix (C :: s) : Node V) t) Key (.suffix (C :: s)) v = [] := by
  refine picked_eq_nil fun t x hx ht => ?_
  rw [mem_language_nil.mp ht.1, content_suffix, if_neg (List.cons_ne_nil C s).symm] at hx
  exact nomatch hx

/-- A compressed end is visited when the pattern matches what has been read since the `*` and the end. -/
theorem end_visits {F : List Nat → V → A → A} {P s Suffix Prefix Key : List Nat} {x : V} {sel : List Nat → Prop}
    (hP : NoDouble star P) (hs : star ∉ Suffix) (hsel : Suffix ∈ language star P ↔ sel s)
    (hkey : Prefix ++ Suffix = Key ++ s) (rest : A → Except Exn A) (a : A) :
    (do rest (if ← wildcardMatchLists P Suffix then F (Prefix ++ Suffix) x a else a)) =
      rest (foldEntries F (picked sel Key (.suffix s) (some x)) a) := by
  obtain ⟨b, hb, hiff⟩ := (wildcardMatchLists_spec hs).1 P hP
  rw [hb, hkey]
  exact congrArg rest (picked_end b (hiff.trans hsel) F a)

end Lost

/-- What is visited from a node, along a pattern and while a `*` is read. -/
structure Visits (F : List Nat → V → A → A) (node : Node V) : Prop where
  node1 : ∀ P Prefix a, P ≠ [] → NoDouble star P → foldMatchNode1 F P a Prefix node =
    .ok (foldEntries F (picked (fun t => t ∈ language star P ∧ ¬ Lost P node t) Prefix node none) a)
  elementN : ∀ M Prefix m ms a, NoDouble star (star :: M) → star ∉ m :: ms → (∀ C, M.head? = some C → C ∉ ms) →
    foldMatchElementN F (star :: M) a Prefix (m :: ms) node =
      .ok (foldEntries F (picked (fun t => AfterStar star M t ∧ ¬ LostAfter M node t) (Prefix ++ m :: ms) node none) a)

section Step

variable {F : List Nat → V → A → A} {I0 N : Nat} {child : Fin (N + 1) → Node V} {value : Fin (N + 1) → Option V}

theorem slot_self (I : Fin (N + 1)) : ∃ h : InRange (I0 + I.val) I0 N, slot h = I := by
  have h : InRange (I0 + I.val) I0 N := by omega
  exact ⟨h, Fin.ext (by simp only [slot]; omega)⟩

theorem lost_literal {H : Nat} {T : List Nat} (hH : H ≠ star) (h : InRange H I0 N) (t : List Nat) :
    Lost (H :: T) (.tuple I0 N child value) (H :: t) ↔ Lost T (child (slot h)) t := by
  rw [Lost, dif_pos h, if_neg hH]

theorem lost_star {T : List Nat} (I : Fin (N + 1)) (t : List Nat) :
    Lost (star :: T) (.tuple I0 N child value) ((I0 + I.val) :: t) ↔ LostAfter T (child I) t := by
  obtain ⟨h, hI⟩ := @slot_self I0 N I
  rw [Lost, dif_pos h, if_pos rfl, hI]

theorem lostAfter_cons {C : Nat} {M : List Nat} (I : Fin (N + 1)) (t : List Nat) :
    LostAfter (C :: M) (.tuple I0 N child value) ((I0 + I.val) :: t) ↔
      if C = I0 + I.val then t ∉ language star M ∨ Lost M (child I) t
      else (I0 ≤ C ∧ C < I0 + I.val) ∨ LostAfter (C :: M) (child I) t := by
  obtain ⟨h, hI⟩ := @slot_self I0 N I
  rw [LostAfter, dif_pos h, hI]

variable (hstar : NoStar (.tuple I0 N child value) none) (ih : ∀ I, (child I).isTuple = true → Visits F (child I))

include hstar in
theorem end_noStar {I : Fin (N + 1)} {s : List Nat} {x : V} (hc : child I = .suffix s) (hv : value I = some x) :
    star ∉ s := by
  have := (hstar I).2
  rw [hc, hv] at this
  exact this nofun

include hstar ih in
/-- A literal character. -/
theorem node1_literal {H : Nat} {T : List Nat} (hH : H ≠ star) (hd : NoDouble star (H :: T)) (Prefix : List Nat)
    (a : A) : foldMatchNode1 F (H :: T) a Prefix (.tuple I0 N child value) =
      .ok (foldEntries F (picked (fun t => t ∈ language star (H :: T) ∧ ¬ Lost (H :: T) (.tuple I0 N child value) t)
        Prefix (.tuple I0 N child value) none) a) := by
  rw [foldMatchNode1]
  simp only [if_neg hH]
  by_cases h : InRange H I0 N
  · have hslot : ∀ t, H :: t ∈ language star (H :: T) ↔ t ∈ language star T := by
      intro t
      rw [mem_language_cons hH]
      exact ⟨fun ht => by obtain ⟨t', ht', heq⟩ := ht; rwa [(List.cons.inj heq).2], fun ht => ⟨t, ht, rfl⟩⟩
    rw [dif_pos h, picked_slot h fun t ht => by obtain ⟨t', -, rfl⟩ := (mem_language_cons hH).mp ht.1; exact ⟨t', rfl⟩]
    simp only [hslot, lost_literal hH h]
    cases T with
    | nil =>
      cases hc : child (slot h) with
      | tuple =>
        rw [picked_here (.inl rfl)]
        cases value (slot h) <;> rfl
      | suffix s =>
        cases s with
        | nil =>
          rw [picked_here (.inr rfl)]
          cases value (slot h) <;> rfl
        | cons C s =>
          rw [picked_within]
          cases value (slot h) <;> rfl
    | cons C T =>
      cases hc : child (slot h) with
      | tuple =>
        have hvisits := (ih (slot h) (by rw [hc]; rfl)).node1 (C :: T) (Prefix ++ [H]) a (List.cons_ne_nil C T) hd.tail
        rw [hc] at hvisits
        rw [picked_below _ fun hnil => List.cons_ne_nil C T (nil_mem_language.mp hnil.1)]
        exact hvisits
      | suffix s =>
        cases hv : value (slot h) with
        | none => rfl
        | some x =>
          exact end_visits hd.tail (end_noStar hstar hc hv) (by simp) rfl Except.ok a
  · rw [dif_neg h, picked_eq_nil]
    · rfl
    · rintro t x hx ⟨ht, -⟩
      obtain ⟨t', -, rfl⟩ := (mem_language_cons hH).mp ht
      rw [content_tuple_out _ _ h] at hx
      cases hx

include hstar in
/-- The slot of `*` is passed over. -/
theorem star_slot {I : Fin (N + 1)} (hI : I0 + I.val = star) {β : Type} (x y : β) :
    (match child I, value I with
      | .suffix [], none => x
      | _, _ => y) = x := by
  obtain ⟨hc, hv⟩ := (hstar I).1 hI
  rw [hc, hv]

include hstar ih in
/-- A `*`, which reads the character of each slot. -/
theorem node1_star {T : List Nat} (hd : NoDouble star (star :: T)) (Prefix : List Nat) (a : A) :
    foldMatchNode1 F (star :: T) a Prefix (.tuple I0 N child value) =
      .ok (foldEntries F
        (picked (fun t => t ∈ language star (star :: T) ∧ ¬ Lost (star :: T) (.tuple I0 N child value) t) Prefix
          (.tuple I0 N child value) none) a) := by
  have hhead : T.head? ≠ some star := by
    cases T with
    | nil => simp
    | cons C T => exact fun h => hd.ne_star (Option.some.inj h)
  rw [foldMatchNode1, picked_tuple]
  simp only [if_true, if_neg hhead, mem_language_star_cons, lost_star]
  refine foldr_visits (fun _ => False) (fun I _ _ rest a => ?_) (fun I hI => hI.elim) (fun I J hI => hI.elim) a
  by_cases hI : I0 + I.val = star
  · rw [if_pos hI, star_slot hstar hI, ((hstar I).1 hI).1, ((hstar I).1 hI).2]
    rfl
  · rw [if_neg hI]
    cases hc : child I with
    | tuple =>
      have hvisits := fun a => (ih I (by rw [hc]; rfl)).elementN T Prefix (I0 + I.val) [] a hd
        (by simp [Ne.symm hI]) fun C _ => List.not_mem_nil
      rw [hc] at hvisits
      simp only [hvisits]
      cases T with
      | nil =>
        cases value I with
        | none => rfl
        | some x =>
          rw [picked_value x ⟨afterStar_nil [], not_lostAfter_nil⟩]
          rfl
      | cons C T =>
        rw [picked_below (value I) fun hnil => not_afterStar_nil (List.cons_ne_nil C T) hnil.1]
        simp only [reduceCtorEq, if_false]
        cases value I <;> rfl
    | suffix s =>
      cases hv : value I with
      | none => rfl
      | some x =>
        have hs : star ∉ (I0 + I.val) :: s :=
          List.not_mem_cons_of_ne_of_not_mem (Ne.symm hI) (end_noStar hstar hc hv)
        exact end_visits hd hs (by simp [mem_language_star_cons]) (by simp) rest a

include hstar ih in
/-- A `*` at the end of the pattern. -/
theorem elementN_all (Prefix : List Nat) {m : Nat} {ms : List Nat} (hmid : star ∉ m :: ms) (a : A) :
    foldMatchElementN F [star] a Prefix (m :: ms) (.tuple I0 N child value) =
      .ok (foldEntries F (picked (fun t => AfterStar star [] t ∧ ¬ LostAfter [] (.tuple I0 N child value) t)
        (Prefix ++ m :: ms) (.tuple I0 N child value) none) a) := by
  rw [foldMatchElementN, picked_tuple]
  simp only [afterStar_nil, not_lostAfter_nil, not_false_iff, and_self]
  refine foldr_visits (fun _ => False) (fun I _ _ rest a => ?_) (fun I hI => hI.elim) (fun I J hI => hI.elim) a
  by_cases hI : I0 + I.val = star
  · rw [if_pos hI, star_slot hstar hI, ((hstar I).1 hI).1, ((hstar I).1 hI).2]
    rfl
  · rw [if_neg hI]
    cases hc : child I with
    | tuple =>
      have hvisits := fun a => (ih I (by rw [hc]; rfl)).elementN [] Prefix m (ms ++ [I0 + I.val]) a (by decide)
        (by rw [← List.cons_append, List.mem_append, not_or]; exact ⟨hmid, by simp [Ne.symm hI]⟩) (by simp)
      rw [hc] at hvisits
      simp only [afterStar_nil, not_lostAfter_nil, not_false_iff, and_self] at hvisits
      simp only [List.cons_append, hvisits]
      rw [List.append_assoc Prefix]
      cases value I with
      | none => rfl
      | some x =>
        rw [picked_value x trivial]
        rfl
    | suffix s =>
      cases hv : value I with
      | none => rfl
      | some x =>
        rw [← picked_end true (iff_of_true rfl trivial), if_pos rfl]
        simp only [List.append_assoc]

include hstar ih in
/-- A `*` before the character `C`. -/
theorem elementN_literal {C : Nat} {M : List Nat} (hd : NoDouble star (star :: C :: M)) (Prefix : List Nat) {m : Nat}
    {ms : List Nat} (hmid : star ∉ m :: ms) (hms : C ∉ ms) (a : A) :
    foldMatchElementN F (star :: C :: M) a Prefix (m :: ms) (.tuple I0 N child value) =
      .ok (foldEntries F (picked (fun t => AfterStar star (C :: M) t ∧ ¬ LostAfter (C :: M) (.tuple I0 N child value) t)
        (Prefix ++ m :: ms) (.tuple I0 N child value) none) a) := by
  have hC := hd.ne_star
  rw [foldMatchElementN, picked_tuple]
  simp only [lostAfter_cons]
  refine foldr_visits (fun I => C = I0 + I.val) (fun I hne hbefore rest a => ?_) (fun I heq rest a => ?_)
    (fun I J heq hlt => ?_) a
  · by_cases hI : I0 + I.val = star
    · rw [if_pos hI, star_slot hstar hI, ((hstar I).1 hI).1, ((hstar I).1 hI).2]
      rfl
    · rw [if_neg hI]
      simp only [if_neg hne]
      -- No earlier slot is that of `C`.
      have hlate : ¬ (I0 ≤ C ∧ C < I0 + I.val) := by
        intro h
        refine hbefore ⟨C - I0, by omega⟩ (Fin.lt_def.mpr ?_) ?_
        · show C - I0 < I.val
          omega
        · show C = I0 + (C - I0)
          omega
      have hskip : ∀ t, AfterStar star (C :: M) ((I0 + I.val) :: t) ↔ AfterStar star (C :: M) t :=
        afterStar_skip hC (u := [I0 + I.val]) (by simpa using hne)
      have hmid' : star ∉ m :: (ms ++ [I0 + I.val]) := by
        rw [← List.cons_append, List.mem_append, not_or]
        exact ⟨hmid, by simp [Ne.symm hI]⟩
      have hms' : C ∉ ms ++ [I0 + I.val] := by
        rw [List.mem_append, not_or]
        exact ⟨hms, by simpa using hne⟩
      simp only [hskip, hlate, false_or]
      cases hc : child I with
      | tuple =>
        have hvisits := (ih I (by rw [hc]; rfl)).elementN (C :: M) Prefix m (ms ++ [I0 + I.val]) a hd hmid'
          fun C' h => by cases h; exact hms'
        rw [hc] at hvisits
        rw [picked_below _ fun hnil => not_afterStar_nil (List.cons_ne_nil C M) hnil.1]
        simp only [List.cons_append, hvisits]
        rw [List.append_assoc Prefix]
        rfl
      | suffix s =>
        cases hv : value I with
        | none => rfl
        | some x =>
          have hs := end_noStar hstar hc hv
          have hsuffix : star ∉ m :: ms ++ [I0 + I.val] ++ s := by
            rw [List.mem_append, not_or]
            exact ⟨hmid', hs⟩
          refine end_visits hd hsuffix ?_ (by simp) rest a
          rw [List.cons_append, List.cons_append, mem_language_star_cons, afterStar_skip hC hms']
          simp
  · simp only [if_pos heq]
    have hne : I0 + I.val ≠ star := heq ▸ hC
    have hsel : ∀ t, AfterStar star (C :: M) ((I0 + I.val) :: t) ∧
        ¬ (t ∉ language star M ∨ Lost M (child I) t) ↔ t ∈ language star M ∧ ¬ Lost M (child I) t := by
      intro t
      rw [not_or, not_not, and_iff_right_iff_imp, ← heq]
      exact fun ht => (afterStar_cons hC List.not_mem_nil).mpr (.inl ht.1)
    simp only [hsel, if_neg hne]
    cases M with
    | nil =>
      cases hc : child I with
      | tuple =>
        rw [picked_here (.inl rfl), List.append_assoc]
        cases value I <;> rfl
      | suffix s =>
        cases s with
        | nil =>
          rw [picked_here (.inr rfl), List.append_assoc]
          cases value I <;> rfl
        | cons C s =>
          rw [picked_within]
          cases value I <;> rfl
    | cons C' M =>
      cases hc : child I with
      | tuple =>
        have hvisits := (ih I (by rw [hc]; rfl)).node1 (C' :: M) (Prefix ++ m :: ms ++ [I0 + I.val]) a
          (List.cons_ne_nil C' M)
          hd.tail.tail
        rw [hc] at hvisits
        rw [picked_below _ fun hnil => List.cons_ne_nil C' M (nil_mem_language.mp hnil.1), ← hvisits, List.append_assoc]
      | suffix s =>
        cases hv : value I with
        | none => rfl
        | some x =>
          simp only [← List.append_assoc]
          exact end_visits hd.tail.tail (end_noStar hstar hc hv) (by simp) rfl Except.ok a
  · refine picked_eq_nil fun t x _ ht => ht.2 ?_
    have := Fin.lt_def.mp hlt
    rw [if_neg (by omega)]
    exact .inl (by omega)

end Step

theorem visits (F : List Nat → V → A → A) {node : Node V} (hn : node.isTuple = true) (hstar : NoStar node none) :
    Visits F node := by
  induction node with
  | suffix => exact nomatch hn
  | tuple I0 N child value ih =>
    have ih' : ∀ I, (child I).isTuple = true → Visits F (child I) := by
      intro I hI
      refine ih I hI ?_
      have hI' := (hstar I).2
      cases hc : child I with
      | suffix =>
        rw [hc] at hI
        exact nomatch hI
      | tuple =>
        rw [hc] at hI'
        exact hI'
    constructor
    · intro P Prefix a hP hd
      obtain ⟨H, T, rfl⟩ := List.exists_cons_of_ne_nil hP
      by_cases hH : H = star
      · subst hH
        exact node1_star hstar ih' hd Prefix a
      · exact node1_literal hstar ih' hH hd Prefix a
    · intro M Prefix m ms a hd hmid hms
      cases M with
      | nil => exact elementN_all hstar ih' Prefix hmid a
      | cons C M => exact elementN_literal hstar ih' hd Prefix hmid (hms C rfl) a

/-! ## Tries of keys without `*` -/

theorem Branches.slot {I0 N : Nat} {child : Fin (N + 1) → Node V} {value : Fin (N + 1) → Option V} {v : Option V}
    {I : Fin (N + 1)} {p : List Nat} (h : Branches ((tuple I0 N child value).content v) ((I0 + I.val) :: p)) :
    Branches ((child I).content (value I)) p := by
  obtain ⟨hr, hI⟩ := @slot_self I0 N I
  obtain ⟨_, _, hne, ⟨t₁, rfl⟩, ⟨t₂, rfl⟩, h₁, h₂⟩ := h
  rw [List.cons_append, content_tuple_cons _ _ hr, hI] at h₁ h₂
  exact ⟨p ++ t₁, p ++ t₂, fun he => hne (by simp [he]), List.prefix_append .., List.prefix_append .., h₁, h₂⟩

theorem noStar_of_keys {c : Node V} {v : Option V} (hclean : CleanSlot c v)
    (hkeys : ∀ t, c.content v t ≠ none → star ∉ t)
    (hbranches : ∀ p ≠ [], isTupleAt c p = true → Branches (c.content v) p) : NoStar c v := by
  induction c generalizing v with
  | suffix s =>
    intro hv
    refine hkeys s ?_
    rwa [content_suffix, if_pos rfl]
  | tuple I0 N child value ih =>
    intro I
    obtain ⟨hr, hI⟩ := @slot_self I0 N I
    have hslot : ∀ t, (tuple I0 N child value).content v ((I0 + I.val) :: t) = (child I).content (value I) t := by
      intro t
      rw [content_tuple_cons _ _ hr, hI]
    have hdeep : ∀ p, isTupleAt (child I) p = true → Branches ((child I).content (value I)) p := by
      intro p hp
      refine (hbranches ((I0 + I.val) :: p) nofun ?_).slot
      rw [isTupleAt_tuple_cons hr, hI, hp]
    have hkeys' : ∀ t, (child I).content (value I) t ≠ none → star ∉ (I0 + I.val) :: t := by
      intro t ht
      exact hkeys _ (by rwa [hslot])
    refine ⟨fun hstar => ?_, ih I (hclean.1 I) (fun t ht => fun hmem => ?_) fun p _ => hdeep p⟩
    · have hnone : ∀ t, (child I).content (value I) t = none := by
        intro t
        by_contra ht
        exact hkeys' t ht (by rw [hstar]; exact List.mem_cons_self)
      cases hc : child I with
      | tuple =>
        obtain ⟨k, -, -, -, -, hk, -⟩ := hdeep [] (by rw [hc]; rfl)
        exact absurd (hnone k) hk
      | suffix s =>
        have hv : value I = none := by
          have hs := hnone s
          rwa [hc, content_suffix, if_pos rfl] at hs
        cases s with
        | nil => exact ⟨rfl, hv⟩
        | cons BH BT => exact absurd hv ((hclean.1 I).2 BH BT hc)
    · exact hkeys' t ht (List.mem_cons_of_mem _ hmem)

theorem exists_of_stored {ops : List (Pattern × V)} {k : List Nat} (h : stored ops k ≠ none) :
    ∃ op ∈ ops, op.1.val = k := by
  have hrun : ∀ (ops : List (Pattern × V)) (m : List Nat → Option V),
      ops.foldl (fun (m : List Nat → Option V) op => Function.update m op.1.val (some op.2)) m k ≠ none →
        m k ≠ none ∨ ∃ op ∈ ops, op.1.val = k := by
    intro ops
    induction ops with
    | nil => exact fun m h => .inl h
    | cons op ops ih =>
      intro m h
      rcases ih _ h with h | ⟨op', hop', hk⟩
      · by_cases hk : k = op.1.val
        · exact .inr ⟨op, List.mem_cons_self, hk.symm⟩
        · exact .inl ((Function.update_of_ne hk _ _).symm.trans_ne h)
      · exact .inr ⟨op', List.mem_cons_of_mem op hop', hk⟩
  exact (hrun ops _ h).resolve_left (fun h => h rfl)

/-- `fold_match/4` goes through the entries whose keys match the pattern. -/
def FoldsMatches (m : List Nat → Option V) (Match : List Nat) (node : Node V) : Prop :=
  ∃ l : List (List Nat × V), l.Pairwise (fun p q => p.1 < q.1) ∧
    (∀ k x, (k, x) ∈ l ↔ m k = some x ∧ k ∈ language star Match) ∧
    ∀ {A : Type} (F : List Nat → V → A → A) (a : A),
      foldMatch Match F a node = .ok (l.foldl (fun a p => F p.1 p.2 a) a)

theorem foldl_snoc (l L : List (List Nat × V)) : l.foldl (fun L p => L ++ [(p.1, p.2)]) L = L ++ l := by
  induction l generalizing L with
  | nil => exact (List.append_nil L).symm
  | cons p l ih => rw [List.foldl_cons, ih, List.append_assoc, List.singleton_append]

theorem foldMatch_eq {node : Node V} (hn : node.isTuple = true) (hstar : NoStar node none) {Match : List Nat}
    (hM : Match ≠ []) (hd : NoDouble star Match) (F : List Nat → V → A → A) (a : A) :
    foldMatch Match F a node =
      .ok (foldEntries F (picked (fun t => t ∈ language star Match ∧ ¬ Lost Match node t) [] node none) a) := by
  rw [← (visits F hn hstar).node1 Match [] a hM hd]
  cases node with
  | suffix => exact nomatch hn
  | tuple => rfl

/-- `fold_match/4` visits the stored keys that match if and only if none of them is lost to the pattern. -/
theorem fold_match_iff (ops : List (Pattern × V)) (hops : ∀ op ∈ ops, star ∉ op.1.val) {node : Node V}
    (hnode : storeAll ops = .ok node) (Match : List Nat) (hd : NoDouble star Match) :
    FoldsMatches (stored ops) Match node ↔ (Match ≠ [] ∨ ops = []) ∧
      ∀ k, stored ops k ≠ none → k ∈ language star Match → ¬ Lost Match node k := by
  obtain ⟨node', hr, hstores⟩ := storeAll_stores ops
  obtain rfl : node' = node := Except.ok.inj (hr.symm.trans hnode)
  have hlookup : ∀ k, lookup node' k = stored ops k := congrFun hstores.lookup_eq
  rcases List.eq_nil_or_concat ops with rfl | ⟨ops', op, hlast⟩
  · cases hnode
    refine iff_of_true ⟨[], List.Pairwise.nil, fun k x => ?_, fun F a => rfl⟩ ⟨.inr rfl, fun k hk => absurd rfl hk⟩
    exact iff_of_false List.not_mem_nil fun h => nomatch h.1
  have hheld : stored ops op.1.val = some op.2 := by
    rw [hlast, List.concat_eq_append, stored, List.foldl_append]
    exact Function.update_self ..
  have ht : node'.isTuple = true := by
    rcases hstores.trie with rfl | ht
    · rw [← hlookup, lookup_suffix_nil] at hheld
      exact nomatch hheld
    · exact ht
  have hstar : NoStar node' none := by
    refine noStar_of_keys (cleanSlot_of_isTuple hstores.clean ht none) (fun t h => ?_) fun p hp hdeep => ?_
    · obtain ⟨op', hop', rfl⟩ := @exists_of_stored V ops t (by rw [← hlookup]; exact h)
      exact hops op' hop'
    · have := hstores.branches p hp hdeep
      rwa [← hstores.lookup_eq] at this
  by_cases hM : Match = []
  · subst hM
    refine iff_of_false (fun h => ?_) fun h => ?_
    · obtain ⟨l, -, -, hl⟩ := h
      have hfold := hl (fun _ _ a => a) ()
      cases node' with
      | suffix => exact nomatch ht
      | tuple => exact nomatch hfold
    · rw [h.1.resolve_left (fun h => h rfl)] at hlast
      exact absurd hlast.symm (by simp)
  · have hfold := fun {A : Type} => @foldMatch_eq V A node' ht hstar Match hM hd
    rw [and_iff_right (.inl hM)]
    constructor
    · rintro ⟨l, -, hmem, hl⟩ k hk hmatch
      obtain ⟨x, hx⟩ := Option.ne_none_iff_exists'.mp hk
      have heq := (hl (fun k x L => L ++ [(k, x)]) []).symm.trans (hfold _ _)
      rw [foldEntries, foldl_snoc, foldl_snoc, Except.ok.injEq, List.nil_append, List.nil_append] at heq
      have hin := (hmem k x).mpr ⟨hx, hmatch⟩
      rw [heq] at hin
      obtain ⟨t, rfl, -, hsel⟩ := mem_picked.mp hin
      exact hsel.2
    · intro hlost
      refine ⟨_, picked_sorted, fun k x => ?_, fun F a => hfold F a⟩
      rw [mem_picked]
      constructor
      · rintro ⟨t, rfl, hx, ht⟩
        exact ⟨(hlookup _).symm.trans hx, ht.1⟩
      · rintro ⟨hx, hmatch⟩
        exact ⟨k, rfl, (hlookup k).trans hx, hmatch, hlost k (by rw [hx]; exact nofun) hmatch⟩

/-- The keys `a` and `bc`, and the pattern `*`. -/
theorem fold_match_all : ∃ node, storeAll [(⟨[97], by decide⟩, 1), (⟨[98, 99], by decide⟩, 2)] = .ok node ∧
    FoldsMatches (stored [(⟨[97], by decide⟩, 1), (⟨[98, 99], by decide⟩, 2)]) [star] node := by
  obtain ⟨node, hr, -⟩ := storeAll_stores [((⟨[97], by decide⟩ : Pattern), 1), (⟨[98, 99], by decide⟩, 2)]
  refine ⟨node, hr, (fold_match_iff _ (by decide) hr [star] (by decide)).mpr ⟨.inl nofun, fun k _ _ hlost => ?_⟩⟩
  cases node <;> cases k <;> simp [Lost] at hlost

/-- The keys `ab` and `acb`, and the pattern `*b`: only `ab` is visited. -/
theorem not_folds_matches :
    ¬ ∀ (ops : List (Pattern × Nat)), (∀ op ∈ ops, star ∉ op.1.val) → ∀ node, storeAll ops = .ok node →
      ∀ Match, NoDouble star Match → FoldsMatches (stored ops) Match node := by
  intro h
  have hrun : (storeAll [((⟨[97, 98], by decide⟩ : Pattern), 1), (⟨[97, 99, 98], by decide⟩, 2)]).bind
      (foldMatch [star, 98] (fun k x L => L ++ [(k, x)]) []) = .ok [([97, 98], 1)] := by decide +kernel
  obtain ⟨node, hr, hrun⟩ := bind_eq_ok hrun
  obtain ⟨l, -, hmem, hl⟩ := h _ (by decide) node hr [star, 98] (by decide)
  have heq := hrun.symm.trans (hl _ _)
  rw [foldl_snoc, Except.ok.injEq, List.nil_append] at heq
  have hin := (hmem [97, 99, 98] 2).mpr ⟨by decide,
    mem_language_star_cons.mpr ⟨[99], [98], (mem_language_cons (by decide)).mpr ⟨[], rfl, rfl⟩, rfl⟩⟩
  rw [← heq] at hin
  exact absurd hin (by decide)

end CloudI.Trie
