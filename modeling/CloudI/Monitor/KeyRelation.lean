import CloudI.Framework.Run
import CloudI.Monitor.KeyPairs

/-!
# One relation in two lookups

`key2value` with any module for its lookups. `Holds` relates it to the maps
that the lookups stand for, and each operation does to them what `Key2Value`
does. The lookups find keys that are `=:=`, and `lists:umerge/2` merges those
that are `==`: `pairs_of_reachable` says which sequences of operations keep one
relation, and what holds after them.
-/

namespace CloudI

set_option linter.unusedSectionVars false

variable {K1 K2 V : Type} [LinearOrder K1] [LinearOrder K2]

/-- `key2value`; `D1` and `D2` are its module. -/
structure Key2ValueI (D1 : DictI K1 (List K2 × V)) (D2 : DictI K2 (List K1 × V)) where
  lookup1 : D1.Data
  lookup2 : D2.Data

namespace Key2ValueI

variable {D1 : DictI K1 (List K2 × V)} {D2 : DictI K2 (List K1 × V)} (E1 : TermEq K1) (E2 : TermEq K2)

/-- `new/1` -/
def new : Key2ValueI D1 D2 := ⟨D1.new, D2.new⟩

/-- `store/4`; `E1` and `E2` are the `==` of the keys. -/
def store (k1 : K1) (k2 : K2) (v : V) (s : Key2ValueI D1 D2) : Except Exn (Key2ValueI D1 D2) := do
  let lookup1 ← D1.update4 k1 (fun x => .ok (umergeEq E2 x.1 [k2], v)) ([k2], v) s.lookup1
  let lookup2 ← D2.update4 k2 (fun x => .ok (umergeEq E1 x.1 [k1], v)) ([k1], v) s.lookup2
  return ⟨lookup1, lookup2⟩

/-- The entry that was found for a key loses a key of the other kind. -/
def without {K K' : Type} [LinearOrder K'] (D : DictI K (List K' × V)) (k : K) (k' : K') (L : List K') (v : V)
    (d : D.Data) : Except Exn D.Data :=
  if L = [k'] then D.erase k d else D.store k (L.erase k', v) d

/-- `erase/3` -/
def erase (k1 : K1) (k2 : K2) (s : Key2ValueI D1 D2) : Except Exn (Key2ValueI D1 D2) := do
  match ← D1.find k1 s.lookup1 with
  | some (L2, V2) =>
    match ← D2.find k2 s.lookup2 with
    | some (L1, V1) =>
      let lookup1 ← without D1 k1 k2 L2 V2 s.lookup1
      let lookup2 ← without D2 k2 k1 L1 V1 s.lookup2
      return ⟨lookup1, lookup2⟩
    | none => return s
  | none => return s

/-- `erase1/2` -/
def erase1 (k1 : K1) (s : Key2ValueI D1 D2) : Except Exn (Key2ValueI D1 D2) := do
  match ← D1.find k1 s.lookup1 with
  | some (L, _) => L.foldlM (fun D k2 => erase k1 k2 D) s
  | none => return s

/-- `erase2/2` -/
def erase2 (k2 : K2) (s : Key2ValueI D1 D2) : Except Exn (Key2ValueI D1 D2) := do
  match ← D2.find k2 s.lookup2 with
  | some (L, _) => L.foldlM (fun D k1 => erase k1 k2 D) s
  | none => return s

/-- `update1/3` -/
def update1 (k1 : K1) (F : V → V) (s : Key2ValueI D1 D2) : Except Exn (Key2ValueI D1 D2) := do
  match ← D1.find k1 s.lookup1 with
  | none => .error .badmatch
  | some (K2L, _) =>
    let NewLookup2 ← K2L.foldlM (fun d k2 => D2.update3 k2 (fun x => .ok (x.1, F x.2)) d) s.lookup2
    let lookup1 ← D1.update3 k1 (fun x => .ok (x.1, F x.2)) s.lookup1
    return ⟨lookup1, NewLookup2⟩

/-- `update2/3` -/
def update2 (k2 : K2) (F : V → V) (s : Key2ValueI D1 D2) : Except Exn (Key2ValueI D1 D2) := do
  match ← D2.find k2 s.lookup2 with
  | none => .error .badmatch
  | some (K1L, _) =>
    let NewLookup1 ← K1L.foldlM (fun d k1 => D1.update3 k1 (fun x => .ok (x.1, F x.2)) d) s.lookup1
    let lookup2 ← D2.update3 k2 (fun x => .ok (x.1, F x.2)) s.lookup2
    return ⟨NewLookup1, lookup2⟩

/-! ## The maps -/

/-- The lookups stand for the maps. -/
structure Holds (s : Key2ValueI D1 D2) (p : Key2Value K1 K2 V) : Prop where
  lookup1 : D1.Holds s.lookup1 p.lookup1
  lookup2 : D2.Holds s.lookup2 p.lookup2

variable {E1 E2} {s s' : Key2ValueI D1 D2} {p : Key2Value K1 K2 V} {k1 : K1} {k2 : K2}

/-- The two kinds of keys exchanged. -/
def swap (s : Key2ValueI D1 D2) : Key2ValueI D2 D1 := ⟨s.lookup2, s.lookup1⟩

theorem Holds.swap (h : s.Holds p) : s.swap.Holds p.swap := ⟨h.lookup2, h.lookup1⟩

theorem holds_new : (new : Key2ValueI D1 D2).Holds Key2Value.new := ⟨D1.holds_new, D2.holds_new⟩

theorem holds_store (h : s.Holds p) (k1 : K1) (k2 : K2) (v : V) :
    ∃ s', s.store E1 E2 k1 k2 v = .ok s' ∧ s'.Holds (p.storeEq E1 E2 k1 k2 v) := by
  have hvalue : ∀ {K : Type} [LinearOrder K] (E : TermEq K) (o : Option (List K × V)) (k : K),
      o.elim (.ok ([k], v)) (fun x => .ok (umergeEq E x.1 [k], v)) =
        (.ok (o.elim ([k], v) fun x => (umergeEq E x.1 [k], v)) : Except Exn (List K × V)) := by
    intro K _ E o k
    cases o <;> rfl
  obtain ⟨d1, hr1, h1⟩ := D1.update4_ok h.lookup1 (hvalue E2 (p.lookup1 k1) k2)
  obtain ⟨d2, hr2, h2⟩ := D2.update4_ok h.lookup2 (hvalue E1 (p.lookup2 k2) k1)
  exact ⟨⟨d1, d2⟩, by rw [store, bind_ok hr1, bind_ok hr2]; rfl, h1, h2⟩

theorem holds_without {K K' : Type} [LinearOrder K] [LinearOrder K'] {D : DictI K (List K' × V)} {d : D.Data}
    {m : Dict K (List K' × V)} (h : D.Holds d m) {k : K} {L : List K'} {v : V} (hk : m k = some (L, v)) (k' : K') :
    ∃ d', without D k k' L v d = .ok d' ∧
      D.Holds d' (if L = [k'] then m.erase k else m.store k (L.erase k', v)) := by
  rw [without]
  split
  · exact D.erase_ok h (by rw [hk]; exact Option.some_ne_none _)
  · exact D.store_ok h k _

theorem holds_erase (h : s.Holds p) (k1 : K1) (k2 : K2) :
    ∃ s', s.erase k1 k2 = .ok s' ∧ s'.Holds (p.erase k1 k2) := by
  rw [erase, Key2Value.erase, bind_ok (D1.find_ok h.lookup1 k1)]
  cases hk1 : p.lookup1 k1 with
  | none => exact ⟨s, rfl, h⟩
  | some x =>
    obtain ⟨L2, V2⟩ := x
    simp only
    rw [bind_ok (D2.find_ok h.lookup2 k2)]
    cases hk2 : p.lookup2 k2 with
    | none => exact ⟨s, rfl, h⟩
    | some y =>
      obtain ⟨L1, V1⟩ := y
      obtain ⟨d1, hr1, h1⟩ := holds_without h.lookup1 hk1 k2
      obtain ⟨d2, hr2, h2⟩ := holds_without h.lookup2 hk2 k1
      simp only
      rw [bind_ok hr1, bind_ok hr2]
      exact ⟨⟨d1, d2⟩, rfl, h1, h2⟩

theorem holds_erase1 (h : s.Holds p) (k1 : K1) : ∃ s', s.erase1 k1 = .ok s' ∧ s'.Holds (p.erase1 k1) := by
  rw [erase1, Key2Value.erase1, bind_ok (D1.find_ok h.lookup1 k1)]
  cases p.lookup1 k1 with
  | none => exact ⟨s, rfl, h⟩
  | some x =>
    exact foldlM_foldl (fun p k2 => Key2Value.erase k1 k2 p) Holds (fun k2 h => holds_erase h k1 k2) x.1 h

theorem holds_erase2 (h : s.Holds p) (k2 : K2) : ∃ s', s.erase2 k2 = .ok s' ∧ s'.Holds (p.erase2 k2) := by
  rw [erase2, Key2Value.erase2, bind_ok (D2.find_ok h.lookup2 k2)]
  cases p.lookup2 k2 with
  | none => exact ⟨s, rfl, h⟩
  | some x =>
    exact foldlM_foldl (fun p k1 => Key2Value.erase k1 k2 p) Holds (fun k1 h => holds_erase h k1 k2) x.1 h

/-- Values are updated under keys that are found. -/
theorem holds_updates {K K' : Type} [LinearOrder K] [LinearOrder K'] {D : DictI K (List K' × V)} {d : D.Data}
    {m : Dict K (List K' × V)} (h : D.Holds d m) (F : V → V) {L : List K} (hL : L.Nodup)
    (hfound : ∀ k ∈ L, m k ≠ none) :
    ∃ d' m', L.foldlM (fun d k => D.update3 k (fun x => .ok (x.1, F x.2)) d) d = .ok d' ∧ D.Holds d' m' ∧
      ∀ k, (m' k).map Prod.fst = (m k).map Prod.fst := by
  induction L generalizing d m with
  | nil => exact ⟨d, m, rfl, h, fun _ => rfl⟩
  | cons k L ih =>
    obtain ⟨hk, hL⟩ := List.nodup_cons.mp hL
    obtain ⟨x, hx⟩ := Option.ne_none_iff_exists'.mp (hfound k List.mem_cons_self)
    obtain ⟨d₁, hr₁, h₁⟩ := D.update3_ok h (F := fun x => .ok (x.1, F x.2)) hx rfl
    have hsame : ∀ j, (Function.update m k (some (x.1, F x.2)) j).map Prod.fst = (m j).map Prod.fst := by
      intro j
      by_cases hj : j = k
      · subst hj
        rw [Function.update_self, hx]
        rfl
      · rw [Function.update_of_ne hj]
    obtain ⟨d₂, m₂, hr₂, h₂, hsame₂⟩ := ih h₁ hL fun j hj hnone => by
      have hnone' := congrArg (Option.map Prod.fst) hnone
      rw [hsame, Option.map_none, Option.map_eq_none_iff] at hnone'
      exact hfound j (List.mem_cons_of_mem k hj) hnone'
    exact ⟨d₂, m₂, by rw [List.foldlM_cons, bind_ok hr₁, hr₂], h₂, fun j => (hsame₂ j).trans (hsame j)⟩

/-- An update of the value of a key that is found keeps the lists. -/
theorem holds_update1 (h : s.Holds p) (hp : p.Paired) {k1 : K1} {F : V → V} (hr : s.update1 k1 F = .ok s') :
    ∃ p', s'.Holds p' ∧ p.SameLists p' := by
  rw [update1, bind_ok (D1.find_ok h.lookup1 k1)] at hr
  cases hk : p.lookup1 k1 with
  | none =>
    rw [hk] at hr
    cases hr
  | some x =>
    obtain ⟨L, v⟩ := x
    rw [hk] at hr
    simp only at hr
    obtain ⟨d2, m2, hr2, h2, hsame2⟩ := holds_updates h.lookup2 F (hp.lists1 k1 L v hk).2.nodup (hp.found hk)
    obtain ⟨d1, m1, hr1, h1, hsame1⟩ := holds_updates h.lookup1 F (List.nodup_singleton k1) fun k hk' => by
      rw [List.mem_singleton.mp hk', hk]
      exact Option.some_ne_none _
    simp only [List.foldlM_cons, List.foldlM_nil, bind_pure] at hr1
    rw [bind_ok hr2, bind_ok hr1] at hr
    cases hr
    exact ⟨⟨m1, m2⟩, ⟨h1, h2⟩, hsame1, hsame2⟩

theorem update2_swap (k2 : K2) (F : V → V) (s : Key2ValueI D1 D2) :
    s.update2 k2 F = (s.swap.update1 k2 F).map swap := by
  rw [update2, update1]
  show (D2.find k2 s.lookup2 >>= _) = Except.map swap (D2.find k2 s.lookup2 >>= _)
  cases D2.find k2 s.lookup2 with
  | error e => rfl
  | ok o =>
    cases o with
    | none => rfl
    | some x =>
      show (x.1.foldlM _ s.lookup1 >>= _) = Except.map swap (x.1.foldlM _ s.lookup1 >>= _)
      cases x.1.foldlM (fun d k1 => D1.update3 k1 (fun x => .ok (x.1, F x.2)) d) s.lookup1 with
      | error e => rfl
      | ok d =>
        show (D2.update3 k2 _ s.lookup2 >>= _) = Except.map swap (D2.update3 k2 _ s.lookup2 >>= _)
        cases D2.update3 k2 (fun x => .ok (x.1, F x.2)) s.lookup2 <;> rfl

theorem holds_update2 (h : s.Holds p) (hp : p.Paired) {k2 : K2} {F : V → V} (hr : s.update2 k2 F = .ok s') :
    ∃ p', s'.Holds p' ∧ p.SameLists p' := by
  rw [update2_swap] at hr
  cases hr' : s.swap.update1 k2 F with
  | error e =>
    rw [hr'] at hr
    cases hr
  | ok t =>
    rw [hr'] at hr
    cases hr
    obtain ⟨p', hp', hsame⟩ := holds_update1 h.swap hp.swap hr'
    exact ⟨p'.swap, hp'.swap, hsame.lookup2, hsame.lookup1⟩

/-! ## Any sequence of operations -/

/-- The operations that change the state. -/
inductive Op (K1 K2 V : Type) where
  | store (k1 : K1) (k2 : K2) (v : V)
  | erase (k1 : K1) (k2 : K2)
  | erase1 (k1 : K1)
  | erase2 (k2 : K2)
  | update1 (k1 : K1) (F : V → V)
  | update2 (k2 : K2) (F : V → V)

def Op.apply (E1 : TermEq K1) (E2 : TermEq K2) (op : Op K1 K2 V) (s : Key2ValueI D1 D2) :
    Except Exn (Key2ValueI D1 D2) :=
  match op with
  | store k1 k2 v => s.store E1 E2 k1 k2 v
  | erase k1 k2 => s.erase k1 k2
  | erase1 k1 => s.erase1 k1
  | erase2 k2 => s.erase2 k2
  | update1 k1 F => s.update1 k1 F
  | update2 k2 F => s.update2 k2 F

/-- The list that a module finds for a key. -/
def listOf {K K' : Type} (D : DictI K (List K' × V)) (k : K) (d : D.Data) : List K' :=
  match D.find k d with
  | .ok (some (L, _)) => L
  | _ => []

/-- The condition on an operation: if the list of the second key has another key that is `==` to the first key, the list
of the first key has one that is `==` to the second, and the other way. -/
def Op.Meets (E1 : TermEq K1) (E2 : TermEq K2) (op : Op K1 K2 V) (s : Key2ValueI D1 D2) : Prop :=
  match op with
  | store k1 k2 _ => E1.Clashes (listOf D2 k2 s.lookup2) k1 ↔ E2.Clashes (listOf D1 k1 s.lookup1) k2
  | _ => True

/-- The states after any sequence of operations that meet the condition. -/
inductive Reachable (E1 : TermEq K1) (E2 : TermEq K2) : Key2ValueI D1 D2 → Prop
  | new : Reachable E1 E2 new
  | step {s s' : Key2ValueI D1 D2} (op : Op K1 K2 V) : Reachable E1 E2 s → op.Meets E1 E2 s →
      op.apply E1 E2 s = .ok s' → Reachable E1 E2 s'

theorem listOf_eq {K K' : Type} {D : DictI K (List K' × V)} {d : D.Data} {m : Dict K (List K' × V)} (h : D.Holds d m)
    (k : K) : listOf D k d = ((m k).map Prod.fst).getD [] := by
  rw [listOf, D.find_ok h]
  cases m k <;> rfl

/-- What an operation does to the maps: the lists have no two keys that are `==`, and the lookups keep the same pairs if
and only if the operation meets the condition. -/
theorem Op.holds (op : Op K1 K2 V) (h : s.Holds p) (hp : p.Paired) (ha : p.Apart E1 E2)
    (hr : op.apply E1 E2 s = .ok s') :
    ∃ p', s'.Holds p' ∧ p'.Apart E1 E2 ∧ (p'.Paired ↔ op.Meets E1 E2 s) := by
  have hok : ∀ {x : Except Exn (Key2ValueI D1 D2)} {p' : Key2Value K1 K2 V}, x = .ok s' →
      (∃ t, x = .ok t ∧ t.Holds p') → s'.Holds p' := by
    rintro x p' hx ⟨t, ht, hh⟩
    cases hx.symm.trans ht
    exact hh
  cases op with
  | store k1 k2 v =>
    refine ⟨_, hok hr (holds_store h k1 k2 v), Key2Value.apart_storeEq hp ha k1 k2 v,
      (Key2Value.paired_storeEq_iff hp ha k1 k2 v).trans ?_⟩
    rw [Op.Meets, listOf_eq h.lookup1, listOf_eq h.lookup2]
    rfl
  | erase k1 k2 =>
    exact ⟨_, hok hr (holds_erase h k1 k2), Key2Value.apart_erase hp ha k1 k2,
      iff_of_true (Key2Value.paired_erase hp k1 k2) trivial⟩
  | erase1 k1 =>
    exact ⟨_, hok hr (holds_erase1 h k1), Key2Value.apart_erase1 hp ha k1,
      iff_of_true (Key2Value.paired_erase1 hp k1) trivial⟩
  | erase2 k2 =>
    exact ⟨_, hok hr (holds_erase2 h k2), Key2Value.apart_erase2 hp ha k2,
      iff_of_true (Key2Value.paired_erase2 hp k2) trivial⟩
  | update1 k1 F =>
    obtain ⟨p', hh, hsame⟩ := holds_update1 h hp hr
    exact ⟨p', hh, hsame.apart ha, iff_of_true (hsame.paired hp) trivial⟩
  | update2 k2 F =>
    obtain ⟨p', hh, hsame⟩ := holds_update2 h hp hr
    exact ⟨p', hh, hsame.apart ha, iff_of_true (hsame.paired hp) trivial⟩

theorem Reachable.holds (h : Reachable E1 E2 s) : ∃ p, s.Holds p ∧ p.Paired ∧ p.Apart E1 E2 := by
  induction h with
  | new => exact ⟨_, holds_new, Key2Value.paired_new, Key2Value.apart_new⟩
  | step op _ hmeets hr ih =>
    obtain ⟨p, hh, hp, ha⟩ := ih
    obtain ⟨p', hh', ha', hiff⟩ := op.holds hh hp ha hr
    exact ⟨p', hh', hiff.mpr hmeets, ha'⟩

/-- What is found under the keys. -/
structure Finds (s : Key2ValueI D1 D2) (p : Key2Value K1 K2 V) : Prop where
  find1 : ∀ k1, D1.find k1 s.lookup1 = .ok (p.lookup1 k1)
  find2 : ∀ k2, D2.find k2 s.lookup2 = .ok (p.lookup2 k2)

theorem Holds.finds (h : s.Holds p) : s.Finds p := ⟨D1.find_ok h.lookup1, D2.find_ok h.lookup2⟩

theorem Finds.unique {p' : Key2Value K1 K2 V} (h : s.Finds p) (h' : s.Finds p') : p = p' := by
  have h1 : p.lookup1 = p'.lookup1 := funext fun k => Except.ok.inj ((h.find1 k).symm.trans (h'.find1 k))
  have h2 : p.lookup2 = p'.lookup2 := funext fun k => Except.ok.inj ((h.find2 k).symm.trans (h'.find2 k))
  cases p
  cases p'
  cases h1
  cases h2
  rfl

/-- What is found under the keys is one relation, in lists that are not empty, sorted and without duplicates. -/
def OneRelation (E1 : TermEq K1) (E2 : TermEq K2) (s : Key2ValueI D1 D2) : Prop :=
  ∃ p : Key2Value K1 K2 V, s.Finds p ∧ p.Paired ∧ p.Apart E1 E2

/-- The operation succeeds and takes the pairs `out` away, and no others. -/
def TakesAway (p : Key2Value K1 K2 V) (out : K1 → K2 → Prop) (r : Except Exn (Key2ValueI D1 D2)) : Prop :=
  ∃ s' p', r = .ok s' ∧ s'.Finds p' ∧ p.Erases out p'

/-- Numbers: `2 * n` is the integer `n`, and `2 * n + 1` the float `n`. -/
def numbers : TermEq Nat where
  eq a b := a / 2 == b / 2
  refl a := beq_self_eq_true _
  symm a b := BEq.comm
  convex a b c hab hbc h := by
    simp only [beq_iff_eq] at h ⊢
    omega

/-- What a module finds is what its map has. -/
theorem Finds.seconds_eq (h : s.Finds p) {L : List K2} {v : V} (hf : D1.find k1 s.lookup1 = .ok (some (L, v))) :
    p.seconds k1 = L := Key2Value.seconds_of_some (Except.ok.inj ((h.find1 k1).symm.trans hf))

theorem Finds.firsts_eq (h : s.Finds p) {L : List K1} {v : V} (hf : D2.find k2 s.lookup2 = .ok (some (L, v))) :
    p.firsts k2 = L :=
  Key2Value.seconds_of_some (s := p.swap) (Except.ok.inj ((h.find2 k2).symm.trans hf))

end Key2ValueI

end CloudI
