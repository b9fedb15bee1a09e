import CloudI.Framework.Dict
import CloudI.Framework.Lists

/-!
# Values under two keys

`key2value`: each of two keys leads to the keys of the other kind it is stored
with, and to the value stored last. `Holds` is the map that such a store stands
for while every second key is stored with one first key: `holds_store` and
`holds_erase` are what the operations do to the map, `Holds.find1` and
`Holds.find2` what is found.
-/

namespace CloudI

/-- `key2value`, with `dict` as its module. -/
structure Key2Value (K1 K2 V : Type) where
  lookup1 : Dict K1 (List K2 × V)
  lookup2 : Dict K2 (List K1 × V)

namespace Key2Value

set_option linter.unusedSectionVars false

variable {K1 K2 V : Type} [LinearOrder K1] [LinearOrder K2]

/-- `new/0` -/
def new : Key2Value K1 K2 V := ⟨Dict.new, Dict.new⟩

/-- `find1/2` -/
def find1 (K : K1) (s : Key2Value K1 K2 V) : Option (List K2 × V) := s.lookup1 K

/-- `find2/2` -/
def find2 (K : K2) (s : Key2Value K1 K2 V) : Option (List K1 × V) := s.lookup2 K

/-- `store/4`, of keys such as pids and identifiers: those that are `==` are `=:=`. -/
def store (k1 : K1) (k2 : K2) (v : V) (s : Key2Value K1 K2 V) : Key2Value K1 K2 V where
  lookup1 := s.lookup1.update4 k1 (fun x => (umerge x.1 [k2], v)) ([k2], v)
  lookup2 := s.lookup2.update4 k2 (fun x => (umerge x.1 [k1], v)) ([k1], v)

/-- `erase/3` -/
def erase (k1 : K1) (k2 : K2) (s : Key2Value K1 K2 V) : Key2Value K1 K2 V :=
  match s.lookup1 k1 with
  | some (L2, V2) =>
    match s.lookup2 k2 with
    | some (L1, V1) =>
      { lookup1 := if L2 = [k2] then s.lookup1.erase k1 else s.lookup1.store k1 (L2.erase k2, V2)
        lookup2 := if L1 = [k1] then s.lookup2.erase k2 else s.lookup2.store k2 (L1.erase k1, V1) }
    | none => s
  | none => s

/-- `update1/3` -/
def update1 (k1 : K1) (F : V → V) (s : Key2Value K1 K2 V) : Except Exn (Key2Value K1 K2 V) :=
  match s.lookup1 k1 with
  | none => .error .badmatch
  | some (K2L, _) => do
    let NewLookup2 ← K2L.foldlM (fun d k2 => d.update k2 fun (L, V) => (L, F V)) s.lookup2
    let NewLookup1 ← s.lookup1.update k1 fun (L, V) => (L, F V)
    return ⟨NewLookup1, NewLookup2⟩

/-! ## The map -/

/-- The store stands for the map: every second key has one first key, and a
first key has the sorted list of its second keys, which is never empty. -/
structure Holds (s : Key2Value K1 K2 V) (m : K2 → Option (K1 × V)) : Prop where
  find2 : ∀ k2, s.lookup2 k2 = (m k2).map fun x => ([x.1], x.2)
  absent : ∀ k1, s.lookup1 k1 = none → ∀ k2 v, m k2 ≠ some (k1, v)
  present : ∀ k1 L v, s.lookup1 k1 = some (L, v) → Sorted L ∧ L ≠ [] ∧ ∀ k2, k2 ∈ L ↔ ∃ v', m k2 = some (k1, v')

theorem holds_new : Holds (new : Key2Value K1 K2 V) fun _ => none where
  find2 _ := rfl
  absent _ _ _ _ h := by cases h
  present _ _ _ h := by cases h

variable {s : Key2Value K1 K2 V} {m : K2 → Option (K1 × V)} {k1 : K1} {k2 : K2}

theorem Holds.find2_eq (h : s.Holds m) {v : V} : s.find2 k2 = some ([k1], v) ↔
    m k2 = some (k1, v) := by
  rw [Key2Value.find2, h.find2]
  cases m k2 with
  | none => constructor <;> intro h <;> cases h
  | some x =>
    obtain ⟨k, w⟩ := x
    constructor <;> intro h <;> cases h <;> rfl

theorem Holds.find2_none (h : s.Holds m) : s.find2 k2 = none ↔ m k2 = none := by
  rw [Key2Value.find2, h.find2, Option.map_eq_none_iff]

/-- What is found under a first key. -/
theorem Holds.mem_find1 (h : s.Holds m) {L : List K2} {v : V} (hf : s.find1 k1 = some (L, v))
    (k2 : K2) : k2 ∈ L ↔ ∃ v', m k2 = some (k1, v') := (h.present k1 L v hf).2.2 k2

theorem Holds.find1_none (h : s.Holds m) :
    s.find1 k1 = none ↔ ∀ k2 v, m k2 ≠ some (k1, v) := by
  constructor
  · exact h.absent k1
  · intro hm
    cases hf : s.find1 k1 with
    | none => rfl
    | some x =>
      obtain ⟨L, v⟩ := x
      obtain ⟨-, hne, hmem⟩ := h.present k1 L v hf
      obtain ⟨k2, hk2⟩ := List.exists_mem_of_ne_nil L hne
      obtain ⟨v', hv'⟩ := (hmem k2).mp hk2
      exact absurd hv' (hm k2 v')

theorem holds_store (h : s.Holds m) (v : V) (hk : ∀ k v', m k2 = some (k, v') → k = k1) :
    (s.store k1 k2 v).Holds (Function.update m k2 (some (k1, v))) where
  find2 j := by
    show Function.update s.lookup2 k2 _ j = _
    by_cases hj : j = k2
    · subst hj
      rw [Function.update_self, Function.update_self, h.find2]
      cases hm : m j with
      | none => rfl
      | some x =>
        obtain ⟨k, v'⟩ := x
        obtain rfl := hk k v' hm
        simp [umerge]
    · rw [Function.update_of_ne hj, Function.update_of_ne hj, h.find2]
  absent k hk' j w := by
    have hk' : Function.update s.lookup1 k1 _ k = _ := hk'
    by_cases hkk : k = k1
    · subst hkk
      rw [Function.update_self] at hk'
      cases hk'
    · rw [Function.update_of_ne hkk] at hk'
      by_cases hj : j = k2
      · subst hj
        rw [Function.update_self]
        intro he
        cases he
        exact hkk rfl
      · rw [Function.update_of_ne hj]
        exact h.absent k hk' j w
  present k L w hk' := by
    have hk' : Function.update s.lookup1 k1 _ k = _ := hk'
    by_cases hkk : k = k1
    · subst hkk
      rw [Function.update_self] at hk'
      cases hl : s.lookup1 k with
      | none =>
        rw [hl] at hk'
        cases hk'
        refine ⟨sorted_singleton _, List.cons_ne_nil _ _, fun j => ?_⟩
        rw [List.mem_singleton]
        by_cases hj : j = k2
        · subst hj
          rw [Function.update_self]
          exact ⟨fun _ => ⟨_, rfl⟩, fun _ => rfl⟩
        · rw [Function.update_of_ne hj]
          exact ⟨fun he => absurd he hj, fun he => absurd he.choose_spec (h.absent k hl j _)⟩
      | some x =>
        obtain ⟨L', v'⟩ := x
        rw [hl] at hk'
        cases hk'
        obtain ⟨hs, hne, hmem⟩ := h.present k L' v' hl
        refine ⟨umerge_sorted hs (sorted_singleton _), ?_, fun j => ?_⟩
        · exact List.ne_nil_of_mem (mem_umerge.mpr (Or.inr (List.mem_singleton.mpr rfl)))
        · rw [mem_umerge, List.mem_singleton, hmem]
          by_cases hj : j = k2
          · subst hj
            rw [Function.update_self]
            exact ⟨fun _ => ⟨v, rfl⟩, fun _ => Or.inr rfl⟩
          · rw [Function.update_of_ne hj]
            exact ⟨fun ho => ho.resolve_right hj, Or.inl⟩
    · rw [Function.update_of_ne hkk] at hk'
      obtain ⟨hs, hne, hmem⟩ := h.present k L w hk'
      refine ⟨hs, hne, fun j => (hmem j).trans ?_⟩
      by_cases hj : j = k2
      · subst hj
        rw [Function.update_self]
        constructor
        · rintro ⟨v', hv'⟩
          exact absurd (hk k v' hv') hkk
        · rintro ⟨v', hv'⟩
          cases hv'
          exact absurd rfl hkk
      · rw [Function.update_of_ne hj]

/-- `erase/3` of a second key that is not stored, or stored with the first key. -/
theorem holds_erase (h : s.Holds m) (hk : ∀ k v', m k2 = some (k, v') → k = k1) :
    (s.erase k1 k2).Holds (Function.update m k2 none) := by
  cases hm : m k2 with
  | none =>
    have hs : s.erase k1 k2 = s := by
      rw [erase, h.find2, hm]
      split <;> rfl
    rw [hs, ← hm, Function.update_eq_self]
    exact h
  | some x =>
    obtain ⟨k, v⟩ := x
    obtain rfl := hk k v hm
    cases hl : s.lookup1 k with
    | none => exact absurd hm (h.absent k hl k2 v)
    | some y =>
      obtain ⟨L2, V2⟩ := y
      obtain ⟨hs, hne, hmem⟩ := h.present k L2 V2 hl
      have h2 : s.lookup2 k2 = some ([k], v) := by rw [h.find2, hm]; rfl
      have he : s.erase k k2 =
          { lookup1 := if L2 = [k2] then s.lookup1.erase k else s.lookup1.store k (L2.erase k2, V2)
            lookup2 := s.lookup2.erase k2 } := by
        rw [erase, hl, h2]
        simp only [if_true]
      rw [he]
      refine ⟨fun j => ?_, fun k' hk' j w => ?_, fun k' L w hk' => ?_⟩
      · show Function.update s.lookup2 k2 none j = _
        by_cases hj : j = k2
        · subst hj
          rw [Function.update_self, Function.update_self]
          rfl
        · rw [Function.update_of_ne hj, Function.update_of_ne hj, h.find2]
      · by_cases hj : j = k2
        · subst hj
          rw [Function.update_self]
          exact (Option.some_ne_none _).symm
        · rw [Function.update_of_ne hj]
          by_cases hkk : k' = k
          · subst hkk
            split at hk'
            · rename_i hL
              subst hL
              intro hv
              exact hj (List.mem_singleton.mp ((hmem j).mpr ⟨w, hv⟩))
            · simp [Dict.store] at hk'
          · refine h.absent k' ?_ j w
            split at hk' <;> simpa [Dict.erase, Dict.store, hkk] using hk'
      · by_cases hkk : k' = k
        · subst hkk
          split at hk'
          · simp [Dict.erase] at hk'
          · rename_i hL
            simp only [Dict.store, Function.update_self, Option.some.injEq, Prod.mk.injEq] at hk'
            obtain ⟨rfl, rfl⟩ := hk'
            refine ⟨hs.delete k2, fun hnil => ?_, fun j => ?_⟩
            · rcases List.erase_eq_nil_iff.mp hnil with hn | hn
              · exact hne hn
              · exact hL hn
            · rw [mem_delete hs, hmem]
              by_cases hj : j = k2
              · subst hj
                rw [Function.update_self]
                exact ⟨fun ho => absurd rfl ho.1, fun ⟨_, hv⟩ => by cases hv⟩
              · rw [Function.update_of_ne hj]
                exact ⟨fun ho => ho.2, fun ho => ⟨hj, ho⟩⟩
        · have hk'' : s.lookup1 k' = some (L, w) := by
            split at hk' <;> simpa [Dict.erase, Dict.store, hkk] using hk'
          obtain ⟨hs', hne', hmem'⟩ := h.present k' L w hk''
          refine ⟨hs', hne', fun j => (hmem' j).trans ?_⟩
          by_cases hj : j = k2
          · subst hj
            rw [Function.update_self, hm]
            constructor
            · rintro ⟨v', hv'⟩
              cases hv'
              exact absurd rfl hkk
            · rintro ⟨v', hv'⟩
              cases hv'
          · rw [Function.update_of_ne hj]

/-! ## Other first keys -/

theorem find1_store {k1 j : K1} {v : V} (hj : k1 ≠ j) : (s.store k1 k2 v).find1 j = s.find1 j :=
  Function.update_of_ne (Ne.symm hj) _ _

theorem find2_store {k2 j : K2} {v : V} (hj : k2 ≠ j) : (s.store k1 k2 v).find2 j = s.find2 j :=
  Function.update_of_ne (Ne.symm hj) _ _

theorem find2_store_new {v : V} (h : s.find2 k2 = none) :
    (s.store k1 k2 v).find2 k2 = some ([k1], v) := by
  rw [Key2Value.find2] at h
  refine (Function.update_self _ _ _).trans ?_
  rw [h]
  rfl

theorem find1_erase {k1 j : K1} (hj : k1 ≠ j) : (s.erase k1 k2).find1 j = s.find1 j := by
  unfold erase
  split
  · split
    · show (if _ then _ else _ : Dict K1 (List K2 × V)) j = _
      split <;> exact Function.update_of_ne (Ne.symm hj) _ _
    · rfl
  · rfl

/-- `update1/3` keeps what its function keeps of the values. -/
theorem find1_erase_self {L : List K2} {L1 : List K1} {v v1 : V}
    (h1 : s.lookup1 k1 = some (L, v)) (h2 : s.lookup2 k2 = some (L1, v1)) (hL : L ≠ [k2]) :
    (s.erase k1 k2).find1 k1 = some (L.erase k2, v) := by
  rw [erase, h1]
  simp only [h2]
  rw [if_neg hL]
  exact Function.update_self _ _ _

theorem find1_update1 {F : V → V} {s' : Key2Value K1 K2 V} (hr : s.update1 k1 F = .ok s') {β : Type}
    (g : V → β) (hg : ∀ v, g (F v) = g v) (j : K1) :
    (s'.find1 j).map (fun x => g x.2) = (s.find1 j).map fun x => g x.2 := by
  rw [update1] at hr
  split at hr
  · cases hr
  · rename_i L v hl
    obtain ⟨d, -, hr⟩ := bind_eq_ok hr
    rw [bind_ok (Dict.update_ok hl)] at hr
    cases hr
    show (Function.update s.lookup1 k1 _ j).map _ = (s.lookup1 j).map _
    by_cases hj : j = k1
    · subst hj
      rw [Function.update_self, hl]
      exact congrArg some (hg v)
    · rw [Function.update_of_ne hj]

/-- Updates of keys that are found. -/
theorem foldlM_update {K : Type} [LinearOrder K] {W : Type} (F : W → W) {L : List K} (hL : L.Nodup) {d : Dict K W}
    (hd : ∀ k ∈ L, d k ≠ none) : L.foldlM (fun d k => d.update k F) d =
      .ok fun k => if k ∈ L then (d k).map F else d k := by
  induction L generalizing d with
  | nil => exact congrArg _ (funext fun k => (if_neg List.not_mem_nil).symm)
  | cons k L ih =>
    obtain ⟨hk, hL⟩ := List.nodup_cons.mp hL
    obtain ⟨w, hw⟩ := Option.ne_none_iff_exists'.mp (hd k List.mem_cons_self)
    rw [List.foldlM_cons, bind_ok (Dict.update_ok hw), ih hL fun j hj => ?_]
    · refine congrArg _ (funext fun j => ?_)
      by_cases hjk : j = k
      · subst hjk
        rw [if_neg hk, if_pos List.mem_cons_self, Function.update_self, hw]
        rfl
      · rw [Function.update_of_ne hjk]
        simp only [List.mem_cons, hjk, false_or]
    · have hjk : j ≠ k := fun he => hk (he ▸ hj)
      rw [Function.update_of_ne hjk]
      exact hd j (List.mem_cons_of_mem k hj)

/-- `update1/3` changes the value of each second key of the first key. -/
theorem holds_update1 (h : s.Holds m) {F : V → V} {s' : Key2Value K1 K2 V} (hr : s.update1 k1 F = .ok s') :
    s'.Holds fun k2 => (m k2).map fun x => (x.1, if x.1 = k1 then F x.2 else x.2) := by
  rw [update1] at hr
  split at hr
  · cases hr
  · rename_i L v hl
    obtain ⟨hs, hne, hmem⟩ := h.present k1 L v hl
    have hfound : ∀ k ∈ L, s.lookup2 k ≠ none := by
      intro k hk
      obtain ⟨w, hw⟩ := (hmem k).mp hk
      rw [h.find2, hw]
      exact Option.some_ne_none _
    rw [bind_ok (foldlM_update _ hs.nodup hfound), bind_ok (Dict.update_ok hl)] at hr
    cases hr
    refine ⟨fun j => ?_, fun k hk j w hj => ?_, fun k L' w hk => ?_⟩
    · show (if j ∈ L then (s.lookup2 j).map _ else s.lookup2 j) = _
      have hj := hmem j
      rw [h.find2]
      cases hm : m j with
      | none => simp
      | some x =>
        obtain ⟨k, w⟩ := x
        rw [hm] at hj
        by_cases hk : k = k1
        · rw [if_pos (hj.mpr ⟨w, by rw [hk]⟩)]
          simp [hk]
        · rw [if_neg fun hL => ?_]
          · simp [hk]
          · obtain ⟨v', hv'⟩ := hj.mp hL
            cases hv'
            exact hk rfl
    · have hk' : Function.update s.lookup1 k1 (some (L, F v)) k = none := hk
      obtain ⟨x, hx, he⟩ := Option.map_eq_some_iff.mp hj
      obtain ⟨k', w'⟩ := x
      cases he
      by_cases hkk : k' = k1
      · subst hkk
        rw [Function.update_self] at hk'
        cases hk'
      · rw [Function.update_of_ne hkk] at hk'
        exact h.absent k' hk' j w' hx
    · have hk' : Function.update s.lookup1 k1 (some (L, F v)) k = some (L', w) := hk
      have hiff : ∀ j, (∃ v', (m j).map (fun x => (x.1, if x.1 = k1 then F x.2 else x.2)) = some (k, v')) ↔
          ∃ v', m j = some (k, v') := by
        intro j
        cases m j with
        | none => simp
        | some x =>
          obtain ⟨k', w'⟩ := x
          simp only [Option.map_some, Option.some.injEq, Prod.mk.injEq]
          exact ⟨fun ho => ⟨w', ho.choose_spec.1, rfl⟩, fun ho => ⟨_, ho.choose_spec.1, rfl⟩⟩
      by_cases hkk : k = k1
      · subst hkk
        rw [Function.update_self] at hk'
        cases hk'
        exact ⟨hs, hne, fun j => (hmem j).trans (hiff j).symm⟩
      · rw [Function.update_of_ne hkk] at hk'
        obtain ⟨hs', hne', hmem'⟩ := h.present k L' w hk'
        exact ⟨hs', hne', fun j => (hmem' j).trans (hiff j).symm⟩

end Key2Value

end CloudI
