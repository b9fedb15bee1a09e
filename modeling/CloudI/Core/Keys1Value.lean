import Mathlib.Data.List.Flatten
import Mathlib.Data.List.Nodup
import Mathlib.Data.List.Perm.Basic
import CloudI.Framework.Dict

/-!
# Values under several keys

`keys1value` stores a value under each key of a list, with the whole list, so
that one key is enough to erase all of them. What it is for is a list of
groups, each of keys with their value, in which no key is twice (`Holds`):
`holds_store` and `holds_erase` are what the operations do to it, and
`store_error` is when `store/3` raises. After any sequence of both, a key finds
the value of its group, and `to_list/1` returns every group once, in whatever
order the lookup lists its keys (`run_groups`), as long as no two keys of the
groups are only equal as numbers: `lists:keydelete/3` compares with `==`, and
`dict` with `=:=`.
-/

namespace CloudI

/-- `#keys1value{}`, whose module is `dict`. -/
structure Keys1Value (K V : Type) where
  lookup : Dict K (List K × V)

namespace Keys1Value

variable {K V : Type} [DecidableEq K]

/-! ## Operations -/

/-- `new/0` -/
def new : Keys1Value K V := ⟨Dict.new⟩

/-- `erase/2` -/
def erase (k : K) (s : Keys1Value K V) : Keys1Value K V :=
  match s.lookup k with
  | some (Keys, _) => ⟨Keys.foldl (fun D k => D.erase k) s.lookup⟩
  | none => s

/-- `fetch/2` -/
def fetch (k : K) (s : Keys1Value K V) : Except Exn V := do
  let (_, v) ← Dict.fetch k s.lookup
  return v

/-- `find/2` -/
def find (k : K) (s : Keys1Value K V) : Option V :=
  match s.lookup k with
  | some (_, v) => some v
  | none => none

/-- `is_key/2` with one key. -/
def isKey (k : K) (s : Keys1Value K V) : Bool := (s.lookup k).isSome

/-- `is_key/2` with a list of keys. -/
def isAnyKey (Keys : List K) (s : Keys1Value K V) : Bool := Keys.any fun k => s.isKey k

/-- What `store/3` does for each key, which must not be there. -/
def storeKey (Keys : List K) (v : V) (D : Dict K (List K × V)) (k : K) : Except Exn (Dict K (List K × V)) :=
  match D k with
  | some _ => .error .badmatch
  | none => .ok (D.store k (Keys, v))

/-- `store/3` -/
def store (Keys : List K) (v : V) (s : Keys1Value K V) : Except Exn (Keys1Value K V) :=
  if Keys = [] then .error .functionClause
  else do
    let NewLookup ← Keys.foldlM (storeKey Keys v) s.lookup
    return ⟨NewLookup⟩

section ToList

variable (eq : K → K → Bool)

/-- `lists:keydelete/3` by the first place, where `eq` is the `==` of Erlang. -/
def keydelete {A : Type} (k : K) (L : List (K × A)) : List (K × A) := L.eraseP fun p => eq p.1 k

/-- The fold of `to_list/2` over the keys of an entry. -/
def keydeletes {A : Type} (Keys : List K) (L : List (K × A)) : List (K × A) :=
  Keys.foldl (fun L k => keydelete eq k L) L

omit [DecidableEq K] in
theorem length_keydeletes {A : Type} (Keys : List K) (L : List (K × A)) :
    (keydeletes eq Keys L).length ≤ L.length := by
  induction Keys generalizing L with
  | nil => exact Nat.le_refl _
  | cons k Keys ih => exact Nat.le_trans (ih (keydelete eq k L)) List.length_eraseP_le

/-- `to_list/2`, with what `Module:to_list/1` returns. -/
def toListLoop : List (K × (List K × V)) → List (List K × V) → List (List K × V)
  | [], Output => Output
  | (_, Entry) :: L0, Output => toListLoop (keydeletes eq Entry.1 L0) (Entry :: Output)
termination_by L => L.length
decreasing_by exact Nat.lt_succ_of_le (length_keydeletes eq _ _)

/-- `to_list/1` -/
def toList (L : List (K × (List K × V))) : List (List K × V) := toListLoop eq L []

/-- Keys that are `==` are `=:=`. -/
def Exact (Keys : List K) : Prop := ∀ k ∈ Keys, ∀ k' ∈ Keys, eq k k' = true ↔ k = k'

end ToList

/-! ## Groups -/

/-- The lookup stands for groups of keys, in which every key is at most once. -/
structure Holds (s : Keys1Value K V) (groups : List (List K × V)) : Prop where
  lookup : ∀ k, s.lookup k = groups.find? fun g => k ∈ g.1
  nonempty : ∀ g ∈ groups, g.1 ≠ []
  nodup : (groups.flatMap Prod.fst).Nodup

variable {s s' : Keys1Value K V} {groups : List (List K × V)} {Keys : List K} {v : V} {k : K}

theorem holds_new : (new : Keys1Value K V).Holds [] :=
  ⟨fun _ => rfl, fun _ h => absurd h List.not_mem_nil, List.nodup_nil⟩

/-- A key is found in the one group that has it. -/
theorem find?_eq_some_iff (h : (groups.flatMap Prod.fst).Nodup) (k : K) (g : List K × V) :
    groups.find? (fun g => k ∈ g.1) = some g ↔ g ∈ groups ∧ k ∈ g.1 := by
  induction groups with
  | nil => simp only [List.find?_nil, reduceCtorEq, List.not_mem_nil, false_and]
  | cons g' groups ih =>
    rw [List.flatMap_cons, List.nodup_append'] at h
    obtain ⟨-, htail, hdisj⟩ := h
    by_cases hk : k ∈ g'.1
    · rw [List.find?_cons_of_pos (by simpa using hk), Option.some.injEq]
      refine ⟨fun he => he ▸ ⟨List.mem_cons_self, hk⟩, fun ⟨hg, hkg⟩ => ?_⟩
      rcases List.mem_cons.mp hg with rfl | hg
      · rfl
      · exact absurd (List.mem_flatMap.mpr ⟨g, hg, hkg⟩) (hdisj hk)
    · rw [List.find?_cons_of_neg (by simpa using hk), ih htail, List.mem_cons]
      exact ⟨fun ⟨hg, hkg⟩ => ⟨.inr hg, hkg⟩, fun ⟨hg, hkg⟩ => ⟨hg.resolve_left fun he => hk (he ▸ hkg), hkg⟩⟩

theorem Holds.lookup_eq_some (h : s.Holds groups) (k : K) (g : List K × V) :
    s.lookup k = some g ↔ g ∈ groups ∧ k ∈ g.1 := by rw [h.lookup, find?_eq_some_iff h.nodup]

theorem Holds.lookup_eq_none (h : s.Holds groups) (k : K) : s.lookup k = none ↔ k ∉ groups.flatMap Prod.fst := by
  rw [h.lookup, List.find?_eq_none, List.mem_flatMap]
  simp only [decide_eq_true_eq, not_exists, not_and]

theorem Holds.find_eq_some (h : s.Holds groups) (k : K) (v : V) :
    s.find k = some v ↔ ∃ Keys, (Keys, v) ∈ groups ∧ k ∈ Keys := by
  unfold find
  cases hk : s.lookup k with
  | none =>
    have hnot := (h.lookup_eq_none k).mp hk
    simp only [reduceCtorEq, false_iff, not_exists]
    rintro Keys ⟨hg, hmem⟩
    exact hnot (List.mem_flatMap.mpr ⟨_, hg, hmem⟩)
  | some g =>
    obtain ⟨hg, hmem⟩ := (h.lookup_eq_some k g).mp hk
    simp only [Option.some.injEq]
    refine ⟨fun hv => ⟨g.1, hv ▸ hg, hmem⟩, fun ⟨Keys, hg', hmem'⟩ => ?_⟩
    have hsame := hk.symm.trans ((h.lookup_eq_some k (Keys, v)).mpr ⟨hg', hmem'⟩)
    rw [Option.some.inj hsame]

theorem Holds.isAnyKey_iff (h : s.Holds groups) (Keys : List K) :
    s.isAnyKey Keys = true ↔ ∃ k ∈ Keys, k ∈ groups.flatMap Prod.fst := by
  simp only [isAnyKey, isKey, List.any_eq_true, Option.isSome_iff_ne_none, ne_eq, h.lookup_eq_none, not_not]

/-! ## Store -/

theorem foldlM_storeKey (ks : List K) (D : Dict K (List K × V)) :
    ks.foldlM (storeKey Keys v) D =
      if ks.Nodup ∧ ∀ k ∈ ks, D k = none then .ok fun k => if k ∈ ks then some (Keys, v) else D k
      else .error .badmatch := by
  induction ks generalizing D with
  | nil => simp only [List.foldlM_nil, List.nodup_nil, List.not_mem_nil, false_imp_iff, implies_true, and_self, if_true,
      if_false, pure, Except.pure]
  | cons k ks ih =>
    rw [List.foldlM_cons, storeKey]
    cases hk : D k with
    | some x =>
      have hnot : ¬ ((k :: ks).Nodup ∧ ∀ k' ∈ k :: ks, D k' = none) := fun h => by
        have hnone := h.2 k List.mem_cons_self
        rw [hk] at hnone
        cases hnone
      rw [if_neg hnot]
      rfl
    | none =>
      show ks.foldlM (storeKey Keys v) (D.store k (Keys, v)) = _
      have hiff : (ks.Nodup ∧ ∀ k' ∈ ks, D.store k (Keys, v) k' = none) ↔
          ((k :: ks).Nodup ∧ ∀ k' ∈ k :: ks, D k' = none) := by
        rw [List.nodup_cons, List.forall_mem_cons]
        constructor
        · rintro ⟨hn, hall⟩
          have hmem : k ∉ ks := fun hmem => by
            have hself := hall k hmem
            rw [Dict.store_self] at hself
            cases hself
          refine ⟨⟨hmem, hn⟩, hk, fun k' hk' => ?_⟩
          have hall := hall k' hk'
          have hne : k' ≠ k := fun he => hmem (he ▸ hk')
          rwa [Dict.store_of_ne hne] at hall
        · rintro ⟨⟨hmem, hn⟩, -, hall⟩
          refine ⟨hn, fun k' hk' => ?_⟩
          have hne : k' ≠ k := fun he => hmem (he ▸ hk')
          rw [Dict.store_of_ne hne, hall k' hk']
      rw [ih]
      by_cases h : (k :: ks).Nodup ∧ ∀ k' ∈ k :: ks, D k' = none
      · rw [if_pos (hiff.mpr h), if_pos h]
        refine congrArg Except.ok (funext fun k' => ?_)
        by_cases hk' : k' = k
        · rw [hk', Dict.store_self, if_pos List.mem_cons_self, ite_self]
        · rw [Dict.store_of_ne hk']
          simp only [List.mem_cons, hk', false_or]
      · rw [if_neg (fun h' => h (hiff.mp h')), if_neg h]

/-- New keys, none of them twice, are stored as a new group. -/
theorem holds_store (h : s.Holds groups) (hne : Keys ≠ []) (hnew : (Keys ++ groups.flatMap Prod.fst).Nodup) (v : V) :
    ∃ s', s.store Keys v = .ok s' ∧ s'.Holds ((Keys, v) :: groups) := by
  obtain ⟨hn, -, hdisj⟩ := List.nodup_append'.mp hnew
  have hall : ∀ k ∈ Keys, s.lookup k = none := fun k hk => (h.lookup_eq_none k).mpr (hdisj hk)
  refine ⟨⟨fun k => if k ∈ Keys then some (Keys, v) else s.lookup k⟩, ?_, ?_, ?_, hnew⟩
  · rw [store, if_neg hne, foldlM_storeKey, if_pos ⟨hn, hall⟩]
    rfl
  · intro k
    by_cases hk : k ∈ Keys
    · rw [List.find?_cons_of_pos (by simpa using hk)]
      exact if_pos hk
    · rw [List.find?_cons_of_neg (by simpa using hk), ← h.lookup]
      exact if_neg hk
  · exact List.forall_mem_cons.mpr ⟨hne, h.nonempty⟩

/-- A key that is there, or twice in the list, makes `store/3` raise. -/
theorem store_error (h : s.Holds groups) (hne : Keys ≠ []) (hold : ¬ (Keys ++ groups.flatMap Prod.fst).Nodup) (v : V) :
    s.store Keys v = .error .badmatch := by
  have hnot : ¬ (Keys.Nodup ∧ ∀ k ∈ Keys, s.lookup k = none) := fun ⟨hn, hall⟩ =>
    hold (List.nodup_append'.mpr ⟨hn, h.nodup, fun k hk => (h.lookup_eq_none k).mp (hall k hk)⟩)
  rw [store, if_neg hne, foldlM_storeKey, if_neg hnot]
  rfl

/-- Whatever is stored is a new group. -/
theorem holds_of_store (h : s.Holds groups) (hs : s.store Keys v = .ok s') : s'.Holds ((Keys, v) :: groups) := by
  by_cases hne : Keys = []
  · rw [store, if_pos hne] at hs
    cases hs
  by_cases hnew : (Keys ++ groups.flatMap Prod.fst).Nodup
  · obtain ⟨s₁, hs₁, h₁⟩ := holds_store h hne hnew v
    obtain rfl := Except.ok.inj (hs.symm.trans hs₁)
    exact h₁
  · rw [store_error h hne hnew] at hs
    cases hs

/-! ## Erase -/

theorem foldl_erase (ks : List K) (D : Dict K (List K × V)) (k : K) :
    ks.foldl (fun D k => D.erase k) D k = if k ∈ ks then none else D k := by
  induction ks generalizing D with
  | nil => simp only [List.foldl_nil, List.not_mem_nil, if_false]
  | cons k' ks ih =>
    rw [List.foldl_cons, ih]
    by_cases hk : k ∈ ks
    · rw [if_pos hk, if_pos (List.mem_cons_of_mem k' hk)]
    · rw [if_neg hk]
      by_cases hk' : k = k'
      · rw [hk', Dict.erase_self, if_pos List.mem_cons_self]
      · rw [Dict.erase_of_ne hk', if_neg (by simp only [List.mem_cons, hk', hk, or_self, not_false_eq_true])]

/-- The whole group of a key is erased, and nothing else. -/
theorem holds_erase (h : s.Holds groups) (k : K) : (s.erase k).Holds (groups.filter fun g => k ∉ g.1) := by
  have hsub : ((groups.filter fun g => k ∉ g.1).flatMap Prod.fst).Sublist (groups.flatMap Prod.fst) :=
    List.Sublist.flatMap List.filter_sublist _
  refine ⟨fun k' => ?_, fun g hg => h.nonempty g (List.mem_of_mem_filter hg), h.nodup.sublist hsub⟩
  refine Option.ext fun g => ?_
  rw [find?_eq_some_iff (h.nodup.sublist hsub), List.mem_filter, decide_eq_true_iff]
  unfold erase
  cases hk : s.lookup k with
  | none =>
    have hnot := (h.lookup_eq_none k).mp hk
    rw [h.lookup_eq_some]
    refine ⟨fun ⟨hg, hg'⟩ => ⟨⟨hg, fun hmem => hnot ?_⟩, hg'⟩, fun ⟨hg, hg'⟩ => ⟨hg.1, hg'⟩⟩
    exact List.mem_flatMap.mpr ⟨g, hg, hmem⟩
  | some x =>
    obtain ⟨hx, hkx⟩ := (h.lookup_eq_some k x).mp hk
    simp only [foldl_erase]
    by_cases hk' : k' ∈ x.1
    · rw [if_pos hk']
      refine iff_of_false (by simp only [reduceCtorEq, not_false_eq_true]) fun ⟨⟨hg, hnot⟩, hg'⟩ => hnot ?_
      have hsame := ((h.lookup_eq_some k' x).mpr ⟨hx, hk'⟩).symm.trans ((h.lookup_eq_some k' g).mpr ⟨hg, hg'⟩)
      exact Option.some.inj hsame ▸ hkx
    · rw [if_neg hk', h.lookup_eq_some]
      refine ⟨fun ⟨hg, hg'⟩ => ⟨⟨hg, fun hmem => hk' ?_⟩, hg'⟩, fun ⟨hg, hg'⟩ => ⟨hg.1, hg'⟩⟩
      have hsame := hk.symm.trans ((h.lookup_eq_some k g).mpr ⟨hg, hmem⟩)
      exact Option.some.inj hsame ▸ hg'

/-! ## The groups as a list -/

/-- What `dict:to_list/1` returns: each key once, in any order. -/
def Lists {A : Type} (l : List (K × A)) (D : K → Option A) : Prop :=
  (l.map Prod.fst).Nodup ∧ ∀ k a, (k, a) ∈ l ↔ D k = some a

/-- The keys of groups as a list, each with its group. -/
def ListsGroups (l : List (K × (List K × V))) (groups : List (List K × V)) : Prop :=
  (l.map Prod.fst).Nodup ∧ ∀ k g, (k, g) ∈ l ↔ g ∈ groups ∧ k ∈ g.1

variable {eq : K → K → Bool}

theorem keydelete_eq {A : Type} {L : List (K × A)} (h : (L.map Prod.fst).Nodup) {k : K}
    (he : ∀ p ∈ L, eq p.1 k = true ↔ p.1 = k) : keydelete eq k L = L.filter fun p => p.1 ≠ k := by
  induction L with
  | nil => rfl
  | cons p L ih =>
    rw [List.map_cons, List.nodup_cons] at h
    obtain ⟨hp', he⟩ := List.forall_mem_cons.mp he
    by_cases hp : p.1 = k
    · have hall : ∀ q ∈ L, decide (q.1 ≠ k) = true := fun q hq =>
        decide_eq_true fun hqk => h.1 (hp.trans hqk.symm ▸ List.mem_map_of_mem hq)
      rw [keydelete, List.eraseP_cons_of_pos (by simpa using hp'.mpr hp), List.filter_cons_of_neg (by simpa using hp),
        List.filter_eq_self.mpr hall]
    · have htail := ih h.2 he
      rw [keydelete] at htail ⊢
      rw [List.eraseP_cons_of_neg (by simpa using fun heq => hp (hp'.mp heq)),
          List.filter_cons_of_pos (by simpa using hp), htail]

theorem keydeletes_eq {A : Type} (ks : List K) {L : List (K × A)} (h : (L.map Prod.fst).Nodup)
    (he : ∀ k ∈ ks, ∀ p ∈ L, eq p.1 k = true ↔ p.1 = k) : keydeletes eq ks L = L.filter fun p => p.1 ∉ ks := by
  unfold keydeletes
  induction ks generalizing L with
  | nil => exact (List.filter_eq_self.mpr fun p _ => by simp).symm
  | cons k ks ih =>
    obtain ⟨hk, he⟩ := List.forall_mem_cons.mp he
    have hsub : ((L.filter fun p => p.1 ≠ k).map Prod.fst).Nodup := h.sublist (List.filter_sublist.map _)
    rw [List.foldl_cons, keydelete_eq h hk, ih hsub fun k hk p hp => he k hk p (List.mem_of_mem_filter hp),
      List.filter_filter]
    refine List.filter_congr fun p _ => ?_
    simp only [List.mem_cons, not_or, Bool.decide_and, ne_eq, Bool.and_comm]

/-- `to_list/1` returns every group once. -/
theorem toListLoop_perm (l : List (K × (List K × V))) (Output : List (List K × V)) :
    ∀ groups : List (List K × V), (groups.flatMap Prod.fst).Nodup → (∀ g ∈ groups, g.1 ≠ []) →
      ListsGroups l groups → Exact eq (groups.flatMap Prod.fst) →
      (toListLoop eq l Output).Perm (groups ++ Output) := by
  fun_induction toListLoop eq l Output with
  | case1 Output =>
    intro groups hn hne hl he
    cases groups with
    | nil => exact List.Perm.refl _
    | cons g groups =>
      obtain ⟨k, hk⟩ := List.exists_mem_of_ne_nil g.1 (hne g List.mem_cons_self)
      exact absurd ((hl.2 k g).mpr ⟨List.mem_cons_self, hk⟩) List.not_mem_nil
  | case2 k Entry L0 Output ih =>
    intro groups hn hne hl he
    obtain ⟨hnodup, hmem⟩ := hl
    rw [List.map_cons, List.nodup_cons] at hnodup
    obtain ⟨hEntry, hk⟩ := (hmem k Entry).mp List.mem_cons_self
    obtain ⟨l₁, l₂, rfl⟩ := List.append_of_mem hEntry
    have hkey : ∀ p ∈ L0, p.2 ∈ l₁ ++ Entry :: l₂ ∧ p.1 ∈ p.2.1 := fun p hp =>
      (hmem p.1 p.2).mp (List.mem_cons_of_mem _ hp)
    have hperm : (l₁ ++ Entry :: l₂).Perm (Entry :: (l₁ ++ l₂)) := List.perm_middle
    have hn' : ((Entry :: (l₁ ++ l₂)).flatMap Prod.fst).Nodup := (hperm.flatMap_right _).nodup_iff.mp hn
    rw [List.flatMap_cons, List.nodup_append'] at hn'
    have hrest : ListsGroups (keydeletes eq Entry.1 L0) (l₁ ++ l₂) := by
      rw [keydeletes_eq _ hnodup.2 fun k hk p hp => he _ (List.mem_flatMap.mpr ⟨_, hkey p hp⟩) _
        (List.mem_flatMap.mpr ⟨Entry, hEntry, hk⟩)]
      refine ⟨hnodup.2.sublist (List.filter_sublist.map _), fun k' g => ?_⟩
      rw [List.mem_filter, decide_eq_true_iff]
      constructor
      · rintro ⟨hL0, hnot⟩
        obtain ⟨hg, hk'⟩ := (hmem k' g).mp (List.mem_cons_of_mem _ hL0)
        refine ⟨(List.mem_cons.mp (hperm.mem_iff.mp hg)).resolve_left fun he => hnot (he ▸ hk'), hk'⟩
      · rintro ⟨hg, hk'⟩
        have hnot : k' ∉ Entry.1 := fun hE => hn'.2.2 hE (List.mem_flatMap.mpr ⟨g, hg, hk'⟩)
        have hin := (hmem k' g).mpr ⟨hperm.mem_iff.mpr (List.mem_cons_of_mem _ hg), hk'⟩
        refine ⟨(List.mem_cons.mp hin).resolve_left fun he => hnot ?_, hnot⟩
        obtain ⟨rfl, -⟩ := Prod.mk.inj he
        exact hk
    have hne' : ∀ g ∈ l₁ ++ l₂, g.1 ≠ [] := fun g hg => hne g (hperm.mem_iff.mpr (List.mem_cons_of_mem _ hg))
    have he' : Exact eq ((l₁ ++ l₂).flatMap Prod.fst) := fun k hk k' hk' => by
      have hsub {k : K} (hk : k ∈ (l₁ ++ l₂).flatMap Prod.fst) : k ∈ (l₁ ++ Entry :: l₂).flatMap Prod.fst := by
        rw [(hperm.flatMap_right _).mem_iff, List.flatMap_cons]
        exact List.mem_append_right _ hk
      exact he k (hsub hk) k' (hsub hk')
    refine (ih (l₁ ++ l₂) hn'.2.1 hne' hrest he').trans ?_
    exact List.perm_middle.trans ((hperm.symm.append_right Output))

theorem Holds.toList_perm (h : s.Holds groups) {l : List (K × (List K × V))} (hl : Lists l s.lookup)
    (he : Exact eq (groups.flatMap Prod.fst)) : (toList eq l).Perm groups := by
  have hperm := toListLoop_perm l [] groups h.nodup h.nonempty
    ⟨hl.1, fun k g => (hl.2 k g).trans (h.lookup_eq_some k g)⟩ he
  rwa [List.append_nil] at hperm

/-! ## Runs -/

/-- A call that changes the state. -/
inductive Op (K V : Type) where
  | store (Keys : List K) (v : V)
  | erase (k : K)

/-- The state behind a call: a call that raises leaves it as it was. -/
def Op.apply (s : Keys1Value K V) : Op K V → Keys1Value K V
  | .store Keys v => (s.store Keys v).toOption.getD s
  | .erase k => s.erase k

/-- What the call is for. -/
def Op.effect (groups : List (List K × V)) : Op K V → List (List K × V)
  | .store Keys v => if Keys ≠ [] ∧ (Keys ++ groups.flatMap Prod.fst).Nodup then (Keys, v) :: groups else groups
  | .erase k => groups.filter fun g => k ∉ g.1

theorem Op.apply_holds (h : s.Holds groups) (op : Op K V) : (op.apply s).Holds (op.effect groups) := by
  cases op with
  | erase k => exact holds_erase h k
  | store Keys v =>
    show ((s.store Keys v).toOption.getD s).Holds
      (if Keys ≠ [] ∧ (Keys ++ groups.flatMap Prod.fst).Nodup then (Keys, v) :: groups else groups)
    by_cases hne : Keys = []
    · rw [if_neg fun hc => hc.1 hne, Keys1Value.store, if_pos hne]
      exact h
    · by_cases hnew : (Keys ++ groups.flatMap Prod.fst).Nodup
      · obtain ⟨s', hs, hs'⟩ := holds_store h hne hnew v
        rw [if_pos ⟨hne, hnew⟩, hs]
        exact hs'
      · rw [if_neg fun hc => hnew hc.2, store_error h hne hnew]
        exact h

theorem foldl_holds (ops : List (Op K V)) (h : s.Holds groups) :
    (ops.foldl Op.apply s).Holds (ops.foldl Op.effect groups) := by
  induction ops generalizing s groups with
  | nil => exact h
  | cons op ops ih => exact ih (op.apply_holds h)

/-- After any sequence of calls, a key finds the value of the one group that has it, a list of keys has one that is
there if a group has it, and the groups are listed once each if keys of them that are `==` are the same. -/
theorem run_groups (eq : K → K → Bool) (ops : List (Op K V)) :
    (∀ k v, (ops.foldl Op.apply new).find k = some v ↔ ∃ Keys, (Keys, v) ∈ ops.foldl Op.effect [] ∧ k ∈ Keys) ∧
    (∀ Keys, (ops.foldl Op.apply new).isAnyKey Keys = true ↔
      ∃ k ∈ Keys, k ∈ (ops.foldl Op.effect []).flatMap Prod.fst) ∧
    ∀ l, Lists l (ops.foldl Op.apply new).lookup →
      Exact eq ((ops.foldl Op.effect ([] : List (List K × V))).flatMap Prod.fst) →
        (toList eq l).Perm (ops.foldl Op.effect []) := by
  have h := foldl_holds ops (holds_new (K := K) (V := V))
  exact ⟨h.find_eq_some, h.isAnyKey_iff, fun l hl he => h.toList_perm hl he⟩

/-- Two groups of numbers, which are floats or not, behind a store that raises and an erase. -/
def numberOps : List (Op (Nat × Bool) Char) :=
  [.store [(1, true)] 'a', .store [(2, false), (3, false)] 'b', .store [(3, false)] 'c', .erase (1, true),
    .store [(1, false)] 'd']

theorem run_groups_numbers :
    (toList (fun k k' : Nat × Bool => k.1 == k'.1) [((3, false), ([(2, false), (3, false)], 'b')),
      ((1, false), ([(1, false)], 'd')), ((2, false), ([(2, false), (3, false)], 'b'))]).Perm
        [([(1, false)], 'd'), ([(2, false), (3, false)], 'b')] := by
  have hgroups : numberOps.foldl Op.effect [] = [([(1, false)], 'd'), ([(2, false), (3, false)], 'b')] := by decide
  have hlisted := (run_groups (fun k k' => k.1 == k'.1) numberOps).2.2 [((3, false), ([(2, false), (3, false)], 'b')),
    ((1, false), ([(1, false)], 'd')), ((2, false), ([(2, false), (3, false)], 'b'))]
  rw [hgroups] at hlisted
  refine hlisted ⟨by decide, fun k a => ?_⟩ ?_
  · rw [(foldl_holds numberOps holds_new).lookup_eq_some, hgroups]
    simp only [List.mem_cons, Prod.mk.injEq, List.not_mem_nil, or_false]
    constructor
    · rintro (⟨rfl, rfl⟩ | ⟨rfl, rfl⟩ | ⟨rfl, rfl⟩) <;> decide
    · rintro ⟨rfl | rfl, hk⟩
      · exact .inr (.inl ⟨List.mem_singleton.mp hk, rfl⟩)
      · rcases List.mem_pair.mp hk with rfl | rfl
        · exact .inr (.inr ⟨rfl, rfl⟩)
        · exact .inl ⟨rfl, rfl⟩
  · unfold Exact
    decide

end Keys1Value

end CloudI
