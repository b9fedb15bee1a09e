import Mathlib.Data.List.AList
import Mathlib.Data.List.Nodup
import Mathlib.Logic.Function.Basic
import CloudI.Framework.Exn

/-!
# Dictionaries

`Dict` is the dictionary of the standard library, as the finite map it is.
`DictI` is a module with the interface of `dict`, given by its functions and
by what a caller relies on: `Holds` relates the data to the map it stands for,
and each function keeps it or answers by it. A caller erases only keys it has
found (`erase_ok`). `Dict.dictI` is `dict` itself.
-/

namespace CloudI

variable {K V : Type}

/-- The dictionary of the standard library. -/
abbrev Dict (K V : Type) := K → Option V

namespace Dict

/-- `dict:fetch/2`, which raises without the key. -/
def fetch (k : K) (d : Dict K V) : Except Exn V :=
  match d k with
  | none => .error .badarg
  | some v => .ok v

theorem fetch_eq_ok {k : K} {d : Dict K V} {v : V} : fetch k d = .ok v ↔ d k = some v := by
  rw [fetch]
  cases d k with
  | none => simp
  | some w => simp

variable [DecidableEq K]

/-- `dict:new/0` -/
def new : Dict K V := fun _ => none

/-- `dict:update/3`, which raises without the key. -/
def update (k : K) (F : V → V) (d : Dict K V) : Except Exn (Dict K V) :=
  match d k with
  | none => .error .badarg
  | some v => .ok (Function.update d k (some (F v)))

/-- `dict:update/4` -/
def update4 (k : K) (F : V → V) (Initial : V) (d : Dict K V) : Dict K V :=
  Function.update d k (some ((d k).elim Initial F))

/-- `dict:store/3` -/
def store (k : K) (v : V) (d : Dict K V) : Dict K V := Function.update d k (some v)

/-- `dict:erase/2` -/
def erase (k : K) (d : Dict K V) : Dict K V := Function.update d k none

/-- `dict:merge/3` -/
def merge (F : K → V → V → V) (d1 d2 : Dict K V) : Dict K V := fun k =>
  match d1 k, d2 k with
  | some v1, some v2 => some (F k v1 v2)
  | some v1, none => some v1
  | none, v2 => v2

theorem store_self (k : K) (v : V) (d : Dict K V) : store k v d k = some v := Function.update_self _ _ _

theorem store_of_ne {k k' : K} (h : k' ≠ k) (v : V) (d : Dict K V) : store k v d k' = d k' :=
  Function.update_of_ne h _ _

theorem erase_self (k : K) (d : Dict K V) : erase k d k = none := Function.update_self _ _ _

theorem erase_of_ne {k k' : K} (h : k' ≠ k) (d : Dict K V) : erase k d k' = d k' := Function.update_of_ne h _ _

theorem update_ok {k : K} {F : V → V} {d : Dict K V} {v : V} (h : d k = some v) :
    update k F d = .ok (Function.update d k (some (F v))) := by
  simp only [update, h]

end Dict

/-- A module with the interface of `dict`. -/
structure DictI (K V : Type) where
  Data : Type
  new : Data
  find : K → Data → Except Exn (Option V)
  fetch : K → Data → Except Exn V
  isKey : K → Data → Except Exn Bool
  store : K → V → Data → Except Exn Data
  update3 : K → (V → Except Exn V) → Data → Except Exn Data
  update4 : K → (V → Except Exn V) → V → Data → Except Exn Data
  erase : K → Data → Except Exn Data
  fold : {A : Type} → (K → V → A → Except Exn A) → A → Data → Except Exn A
  /-- The data stands for the map. -/
  Holds : Data → (K → Option V) → Prop
  holds_new : Holds new fun _ => none
  find_ok : ∀ {d m}, Holds d m → ∀ k, find k d = .ok (m k)
  fetch_ok : ∀ {d m k v}, Holds d m → m k = some v → fetch k d = .ok v
  isKey_ok : ∀ {d m}, Holds d m → ∀ k, isKey k d = .ok (m k).isSome
  store_ok : ∀ [DecidableEq K] {d m}, Holds d m → ∀ k v,
    ∃ d', store k v d = .ok d' ∧ Holds d' (Function.update m k (some v))
  update3_ok : ∀ [DecidableEq K] {d m}, Holds d m → ∀ {k F v v'}, m k = some v → F v = .ok v' →
    ∃ d', update3 k F d = .ok d' ∧ Holds d' (Function.update m k (some v'))
  update4_ok : ∀ [DecidableEq K] {d m}, Holds d m → ∀ {k F Initial v}, (m k).elim (.ok Initial) F = .ok v →
    ∃ d', update4 k F Initial d = .ok d' ∧ Holds d' (Function.update m k (some v))
  erase_ok : ∀ [DecidableEq K] {d m}, Holds d m → ∀ {k}, m k ≠ none →
    ∃ d', erase k d = .ok d' ∧ Holds d' (Function.update m k none)
  fold_ok : ∀ {d m}, Holds d m → ∃ l : List (K × V), (l.map Prod.fst).Nodup ∧
    (∀ k v, (k, v) ∈ l ↔ m k = some v) ∧
    ∀ {A : Type} (F : K → V → A → Except Exn A) (a : A), fold F a d = l.foldlM (fun a p => F p.1 p.2 a) a

namespace Dict

variable [dec : DecidableEq K]

/-- The entries of `dict` stand for the map. -/
def Entries (d : AList fun _ : K => V) (m : K → Option V) : Prop := ∀ k, d.lookup k = m k

theorem entries_insert {d : AList fun _ : K => V} {m m' : K → Option V} (h : Entries d m) {k : K} {v : V}
    (hself : m' k = some v) (hne : ∀ j, j ≠ k → m' j = m j) : Entries (d.insert k v) m' := by
  intro j
  by_cases hj : j = k
  · rw [hj, AList.lookup_insert, hself]
  · rw [AList.lookup_insert_ne hj, hne j hj, h]

theorem entries_erase {d : AList fun _ : K => V} {m m' : K → Option V} (h : Entries d m) {k : K}
    (hself : m' k = none) (hne : ∀ j, j ≠ k → m' j = m j) : Entries (d.erase k) m' := by
  intro j
  by_cases hj : j = k
  · rw [hj, AList.lookup_erase, hself]
  · rw [AList.lookup_erase_ne hj, hne j hj, h]

/-- `dict` as a module with its own interface. -/
def dictI : DictI K V where
  Data := AList fun _ : K => V
  new := ∅
  find k d := .ok (d.lookup k)
  fetch k d := (d.lookup k).elim (.error .badarg) .ok
  isKey k d := .ok (d.lookup k).isSome
  store k v d := .ok (d.insert k v)
  update3 k F d := (d.lookup k).elim (.error .badarg) fun v => return d.insert k (← F v)
  update4 k F Initial d := do return d.insert k (← (d.lookup k).elim (.ok Initial) F)
  erase k d := .ok (d.erase k)
  fold F a d := d.entries.foldlM (fun a p => F p.1 p.2 a) a
  Holds := Entries
  holds_new k := AList.lookup_empty k
  find_ok h k := congrArg Except.ok (h k)
  fetch_ok h hk := by rw [h, hk]; rfl
  isKey_ok h k := congrArg (fun o => Except.ok o.isSome) (h k)
  store_ok := by
    intro inst d m h k v
    exact ⟨_, rfl, @entries_insert K V dec d m _ h k v (Function.update_self ..) fun _ hj =>
        Function.update_of_ne hj ..⟩
  update3_ok := by
    intro inst d m h k F v v' hk hF
    refine ⟨_, ?_, @entries_insert K V dec d m _ h k v' (Function.update_self ..) fun _ hj =>
        Function.update_of_ne hj ..⟩
    rw [h, hk, Option.elim_some, hF]
    rfl
  update4_ok := by
    intro inst d m h k F Initial v hv
    refine ⟨_, ?_, @entries_insert K V dec d m _ h k v (Function.update_self ..) fun _ hj =>
        Function.update_of_ne hj ..⟩
    rw [h, hv]
    rfl
  erase_ok := by
    intro inst d m h k _
    exact ⟨_, rfl, @entries_erase K V dec d m _ h k (Function.update_self ..) fun _ hj => Function.update_of_ne hj ..⟩
  fold_ok {d m} h := by
    refine ⟨d.entries.map fun p => (p.1, p.2), ?_, fun k v => ?_, fun F a => ?_⟩
    · rw [List.map_map]
      exact d.keys_nodup
    · rw [← h, ← Option.mem_def, AList.mem_lookup_iff, List.mem_map]
      refine ⟨fun hp => ?_, fun hp => ⟨_, hp, rfl⟩⟩
      obtain ⟨p, hp, he⟩ := hp
      cases he
      exact hp
    · rw [List.foldlM_map]

end Dict

end CloudI
