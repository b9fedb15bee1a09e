import Mathlib.Data.Set.Basic

/-!
# Replaying requests in another order

Requests act on states by `effect`. A request that commutes with the ones
before it can be replayed first (`foldl_pull`). Where a state is given by its
values at some keys, and each request reads and changes only the keys of its
footprint, requests with disjoint footprints commute (`commutes_of_disjoint`),
and states that agree on a set of keys go on to agree there (`effect_congr`).
-/

namespace CloudI.Replay

variable {M R K V : Type*}

/-- The requests have the same effect in either order. -/
def Commutes (effect : M → R → M) (r r' : R) : Prop :=
  ∀ m, effect (effect m r) r' = effect (effect m r') r

variable {effect : M → R → M}

theorem Commutes.symm {r r' : R} (h : Commutes effect r r') : Commutes effect r' r := fun m => (h m).symm

/-- A request that commutes with all before it can be replayed first. -/
theorem foldl_pull {r : R} {l₁ : List R} (h : ∀ r' ∈ l₁, Commutes effect r' r) (m : M) (l₂ : List R) :
    (l₁ ++ r :: l₂).foldl effect m = (l₁ ++ l₂).foldl effect (effect m r) := by
  induction l₁ generalizing m with
  | nil => rfl
  | cons r' l₁ ih =>
    rw [List.cons_append, List.foldl_cons, ih (fun x hx => h x (List.mem_cons_of_mem r' hx)),
      h r' List.mem_cons_self, List.cons_append, List.foldl_cons]

/-! ## Footprints -/

/-- Each request changes only its footprint, by what it reads there. -/
structure Local (get : M → K → V) (effect : M → R → M) (foot : R → Set K) : Prop where
  ext : ∀ m m', (∀ k, get m k = get m' k) → m = m'
  frame : ∀ m r k, k ∉ foot r → get (effect m r) k = get m k
  reads : ∀ m m' r, (∀ k ∈ foot r, get m k = get m' k) → ∀ k ∈ foot r, get (effect m r) k = get (effect m' r) k

variable {get : M → K → V} {foot : R → Set K}

theorem commutes_of_disjoint (h : Local get effect foot) {r r' : R} (hd : ∀ k ∈ foot r, k ∉ foot r') :
    Commutes effect r r' := by
  intro m
  refine h.ext _ _ fun k => ?_
  by_cases hk : k ∈ foot r
  · rw [h.frame _ r' k (hd k hk)]
    exact h.reads _ _ r (fun j hj => (h.frame m r' j (hd j hj)).symm) k hk
  · rw [h.frame _ r k hk]
    by_cases hk' : k ∈ foot r'
    · exact h.reads _ _ r' (fun j hj => h.frame m r j fun hj' => hd j hj' hj) k hk'
    · rw [h.frame _ r' k hk', h.frame _ r' k hk', h.frame _ r k hk]

/-- States that agree on a set of keys agree there after a request whose footprint is in it. -/
theorem effect_congr (h : Local get effect foot) {S : Set K} {m m' : M} (hm : ∀ k ∈ S, get m k = get m' k)
    {r : R} (hr : foot r ⊆ S) : ∀ k ∈ S, get (effect m r) k = get (effect m' r) k := by
  intro k hk
  by_cases hf : k ∈ foot r
  · exact h.reads m m' r (fun j hj => hm j (hr hj)) k hf
  · rw [h.frame m r k hf, h.frame m' r k hf, hm k hk]

end CloudI.Replay
