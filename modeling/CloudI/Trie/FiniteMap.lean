import CloudI.Framework.Run
import CloudI.Trie.Contents

/-!
# The trie as a finite map

`Op.apply` is an operation on a trie and `Op.reference` the operation on a
map from keys to values. `run_finite_map` is every sequence of operations, as
long as no `erase/2` cuts a compressed end and no `filter/2` keeps a key while
it rejects a longer one (`Op.Safe`); `not_finite_map` has a run of each kind
that `Op.Safe` excludes.
-/

namespace CloudI.Trie

open Node

variable {α : Type}

/-- A nonempty string. -/
abbrev Key := { K : List Nat // K ≠ [] }

/-- The operations on keys and values. -/
inductive Op (α : Type) where
  | store (K : Key) (NewValue : Term α)
  | erase (K : Key)
  | update (K : Key) (F : Option (Term α) → Except Exn (Term α)) (Initial : Term α)
  | append (K : Key) (Value : α)
  | filter (F : List Nat → Term α → Bool)
  | map (F : List Nat → Term α → Term α)

/-- The reference: the value of each key, if any. -/
abbrev Map (α : Type) := List Nat → Option (Term α)

namespace Op

def apply (node : Node (Term α)) : Op α → Except Exn (Node (Term α))
  | store K NewValue => Trie.store K NewValue node
  | erase K => Trie.erase K node
  | update K F Initial => update4 K F Initial node
  | append K Value => Trie.append K Value node
  | filter F => .ok (Trie.filter F node)
  | map F => .ok (Trie.map F node)

/-- Update a value, or add the initial one. -/
def updateMap (m : Map α) (K : List Nat) (F : Option (Term α) → Except Exn (Term α)) (Initial : Term α) :
    Except Exn (Map α) := do
  return Function.update m K (some (← updateValue F Initial (m K)))

def reference (m : Map α) : Op α → Except Exn (Map α)
  | store K NewValue => .ok (Function.update m K (some NewValue))
  | erase K => .ok (Function.update m K none)
  | update K F Initial => updateMap m K F Initial
  | append K Value => updateMap m K (Term.append Value) (.list [Value])
  | filter F => .ok fun k => (m k).filter (F k)
  | map F => .ok fun k => (m k).map (F k)

/-- The key of an `erase/2` does not end within the compressed end of a longer
key, and a predicate of `filter/2` that is true of a key held is true of every
longer key held. -/
def Safe (op : Op α) (node : Node (Term α)) : Prop :=
  match op with
  | erase ⟨H :: T, _⟩ => cutsEnd H T node = false
  | filter F => Upward F [] (lookup node)
  | _ => True

end Op

/-- The trie is clean and stands for the map. -/
def Represents (node : Node (Term α)) (m : Map α) : Prop :=
  IsTrie node ∧ Clean node ∧ lookup node = m

theorem IsTrie.cleanSlot {V : Type} {node : Node V} (h : IsTrie node) (hclean : Clean node) :
    CleanSlot node none := by
  rcases h with rfl | h
  · exact cleanSlot_suffix_nil none
  · exact cleanSlot_of_isTuple hclean h none

variable {node : Node (Term α)}

/-- A write of a tuple is a write of the map. -/
theorem agree_of_writes {put : Option (Term α) → Except Exn (Term α)} {H : Nat} {T : List Nat}
    {m : Map α} {r : Except Exn (Node (Term α))} (hm : lookup node = m) (hw : Writes put H T node r) :
    Agree Represents r (do return Function.update m (H :: T) (some (← put (m (H :: T))))) := by
  rw [Writes, show node.content none (H :: T) = m (H :: T) from congrFun hm _] at hw
  cases hp : put (m (H :: T)) with
  | error e =>
    rw [hp] at hw
    rw [hw]
    exact rfl
  | ok y =>
    rw [hp] at hw
    obtain ⟨node', hr, ht, hclean, hcont⟩ := hw
    rw [hr]
    exact ⟨.inr ht, hclean, by rw [lookup, hcont, ← hm]; rfl⟩

theorem store_agrees {m : Map α} (h : Represents node m) (K : Key) (v : Term α) :
    Agree Represents (store K v node) (.ok (Function.update m K (some v))) := by
  obtain ⟨ht, hclean, hm⟩ := h
  obtain ⟨node', hr, ht', hclean', hl⟩ := store_spec ht hclean K.2 v
  rw [hr]
  exact ⟨.inr ht', hclean', by rw [hl, hm]⟩

theorem update4_agrees {m : Map α} (h : Represents node m) (K : Key)
    (F : Option (Term α) → Except Exn (Term α)) (Initial : Term α) :
    Agree Represents (update4 K F Initial node) (Op.updateMap m K F Initial) := by
  obtain ⟨ht, hclean, hm⟩ := h
  obtain ⟨_ | ⟨H, T⟩, hK⟩ := K
  · exact absurd rfl hK
  rcases ht with rfl | ht
  · have hnone : m (H :: T) = none := by rw [← hm, lookup_suffix_nil]
    rw [Op.updateMap, hnone]
    exact store_agrees ⟨.inl rfl, hclean, hm⟩ ⟨H :: T, hK⟩ Initial
  · cases node with
    | suffix => exact nomatch ht
    | tuple =>
      exact agree_of_writes hm (@writeNode_spec _ Initial (updateValue F Initial) F rfl (fun _ => rfl)
        H T _ ht hclean)

theorem erase_agrees {m : Map α} (h : Represents node m) {K : Key} (hsafe : (Op.erase K : Op α).Safe node) :
    Agree Represents (erase K node) (.ok (Function.update m K none)) := by
  obtain ⟨ht, hclean, hm⟩ := h
  obtain ⟨_ | ⟨H, T⟩, hK⟩ := K
  · exact absurd rfl hK
  rcases ht with rfl | ht
  · refine ⟨.inl rfl, hclean, ?_⟩
    funext k
    rw [← hm, Function.update_apply, lookup_suffix_nil, ite_self]
  · cases node with
    | suffix => exact nomatch ht
    | tuple =>
      obtain ⟨node', hr, ht', hclean', hcont⟩ := eraseNode_spec ht hclean hsafe
      rw [erase, hr]
      · exact ⟨.inr ht', hclean', by rw [lookup, hcont, ← hm]; rfl⟩
      · exact nofun

/-- A safe operation does on the trie what it does on the map. -/
theorem apply_agrees (op : Op α) (node : Node (Term α)) (m : Map α) (h : Represents node m)
    (hsafe : op.Safe node) : Agree Represents (op.apply node) (op.reference m) := by
  have ⟨ht, hclean, hm⟩ := h
  cases op with
  | store K v => exact store_agrees h K v
  | erase K => exact erase_agrees h hsafe
  | update K F Initial => exact update4_agrees h K F Initial
  | append K Value => exact update4_agrees h K _ _
  | filter F =>
    obtain ⟨hc, hl⟩ := filter_lookup (ht.cleanSlot hclean) hsafe
    refine ⟨ht.imp (fun h0 => ?_) (filterSlot_isTuple F [] none), hc, by rw [hl, hm]⟩
    rw [h0]
    rfl
  | map F =>
    obtain ⟨hc, hl⟩ := map_lookup F (ht.cleanSlot hclean)
    refine ⟨ht.imp (fun h0 => ?_) (mapSlot_isTuple F [] none), hc, by rw [hl, hm]⟩
    rw [h0]
    rfl

/-- The trie answers as the finite map does: `find/2` and `is_key/2` on every
nonempty key, and `to_list/1` as its pairs in strictly ascending key order. -/
def Answers (node : Node (Term α)) (m : Map α) : Prop :=
  (∀ K : Key, find K node = .ok (m K)) ∧ (∀ K : Key, isKey K node = .ok (m K).isSome) ∧
    (∀ k v, (k, v) ∈ toList node ↔ m k = some v) ∧ (toList node).Pairwise fun p q => p.1 < q.1

theorem Represents.answers {m : Map α} (h : Represents node m) : Answers node m := by
  obtain ⟨ht, -, rfl⟩ := h
  exact ⟨fun K => find_eq ht K.2, fun K => isKey_eq ht K.2, toList_spec node⟩

/-- The trie is its reference map after every run of safe operations: both
raise the same, or the trie answers as the map does. -/
theorem run_finite_map (ops : List (Op α)) (hops : Guarded Op.apply Op.Safe ops (.suffix [])) :
    Agree Answers (ops.foldlM Op.apply (.suffix [])) (ops.foldlM Op.reference fun _ => none) :=
  (foldlM_agree apply_agrees ⟨.inl rfl, trivial, funext fun _ => lookup_suffix_nil _⟩ hops).mono
    fun _ _ h => h.answers

/-- The run that stores `a`, appends to `ab` and erases `a`. -/
theorem run_finite_map_erase :
    Agree Answers ([Op.store ⟨[97], by decide⟩ (.other 1), .append ⟨[97, 98], by decide⟩ 2,
        .erase ⟨[97], by decide⟩].foldlM Op.apply (.suffix []))
      (.ok (Function.update (Function.update (Function.update (fun _ => none) [97] (some (.other 1)))
        [97, 98] (some (.list [2]))) [97] none) : Except Exn (Map Nat)) := by
  refine run_finite_map _ ⟨trivial, fun s hs => ⟨trivial, fun s' hs' => ⟨?_, fun _ _ => trivial⟩⟩⟩
  cases hs
  have h : (append [97, 98] 2 (single 97 (.suffix []) (some (Term.other 1)))).map (cutsEnd 97 []) =
      .ok false := by decide +kernel
  rw [show append [97, 98] 2 (single 97 (.suffix []) (some (Term.other 1))) = .ok s' from hs'] at h
  exact Except.ok.inj h

theorem Answers.find_map {x : Except Exn (Node (Term α))} {y : Except Exn (Map α)} (h : Agree Answers x y)
    (K : Key) : (do find K (← x)) = (do return (← y) K) := by
  cases x <;> cases y <;> first | exact congrArg Except.error h | exact h.1 K | exact h.elim

/-- Erasing a key that cuts a longer one removes the longer one, and filtering
keeps what is below a key it keeps. -/
theorem not_finite_map :
    ¬ Agree Answers ([Op.store ⟨[97, 98, 99], by decide⟩ (.other 1), .erase ⟨[97], by decide⟩].foldlM
        Op.apply (.suffix [])) (([Op.store ⟨[97, 98, 99], by decide⟩ (.other 1), .erase ⟨[97], by decide⟩].foldlM
        Op.reference fun _ => none) : Except Exn (Map Nat)) ∧
    ¬ Agree Answers ([Op.store ⟨[97], by decide⟩ (.other 1), .store ⟨[97, 98], by decide⟩ (.other 2),
        .filter fun K _ => K == [97]].foldlM Op.apply (.suffix []))
      (([Op.store ⟨[97], by decide⟩ (.other 1), .store ⟨[97, 98], by decide⟩ (.other 2),
        .filter fun K _ => K == [97]].foldlM Op.reference fun _ => none) : Except Exn (Map Nat)) := by
  refine ⟨fun h => ?_, fun h => ?_⟩
  · exact absurd (Answers.find_map h ⟨[97, 98, 99], by decide⟩) (by decide +kernel)
  · exact absurd (Answers.find_map h ⟨[97, 98], by decide⟩) (by decide +kernel)

end CloudI.Trie
