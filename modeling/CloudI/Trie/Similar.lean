import Mathlib.Data.Nat.Find
import CloudI.Trie.Dict

/-!
# Entries that share a prefix with a string

`foldl_similar/4`, `foldr_similar/4` and the functions made from them, and `find_similar/2`, which walk a trie along a
string. `walk` says where: the key of the node that the walk ends at, and whether the value of that key is among what
is visited (`foldSimilarNode_eq`). What is visited is what shares the longest prefix with the string, unless the walk
ends at a slot without a value (`similar_closest_iff`).
-/

namespace CloudI.Trie

open Node

variable {V A : Type}

/-! ## The functions -/

inductive Fold where
  | foldl
  | foldr
deriving DecidableEq

/-- `fold_similar_element/5` -/
def foldSimilarElement (fold : Fold) (F : List Nat → V → A → A) (a : A) (Key : List Nat) (node : Node V) : A :=
  match fold with
  | .foldl => foldlSlot F Key node none a
  | .foldr => foldrSlot F Key node none a

/-- The value of a key, and what is below it. -/
def foldSimilarValue (fold : Fold) (F : List Nat → V → A → A) (a : A) (Key : List Nat) (Value : Option V)
    (node : Node V) : A :=
  match Value, fold with
  | none, _ => foldSimilarElement fold F a Key node
  | some Value, .foldl => foldSimilarElement fold F (F Key Value a) Key node
  | some Value, .foldr => F Key Value (foldSimilarElement fold F a Key node)

def foldSimilarNode (fold : Fold) (F : List Nat → V → A → A) (a : A) (H : Nat) :
    List Nat → List Nat → Option V → Node V → Except Exn A
  | _, _, _, .suffix _ => .error .functionClause
  | [], Key, LastValue, .tuple I0 N child value =>
    if h : InRange H I0 N then
      match child (slot h), value (slot h) with
      | .tuple I0' N' child' value', Value =>
        .ok (foldSimilarValue fold F a (Key ++ [H]) Value (.tuple I0' N' child' value'))
      | .suffix s, some Value => .ok (F (Key ++ [H] ++ s) Value a)
      | .suffix _, none => .ok (foldSimilarElement fold F a Key (.tuple I0 N child value))
    else .ok (foldSimilarValue fold F a Key LastValue (.tuple I0 N child value))
  | H1 :: T1, Key, LastValue, .tuple I0 N child value =>
    if h : InRange H I0 N then
      match child (slot h), value (slot h) with
      | .tuple I0' N' child' value', Value =>
        foldSimilarNode fold F a H1 T1 (Key ++ [H]) Value (.tuple I0' N' child' value')
      | .suffix s, some Value => .ok (F (Key ++ [H] ++ s) Value a)
      | .suffix _, none => .ok (foldSimilarElement fold F a Key (.tuple I0 N child value))
    else .ok (foldSimilarValue fold F a Key LastValue (.tuple I0 N child value))

/-- A tuple without a slot for the first character of the string. -/
def outside : List Nat → Node V → Bool
  | H :: _, .tuple I0 N _ _ => decide (¬ InRange H I0 N)
  | _, _ => false

/-- `foldl_similar/4` and `foldr_similar/4` -/
def foldSimilarOf (fold : Fold) (Similar : List Nat) (F : List Nat → V → A → A) (a : A) (node : Node V) :
    Except Exn A :=
  if outside Similar node then .ok a
  else
    match Similar, node with
    | _, .suffix [] => .ok a
    | H :: T, node => foldSimilarNode fold F a H T [] none node
    | [], _ => .error .functionClause

def foldlSimilar (Similar : List Nat) (F : List Nat → V → A → A) (a : A) (node : Node V) : Except Exn A :=
  foldSimilarOf .foldl Similar F a node

def foldrSimilar (Similar : List Nat) (F : List Nat → V → A → A) (a : A) (node : Node V) : Except Exn A :=
  foldSimilarOf .foldr Similar F a node

def foldSimilar (Similar : List Nat) (F : List Nat → V → A → A) (a : A) (node : Node V) : Except Exn A :=
  foldlSimilar Similar F a node

def fetchKeysSimilar (Similar : List Nat) (node : Node V) : Except Exn (List (List Nat)) :=
  foldrSimilar Similar (fun Key _ L => Key :: L) [] node

def toListSimilar (Similar : List Nat) (node : Node V) : Except Exn (List (List Nat × V)) :=
  foldrSimilar Similar (fun Key Value L => (Key, Value) :: L) [] node

/-- `erase_similar/2`; the accumulator is the outcome of the calls of `erase/2`. -/
def eraseSimilar (Similar : List Nat) (node : Node V) : Except Exn (Node V) := do
  ← foldSimilar Similar (fun Key _ N => do erase Key (← N)) (Except.ok node) node

/-! ## The walk -/

/-- Where the walk along `H :: T` ends: the key of a node, and whether its own value is visited with what is below. -/
def walk (H : Nat) : List Nat → List Nat → Node V → List Nat × Bool
  | _, Key, .suffix _ => (Key, true)
  | [], Key, .tuple I0 N child value =>
    if h : InRange H I0 N then
      match child (slot h), value (slot h) with
      | .suffix _, none => (Key, false)
      | _, _ => (Key ++ [H], true)
    else (Key, true)
  | H1 :: T1, Key, .tuple I0 N child value =>
    if h : InRange H I0 N then
      match child (slot h), value (slot h) with
      | .tuple I0' N' child' value', _ => walk H1 T1 (Key ++ [H]) (.tuple I0' N' child' value')
      | .suffix _, none => (Key, false)
      | .suffix _, some _ => (Key ++ [H], true)
    else (Key, true)

/-- What is visited below `H :: T`. -/
def visited (H : Nat) : List Nat → List Nat → Option V → Node V → List (List Nat × V)
  | _, Key, LastValue, .suffix s => entries Key (.suffix s) LastValue
  | [], Key, LastValue, .tuple I0 N child value =>
    if h : InRange H I0 N then
      match child (slot h), value (slot h) with
      | .suffix _, none => entries Key (.tuple I0 N child value) none
      | c, v => entries (Key ++ [H]) c v
    else entries Key (.tuple I0 N child value) LastValue
  | H1 :: T1, Key, LastValue, .tuple I0 N child value =>
    if h : InRange H I0 N then
      match child (slot h), value (slot h) with
      | .tuple I0' N' child' value', v => visited H1 T1 (Key ++ [H]) v (.tuple I0' N' child' value')
      | .suffix _, none => entries Key (.tuple I0 N child value) none
      | .suffix s, some v => entries (Key ++ [H]) (.suffix s) (some v)
    else entries Key (.tuple I0 N child value) LastValue

/-- A fold over a list, from the left or from the right. -/
def Fold.run (fold : Fold) (F : List Nat → V → A → A) (l : List (List Nat × V)) (a : A) : A :=
  match fold with
  | .foldl => l.foldl (fun a p => F p.1 p.2 a) a
  | .foldr => l.foldr (fun p a => F p.1 p.2 a) a

variable {F : List Nat → V → A → A} {fold : Fold} {a : A}

theorem foldSimilarElement_eq (Key : List Nat) (node : Node V) :
    foldSimilarElement fold F a Key node = fold.run F (entries Key node none) a := by
  cases fold with
  | foldl => exact foldlSlot_eq F Key node none a
  | foldr => exact foldrSlot_eq F Key node none a

theorem foldSimilarValue_eq (Key : List Nat) (Value : Option V) {node : Node V} (h : node.isTuple = true) :
    foldSimilarValue fold F a Key Value node = fold.run F (entries Key node Value) a := by
  cases node with
  | suffix => exact nomatch h
  | tuple I0 N child value =>
    cases Value with
    | none => exact foldSimilarElement_eq Key _
    | some Value =>
      cases fold with
      | foldl =>
        show foldSimilarElement .foldl F (F Key Value a) Key _ = _
        rw [foldSimilarElement_eq]
        rfl
      | foldr =>
        show F Key Value (foldSimilarElement .foldr F a Key _) = _
        rw [foldSimilarElement_eq]
        rfl

theorem run_suffix (Key s : List Nat) (Value : V) :
    F (Key ++ s) Value a = fold.run F (entries Key (.suffix s) (some Value)) a := by
  cases fold <;> rfl

/-- The fold is the one over what is visited. -/
theorem foldSimilarNode_eq {H : Nat} {T Key : List Nat} {LastValue : Option V} {node : Node V}
    (hn : node.isTuple = true) :
    foldSimilarNode fold F a H T Key LastValue node = .ok (fold.run F (visited H T Key LastValue node) a) := by
  induction T generalizing H Key LastValue node with
  | nil =>
    cases node with
    | suffix => exact nomatch hn
    | tuple I0 N child value =>
      rw [foldSimilarNode, visited]
      split
      · rename_i h
        generalize child (slot h) = c
        generalize value (slot h) = v
        cases c with
        | tuple => exact congrArg Except.ok (foldSimilarValue_eq _ _ rfl)
        | suffix s =>
          cases v with
          | none => exact congrArg Except.ok (foldSimilarElement_eq _ _)
          | some v => exact congrArg Except.ok (run_suffix _ _ _)
      · exact congrArg Except.ok (foldSimilarValue_eq _ _ rfl)
  | cons H1 T1 ih =>
    cases node with
    | suffix => exact nomatch hn
    | tuple I0 N child value =>
      rw [foldSimilarNode, visited]
      split
      · rename_i h
        generalize child (slot h) = c
        generalize value (slot h) = v
        cases c with
        | tuple => exact ih rfl
        | suffix s =>
          cases v with
          | none => exact congrArg Except.ok (foldSimilarElement_eq _ _)
          | some v => exact congrArg Except.ok (run_suffix _ _ _)
      · exact congrArg Except.ok (foldSimilarValue_eq _ _ rfl)

/-! ## Common prefixes -/

/-- The length of the longest prefix that two strings share. -/
def common : List Nat → List Nat → Nat
  | a :: s, b :: k => if a = b then common s k + 1 else 0
  | _, _ => 0

@[simp] theorem common_nil (s : List Nat) : common s [] = 0 := by cases s <;> rfl

theorem common_cons_self (a : Nat) (s k : List Nat) : common (a :: s) (a :: k) = common s k + 1 := if_pos rfl

theorem common_cons_ne {a b : Nat} (h : b ≠ a) (s k : List Nat) : common (a :: s) (b :: k) = 0 := if_neg (Ne.symm h)

theorem common_le_length (s k : List Nat) : common s k ≤ s.length := by
  induction s generalizing k with
  | nil => exact Nat.le_refl 0
  | cons a s ih =>
    cases k with
    | nil => exact Nat.zero_le _
    | cons b k =>
      rw [common]
      split
      · exact Nat.succ_le_succ (ih k)
      · exact Nat.zero_le _

/-- A prefix of the string is one of the key when as much is common to them. -/
theorem prefix_iff_common {u s : List Nat} (hu : u <+: s) (k : List Nat) : u <+: k ↔ u.length ≤ common s k := by
  induction u generalizing s k with
  | nil => exact iff_of_true List.nil_prefix (Nat.zero_le _)
  | cons a u ih =>
    obtain ⟨t, rfl⟩ := hu
    cases k with
    | nil => simp
    | cons b k =>
      rw [List.cons_append, List.cons_prefix_cons, common]
      split
      · rename_i hab
        rw [List.length_cons, Nat.succ_le_succ_iff, ← ih (List.prefix_append u t) k]
        exact and_iff_right hab
      · rename_i hab
        exact iff_of_false (fun h => hab h.1) (by simp)

/-- A key that is held and shares with the string as much as any other, and something. -/
def Closest (held : List Nat → Option V) (Similar k : List Nat) : Prop :=
  held k ≠ none ∧ 1 ≤ common Similar k ∧ ∀ k', held k' ≠ none → common Similar k' ≤ common Similar k

/-! ## Where the walk ends -/

/-- What is said of a walk from a node: it goes on along the string by `u`, it visits what is held below `u`, where
`kept` is whether `u` itself is among it, and what is held below `u` shares the most with the string. -/
structure Walks (S : List Nat) (held : List Nat → Option V) (Key : List Nat) (w : List Nat × Bool)
    (l : List (List Nat × V)) (u : List Nat) : Prop where
  fst : w.1 = Key ++ u
  along : u <+: S
  mem : ∀ k x, (k, x) ∈ l ↔ ∃ t, k = Key ++ t ∧ held t = some x ∧ u <+: t ∧ (w.2 = true ∨ t ≠ u)
  sorted : l.Pairwise fun p q => p.1 < q.1
  best : ∀ t t', held t ≠ none → held t' ≠ none → u <+: t → common S t' ≤ common S t
  nil : u = [] → ∀ t, held t ≠ none → common S t = 0

section Walks

variable {I0 N H : Nat} {T Key : List Nat} {child : Fin (N + 1) → Node V} {value : Fin (N + 1) → Option V}
  {LastValue : Option V}

/-- Nothing is held for the next character of the string. -/
theorem walks_here {S : List Nat} {node : Node V} (hn : ∀ t, node.content LastValue t ≠ none → common S t = 0)
    {kept : Bool} {v : Option V}
    (hv : ∀ t, node.content v t = if kept = true ∨ t ≠ [] then node.content LastValue t else none) :
    Walks S (node.content LastValue) Key (Key, kept) (entries Key node v) [] := by
  refine ⟨(List.append_nil Key).symm, List.nil_prefix, fun k x => ?_, entries_sorted _ _ _, fun t t' _ ht' _ => ?_,
    fun _ => hn⟩
  · rw [mem_entries]
    refine exists_congr fun t => and_congr_right fun _ => ?_
    rw [hv]
    by_cases hk : kept = true ∨ t ≠ []
    · rw [if_pos hk]
      exact ⟨fun h => ⟨h, List.nil_prefix, hk⟩, fun h => h.1⟩
    · rw [if_neg hk]
      exact iff_of_false nofun fun h => hk h.2.2
  · rw [hn t' ht']
    exact Nat.zero_le _

/-- The walk ends below the slot of the next character. -/
theorem walks_slot (h : InRange H I0 N) {c : Node V} {v : Option V} (hc : child (slot h) = c)
    (hv : value (slot h) = v)
    (hbest : ∀ t t', c.content v t ≠ none → c.content v t' ≠ none → common T t' ≤ common T t) :
    Walks (H :: T) ((tuple I0 N child value).content LastValue) Key (Key ++ [H], true) (entries (Key ++ [H]) c v)
      [H] := by
  subst hc hv
  refine ⟨rfl, List.cons_prefix_cons.mpr ⟨rfl, List.nil_prefix⟩, fun k x => ?_, entries_sorted _ _ _,
    fun t t' ht ht' hpre => ?_, fun hnil => absurd hnil (List.cons_ne_nil H [])⟩
  · rw [mem_entries]
    constructor
    · rintro ⟨t, rfl, hx⟩
      refine ⟨H :: t, List.append_assoc _ _ _, ?_, List.prefix_append [H] t, .inl rfl⟩
      rw [content_tuple_cons _ _ h, hx]
    · rintro ⟨t, rfl, hx, ⟨s, rfl⟩, -⟩
      rw [List.singleton_append, content_tuple_cons _ _ h] at hx
      exact ⟨s, (List.append_assoc _ _ _).symm, hx⟩
  · obtain ⟨s, rfl⟩ := hpre
    rw [List.singleton_append, content_tuple_cons _ _ h] at ht
    rw [List.singleton_append, common_cons_self]
    cases t' with
    | nil => exact Nat.zero_le _
    | cons c s' =>
      by_cases hc : c = H
      · subst hc
        rw [content_tuple_cons _ _ h] at ht'
        rw [common_cons_self]
        exact Nat.succ_le_succ (hbest s s' ht ht')
      · rw [common_cons_ne hc]
        exact Nat.zero_le _

/-- The walk goes on below the slot of the next character. -/
theorem Walks.slot {w : List Nat × Bool} {l : List (List Nat × V)} {u : List Nat} (h : InRange H I0 N) {c : Node V}
    {v : Option V} (hc : child (slot h) = c) (hv : value (slot h) = v)
    (hw : Walks T (c.content v) (Key ++ [H]) w l u) :
    Walks (H :: T) ((tuple I0 N child value).content LastValue) Key w l (H :: u) := by
  subst hc hv
  refine ⟨hw.fst.trans (List.append_assoc _ _ _), List.cons_prefix_cons.mpr ⟨rfl, hw.along⟩, fun k x => ?_, hw.sorted,
    fun t t' ht ht' hpre => ?_, fun hnil => absurd hnil (List.cons_ne_nil H u)⟩
  · rw [hw.mem]
    constructor
    · rintro ⟨t, rfl, hx, hpre, hk⟩
      refine ⟨H :: t, List.append_assoc _ _ _, ?_, List.cons_prefix_cons.mpr ⟨rfl, hpre⟩,
        hk.imp_right fun hne heq => hne (List.cons.inj heq).2⟩
      rw [content_tuple_cons _ _ h, hx]
    · rintro ⟨t, rfl, hx, hpre, hk⟩
      obtain ⟨s, rfl⟩ := hpre
      rw [List.cons_append, content_tuple_cons _ _ h] at hx
      refine ⟨u ++ s, by simp, hx, List.prefix_append u s,
        hk.imp_right fun hne heq => hne ?_⟩
      rw [List.cons_append, heq]
  · obtain ⟨s, rfl⟩ := hpre
    rw [List.cons_append, content_tuple_cons _ _ h] at ht
    rw [List.cons_append, common_cons_self]
    cases t' with
    | nil => exact Nat.zero_le _
    | cons c s' =>
      by_cases hc : c = H
      · subst hc
        rw [content_tuple_cons _ _ h] at ht'
        rw [common_cons_self]
        exact Nat.succ_le_succ (hw.best _ _ ht ht' (List.prefix_append u s))
      · rw [common_cons_ne hc]
        exact Nat.zero_le _

/-- Keys that the slot of the next character does not hold share nothing more with the string. -/
theorem common_eq_zero (hslot : ∀ t, (tuple I0 N child value).content LastValue (H :: t) = none) (t : List Nat)
    (ht : (tuple I0 N child value).content LastValue t ≠ none) : common (H :: T) t = 0 := by
  cases t with
  | nil => rfl
  | cons c t =>
    refine common_cons_ne (fun hc => ht ?_) T t
    rw [hc, hslot]

theorem content_value (v w : Option V) (t : List Nat) : (tuple I0 N child value).content w t =
    if t = [] then w else (tuple I0 N child value).content v t := by
  cases t with
  | nil => rfl
  | cons c t => rfl

theorem walks_out (h : ¬ InRange H I0 N) :
    Walks (H :: T) ((tuple I0 N child value).content LastValue) Key (Key, true)
      (entries Key (tuple I0 N child value) LastValue) [] :=
  walks_here (common_eq_zero fun _ => content_tuple_out _ _ h) fun _ => (if_pos (.inl rfl)).symm

theorem walks_gap (h : InRange H I0 N) {s : List Nat} (hc : child (slot h) = .suffix s) (hv : value (slot h) = none) :
    Walks (H :: T) ((tuple I0 N child value).content LastValue) Key (Key, false)
      (entries Key (tuple I0 N child value) none) [] := by
  refine walks_here (common_eq_zero fun t => ?_) fun t => ?_
  · rw [content_tuple_cons _ _ h, hc, hv, content_suffix_none]
  · rw [content_value LastValue none]
    by_cases ht : t = []
    · rw [if_pos ht, if_neg (by simp [ht])]
    · rw [if_neg ht, if_pos (.inr ht)]

theorem walks_end (h : InRange H I0 N) {s : List Nat} {v : Option V} (hc : child (slot h) = .suffix s)
    (hv : value (slot h) = v) :
    Walks (H :: T) ((tuple I0 N child value).content LastValue) Key (Key ++ [H], true)
      (entries (Key ++ [H]) (.suffix s) v) [H] := by
  have hself : ∀ t, (suffix s).content v t ≠ none → t = s := by
    intro t ht
    rw [content_suffix] at ht
    exact by_contra fun hne => ht (if_neg hne)
  refine walks_slot h hc hv fun t t' ht ht' => Nat.le_of_eq ?_
  rw [hself t ht, hself t' ht']

end Walks

/-- The walk from a node, by induction on the string. -/
theorem walk_walks {H : Nat} {T Key : List Nat} {LastValue : Option V} {node : Node V} (hn : node.isTuple = true) :
    ∃ u, Walks (H :: T) (node.content LastValue) Key (walk H T Key node) (visited H T Key LastValue node) u := by
  induction T generalizing H Key LastValue node with
  | nil =>
    cases node with
    | suffix => exact nomatch hn
    | tuple I0 N child value =>
      rw [walk, visited]
      by_cases h : InRange H I0 N
      · rw [dif_pos h, dif_pos h]
        cases hc : child (slot h) with
        | tuple => exact ⟨_, walks_slot h hc rfl fun _ _ _ _ => Nat.le_of_eq rfl⟩
        | suffix s =>
          cases hv : value (slot h) with
          | none => exact ⟨_, walks_gap h hc hv⟩
          | some v => exact ⟨_, walks_end h hc hv⟩
      · rw [dif_neg h, dif_neg h]
        exact ⟨_, walks_out h⟩
  | cons H1 T1 ih =>
    cases node with
    | suffix => exact nomatch hn
    | tuple I0 N child value =>
      rw [walk, visited]
      by_cases h : InRange H I0 N
      · rw [dif_pos h, dif_pos h]
        cases hc : child (slot h) with
        | tuple I0' N' child' value' =>
          obtain ⟨u, hu⟩ := @ih H1 (Key ++ [H]) (value (slot h)) (.tuple I0' N' child' value') rfl
          exact ⟨_, hu.slot h hc rfl⟩
        | suffix s =>
          cases hv : value (slot h) with
          | none => exact ⟨_, walks_gap h hc hv⟩
          | some v => exact ⟨_, walks_end h hc hv⟩
      · rw [dif_neg h, dif_neg h]
        exact ⟨_, walks_out h⟩

/-! ## What is visited -/

/-- The entries that the functions visit. -/
def similar : List Nat → Node V → List (List Nat × V)
  | H :: T, node => if outside (H :: T) node = true then [] else visited H T [] none node
  | [], _ => []

theorem foldSimilarOf_eq {H : Nat} {T : List Nat} {node : Node V} (h : IsTrie node) :
    foldSimilarOf fold (H :: T) F a node = .ok (fold.run F (similar (H :: T) node) a) := by
  unfold foldSimilarOf
  rw [similar]
  split
  · cases fold <;> rfl
  · rcases h with rfl | h
    · rw [visited]
      cases fold <;> rfl
    · cases node with
      | suffix => exact nomatch h
      | tuple => exact foldSimilarNode_eq rfl

theorem similar_sorted (S : List Nat) (node : Node V) : (similar S node).Pairwise fun p q => p.1 < q.1 := by
  cases S with
  | nil => exact List.Pairwise.nil
  | cons H T =>
    rw [similar]
    split
    · exact List.Pairwise.nil
    · cases node with
      | suffix s =>
        rw [visited]
        exact entries_sorted _ _ _
      | tuple =>
        obtain ⟨u, hw⟩ := @walk_walks V H T [] none (.tuple _ _ _ _) rfl
        exact hw.sorted

/-- The functions all go through `l`. -/
structure GoesThrough (Similar : List Nat) (node : Node V) (l : List (List Nat × V)) : Prop where
  toListSimilar : toListSimilar Similar node = .ok l
  fetchKeysSimilar : fetchKeysSimilar Similar node = .ok (l.map Prod.fst)
  foldlSimilar : ∀ {A : Type} (F : List Nat → V → A → A) (a : A),
    foldlSimilar Similar F a node = .ok (l.foldl (fun a p => F p.1 p.2 a) a)
  foldrSimilar : ∀ {A : Type} (F : List Nat → V → A → A) (a : A),
    foldrSimilar Similar F a node = .ok (l.foldr (fun p a => F p.1 p.2 a) a)

theorem goesThrough_similar {H : Nat} {T : List Nat} {node : Node V} (h : IsTrie node) :
    GoesThrough (H :: T) node (similar (H :: T) node) := by
  refine ⟨?_, ?_, fun F a => foldSimilarOf_eq h, fun F a => foldSimilarOf_eq h⟩
  · refine (foldSimilarOf_eq h).trans (congrArg Except.ok ?_)
    exact (List.foldr_cons_eq_append' ..).trans (List.append_nil _)
  · refine (foldSimilarOf_eq h).trans (congrArg Except.ok ?_)
    generalize similar (H :: T) node = l
    induction l with
    | nil => rfl
    | cons p l ih => exact congrArg (p.1 :: ·) ih

theorem GoesThrough.unique {Similar : List Nat} {node : Node V} {l l' : List (List Nat × V)}
    (h : GoesThrough Similar node l) (h' : GoesThrough Similar node l') : l = l' :=
  Except.ok.inj (h.toListSimilar.symm.trans h'.toListSimilar)

/-! ## Erasing what is visited -/

/-- A key that is held is erased, and no other one. -/
theorem eraseNode_held {H : Nat} {T : List Nat} {node : Node V} (ht : node.isTuple = true)
    (hheld : node.content none (H :: T) ≠ none) :
    ∃ node', eraseNode H T node = .ok node' ∧ node'.isTuple = true ∧
      ∀ v, node'.content v = Function.update (node.content v) (H :: T) none := by
  fun_induction eraseNode H T node with
  | case1 => exact absurd ht Bool.false_ne_true
  | case2 H I0 N child value h T hnone hc =>
    refine absurd ?_ hheld
    rw [content_tuple_cons _ _ h, hc, content_suffix, if_pos rfl, Option.isNone_iff_eq_none.mp hnone]
  | case3 H I0 N child value h T hsome hc =>
    refine ⟨_, rfl, rfl, content_setSlot h ?_⟩
    funext k
    rw [hc, content_suffix_none, Function.update_apply, content_suffix]
    split <;> rfl
  | case4 H I0 N child value h s hc hnone hs =>
    refine absurd ?_ hheld
    rw [content_tuple_cons _ _ h, hc, content_suffix, if_neg hs]
  | case5 H I0 N child value h s hc hsome hs =>
    refine absurd ?_ hheld
    rw [content_tuple_cons _ _ h, hc, content_suffix, if_neg hs]
  | case6 H I0 N child value h s T hc hs hT =>
    refine absurd ?_ hheld
    rw [content_tuple_cons _ _ h, hc, content_suffix, if_neg hs]
  | case7 H I0 N child value h I0' N' child' value' hc hnone =>
    refine absurd ?_ hheld
    rw [content_tuple_cons _ _ h, hc, content_tuple_nil, Option.isNone_iff_eq_none.mp hnone]
  | case8 H I0 N child value h I0' N' child' value' hc hsome =>
    refine ⟨_, rfl, rfl, content_setSlot h ?_⟩
    rw [hc]
    exact content_set_value _ _ _ (.inl rfl)
  | case9 H I0 N child value h I0' N' child' value' H1 T1 hc ih =>
    rw [content_tuple_cons _ _ h, hc, content_cons_irrel rfl _ none] at hheld
    obtain ⟨c, hcr, -, hcont⟩ := ih rfl hheld
    rw [hcr]
    exact ⟨_, rfl, rfl, content_setSlot h (by rw [hc]; exact hcont _)⟩
  | case10 H T I0 N child value h => exact absurd (content_tuple_out _ _ h) hheld

theorem erase_held {node : Node V} (h : IsTrie node) {K : List Nat} (hheld : lookup node K ≠ none) :
    ∃ node', erase K node = .ok node' ∧ IsTrie node' ∧ lookup node' = Function.update (lookup node) K none := by
  rcases h with rfl | h
  · exact absurd (lookup_suffix_nil K) hheld
  · cases node with
    | suffix => exact nomatch h
    | tuple =>
      cases K with
      | nil => exact absurd rfl hheld
      | cons H T =>
        obtain ⟨node', hr, ht, hcont⟩ := eraseNode_held h hheld
        exact ⟨node', hr, .inr ht, hcont none⟩

/-- Keys that are held, each erased in its turn. -/
theorem erase_all {l : List (List Nat × V)} {node : Node V} (h : IsTrie node)
    (hheld : ∀ p ∈ l, lookup node p.1 ≠ none) (hne : l.Pairwise fun p q => p.1 ≠ q.1) :
    ∃ node', l.foldl (fun N p => do erase p.1 (← N)) (Except.ok node) = .ok node' ∧
      ∀ k, (k ∈ l.map Prod.fst → lookup node' k = none) ∧
        (k ∉ l.map Prod.fst → lookup node' k = lookup node k) := by
  induction l generalizing node with
  | nil => exact ⟨node, rfl, fun k => ⟨fun hk => absurd hk List.not_mem_nil, fun _ => rfl⟩⟩
  | cons p l ih =>
    obtain ⟨node1, hr, h1, hl⟩ := erase_held h (hheld p List.mem_cons_self)
    obtain ⟨hp, hne⟩ := List.pairwise_cons.mp hne
    obtain ⟨node', hr', hl'⟩ := ih h1 (fun q hq => by
      rw [hl, Function.update_of_ne (hp q hq).symm]
      exact hheld q (List.mem_cons_of_mem p hq)) hne
    refine ⟨node', ?_, fun k => ?_⟩
    · rw [List.foldl_cons, ← hr', ← hr]
      rfl
    · rw [List.map_cons, List.mem_cons]
      constructor
      · rintro (rfl | hk)
        · by_cases hmem : p.1 ∈ l.map Prod.fst
          · exact (hl' p.1).1 hmem
          · rw [(hl' p.1).2 hmem, hl, Function.update_self]
        · exact (hl' k).1 hk
      · intro hk
        rw [not_or] at hk
        rw [(hl' k).2 hk.2, hl, Function.update_of_ne hk.1]

/-! ## The closest keys -/

/-- A trie that `store/3` and `erase/2` build. -/
inductive Built : Node V → Prop where
  | new : Built (.suffix [])
  | store {node node' : Node V} {Key : List Nat} {NewValue : V} (hKey : Key ≠ []) (h : Built node)
    (hr : store Key NewValue node = .ok node') : Built node'
  | erase {node node' : Node V} {Key : List Nat} (hKey : Key ≠ []) (h : Built node)
    (hr : erase Key node = .ok node') : Built node'

theorem storeNode_isTuple {NewValue : V} {H : Nat} {T : List Nat} {node node' : Node V}
    (hr : storeNode H T NewValue node = .ok node') : node'.isTuple = true := by
  rw [storeNode] at hr
  fun_induction writeNode NewValue (fun _ => .ok NewValue) (fun _ => .ok NewValue) H T node generalizing node' with
  | case1 => cases hr
  | case4 H I0 N child value hlo hhi h BH BT hc ih => exact ih hr
  | case6 H I0 N child value hlo hhi h H1 T1 I0' N' child' value' hc ih =>
    obtain ⟨c, -, hc'⟩ := bind_eq_ok hr
    cases hc'
    rfl
  | case10 H I0 N child value hlo hhi h H1 T1 BH BT hc _ _ ih => exact ih hr
  | _ =>
    cases hr
    rfl

theorem eraseNode_isTuple {H : Nat} {T : List Nat} {node node' : Node V} (hr : eraseNode H T node = .ok node') :
    node'.isTuple = true := by
  fun_induction eraseNode H T node generalizing node' with
  | case1 => cases hr
  | case9 H I0 N child value h I0' N' child' value' H1 T1 hc ih =>
    obtain ⟨c, -, hc'⟩ := bind_eq_ok hr
    cases hc'
    rfl
  | _ =>
    cases hr
    rfl

theorem Built.isTrie {node : Node V} (h : Built node) : IsTrie node := by
  induction h with
  | new => exact .inl rfl
  | @store node node' Key NewValue hKey _ hr ih =>
    obtain ⟨H, T, rfl⟩ := List.exists_cons_of_ne_nil hKey
    right
    rcases ih with rfl | ih
    · cases hr
      rfl
    · cases node with
      | suffix => exact nomatch ih
      | tuple => exact storeNode_isTuple hr
  | @erase node node' Key hKey _ hr ih =>
    obtain ⟨H, T, rfl⟩ := List.exists_cons_of_ne_nil hKey
    rcases ih with rfl | ih
    · cases hr
      exact .inl rfl
    · cases node with
      | suffix => exact nomatch ih
      | tuple => exact .inr (eraseNode_isTuple hr)

/-- The functions go through the closest keys, and `erase_similar/2` erases them. -/
def FindsClosest (Similar : List Nat) (node : Node V) : Prop :=
  ∃ l, GoesThrough Similar node l ∧ l.Pairwise (fun p q => p.1 < q.1) ∧
    (∀ k x, (k, x) ∈ l ↔ lookup node k = some x ∧ Closest (lookup node) Similar k) ∧
    ∃ node', eraseSimilar Similar node = .ok node' ∧ ∀ k,
      (Closest (lookup node) Similar k → lookup node' k = none) ∧
      (¬ Closest (lookup node) Similar k → lookup node' k = lookup node k)

/-- Where the walk `w` ends there are keys: the value of the node is visited if it has one, and when nothing is held
there then no key has the first character of the string. A walk that stays at the root ends at a slot without a value,
and there all the keys are visited. -/
def EndsWell (H : Nat) (held : List Nat → Option V) (w : List Nat × Bool) : Prop :=
  if w.1 = [] then ∀ k, held k = none
  else (w.2 = false → held w.1 = none) ∧ ((∃ k, held k ≠ none ∧ w.1 <+: k) ∨ ∀ k, held (H :: k) = none)

theorem exists_closest {held : List Nat → Option V} {H : Nat} {T t : List Nat} (ht : held (H :: t) ≠ none) :
    ∃ k, Closest held (H :: T) k := by
  classical
  have hex : ∃ n, ∃ k, held k ≠ none ∧ (H :: T).length - common (H :: T) k = n := ⟨_, _, ht, rfl⟩
  obtain ⟨k, hk, hn⟩ := Nat.find_spec hex
  have hmin : ∀ k', held k' ≠ none → common (H :: T) k' ≤ common (H :: T) k := by
    intro k' hk'
    have := Nat.find_min' hex ⟨k', hk', rfl⟩
    have := common_le_length (H :: T) k'
    have := common_le_length (H :: T) k
    omega
  refine ⟨k, hk, ?_, hmin⟩
  have h1 := hmin _ ht
  rw [common_cons_self] at h1
  omega

theorem Closest.cons {held : List Nat → Option V} {H : Nat} {T k : List Nat} (h : Closest held (H :: T) k) :
    ∃ t, k = H :: t := by
  cases k with
  | nil => exact absurd h.2.1 (by simp)
  | cons c t =>
    by_cases hc : c = H
    · exact ⟨t, by rw [hc]⟩
    · exact absurd h.2.1 (by simp [common_cons_ne hc])

theorem Walks.closest_iff {held : List Nat → Option V} {H : Nat} {T u : List Nat} {w : List Nat × Bool}
    {l : List (List Nat × V)} (hw : Walks (H :: T) held [] w l u) (hnil : held [] = none) :
    (∀ k x, (k, x) ∈ l ↔ held k = some x ∧ Closest held (H :: T) k) ↔ EndsWell H held w := by
  have hu : w.1 = u := hw.fst
  rw [EndsWell, hu]
  split
  · rename_i h0
    -- All the keys are visited, and none is close.
    have hfar : ∀ k, ¬ Closest held (H :: T) k := by
      intro k hk
      have := hw.nil h0 k hk.1
      have := hk.2.1
      omega
    constructor
    · intro hiff k
      by_contra hk
      obtain ⟨x, hx⟩ := Option.ne_none_iff_exists'.mp hk
      have hne : k ≠ u := by
        rintro rfl
        rw [h0, hnil] at hx
        exact nomatch hx
      exact hfar k ((hiff k x).mp ((hw.mem k x).mpr ⟨k, rfl, hx, h0 ▸ List.nil_prefix, .inr hne⟩)).2
    · intro hnone k x
      refine iff_of_false (fun hk => ?_) fun hk => hfar k hk.2
      obtain ⟨t, -, hx, -⟩ := (hw.mem k x).mp hk
      rw [hnone] at hx
      exact nomatch hx
  · rename_i h0
    have hlen : 1 ≤ u.length := List.length_pos_iff.mpr h0
    have hclose : ∀ k, held k ≠ none → u <+: k → Closest held (H :: T) k := by
      intro k hk hpre
      have := (prefix_iff_common hw.along k).mp hpre
      exact ⟨hk, by omega, fun k' hk' => hw.best k k' hk hk' hpre⟩
    constructor
    · intro hiff
      refine ⟨fun hkept => ?_, ?_⟩
      · by_contra hk
        obtain ⟨x, hx⟩ := Option.ne_none_iff_exists'.mp hk
        obtain ⟨t, rfl, -, -, hk'⟩ := (hw.mem u x).mp ((hiff u x).mpr ⟨hx, hclose u hk List.prefix_rfl⟩)
        rw [hkept] at hk'
        simp at hk'
      · by_contra hno
        obtain ⟨hempty, hstart⟩ := not_or.mp hno
        obtain ⟨t, ht⟩ := not_forall.mp hstart
        obtain ⟨k, hk⟩ := exists_closest (T := T) ht
        obtain ⟨x, hx⟩ := Option.ne_none_iff_exists'.mp hk.1
        obtain ⟨t', rfl, -, hpre, -⟩ := (hw.mem k x).mp ((hiff k x).mpr ⟨hx, hk⟩)
        exact hempty ⟨_, hk.1, hpre⟩
    · rintro ⟨hown, hthere⟩ k x
      constructor
      · intro hk
        obtain ⟨t, rfl, hx, hpre, -⟩ := (hw.mem k x).mp hk
        exact ⟨hx, hclose _ (by rw [hx]; exact nofun) hpre⟩
      · rintro ⟨hx, hk⟩
        obtain ⟨k0, hk0, hpre0⟩ | hstart := hthere
        · have hpre : u <+: k := by
            rw [prefix_iff_common hw.along] at hpre0 ⊢
            exact hpre0.trans (hk.2.2 k0 hk0)
          refine (hw.mem k x).mpr ⟨k, rfl, hx, hpre, ?_⟩
          cases hkept : w.2 with
          | true => exact .inl rfl
          | false =>
            right
            rintro rfl
            rw [hown hkept] at hx
            exact nomatch hx
        · obtain ⟨t, rfl⟩ := hk.cons
          exact absurd (hstart t) hk.1

/-- What is visited are the closest keys if and only if the walk ends well. -/
theorem similar_closest_iff {H : Nat} {T : List Nat} {node : Node V} (h : IsTrie node) :
    (∀ k x, (k, x) ∈ similar (H :: T) node ↔ lookup node k = some x ∧ Closest (lookup node) (H :: T) k) ↔
      outside (H :: T) node = true ∨ EndsWell H (lookup node) (walk H T [] node) := by
  rw [similar]
  by_cases hout : outside (H :: T) node = true
  · refine iff_of_true (fun k x => ?_) (.inl hout)
    rw [if_pos hout]
    refine iff_of_false List.not_mem_nil fun hk => ?_
    obtain ⟨t, rfl⟩ := hk.2.cons
    rcases h with rfl | h
    · exact absurd hout Bool.false_ne_true
    · cases node with
      | suffix => exact absurd h Bool.false_ne_true
      | tuple =>
        rw [lookup, content_tuple_out _ _ (of_decide_eq_true hout)] at hk
        cases hk.1
  · rw [if_neg hout, or_iff_right hout]
    rcases h with rfl | h
    · refine iff_of_true (fun k x => ?_) ?_
      · rw [visited, lookup_suffix_nil]
        exact iff_of_false List.not_mem_nil fun hk => by cases hk.1
      · rw [walk]
        exact lookup_suffix_nil
    · obtain ⟨u, hw⟩ := @walk_walks V H T [] none node h
      cases node with
      | suffix => exact absurd h Bool.false_ne_true
      | tuple => exact hw.closest_iff rfl

/-- The functions of a string find the closest keys if and only if the walk along it ends well, or does not begin. -/
theorem similar_closest {node : Node V} (h : Built node) (H : Nat) (T : List Nat) :
    FindsClosest (H :: T) node ↔
      outside (H :: T) node = true ∨ EndsWell H (lookup node) (walk H T [] node) := by
  rw [← similar_closest_iff h.isTrie]
  have hgo := @goesThrough_similar V H T node h.isTrie
  constructor
  · rintro ⟨l, hl, -, hiff, -⟩
    rw [hgo.unique hl]
    exact hiff
  · intro hiff
    have hsorted := similar_sorted (H :: T) node
    have hne : (similar (H :: T) node).Pairwise fun p q => p.1 ≠ q.1 := by
      refine hsorted.imp fun {p q} hlt heq => ?_
      rw [heq] at hlt
      exact List.lt_irrefl _ hlt
    obtain ⟨node', hr, hl⟩ := erase_all h.isTrie (fun p hp => ((hiff p.1 p.2).mp hp).2.1) hne
    refine ⟨_, hgo, hsorted, hiff, node', ?_, fun k => ?_⟩
    · rw [eraseSimilar, foldSimilar, hgo.foldlSimilar]
      exact hr
    · refine ⟨fun hk => (hl k).1 ?_, fun hk => (hl k).2 fun hmem => ?_⟩
      · obtain ⟨x, hx⟩ := Option.ne_none_iff_exists'.mp hk.1
        exact List.mem_map.mpr ⟨(k, x), (hiff k x).mpr ⟨hx, hk⟩, rfl⟩
      · obtain ⟨p, hp, rfl⟩ := List.mem_map.mp hmem
        exact hk ((hiff p.1 p.2).mp hp).2

/-- The keys `a`, `ab` and `c`, and the string `abd`. -/
theorem similar_closest_above : ∃ node, (store [97, 98] 2 (single 97 (.suffix []) (some 1))).bind (store [99] 3) =
    .ok node ∧ FindsClosest [97, 98, 100] node := by
  have hw : ((store [97, 98] 2 (single 97 (.suffix []) (some 1))).bind (store [99] 3)).map
      (fun node => (lookup node [97, 98], walk 97 [98, 100] [] node)) = .ok (some 2, ([97, 98], true)) := by
    decide +kernel
  obtain ⟨node, hr, hw⟩ := map_eq_ok hw
  obtain ⟨node₁, hr₁, hr₂⟩ := bind_eq_ok hr
  have hbuilt : Built node := .store (by decide)
    (.store (by decide) (@Built.store _ _ _ [97] 1 (by decide) .new rfl) hr₁) hr₂
  obtain ⟨hl, hw⟩ := Prod.mk.inj hw
  refine ⟨node, hr, (similar_closest hbuilt 97 [98, 100]).mpr (.inr ?_)⟩
  rw [hw]
  exact ⟨nofun, .inl ⟨[97, 98], by rw [hl]; exact nofun, List.prefix_rfl⟩⟩

/-- The keys `a` and `c` are both found for the string `b`. -/
theorem not_finds_closest :
    ¬ ∀ (node : Node Nat), Built node → ∀ (H : Nat) (T : List Nat), FindsClosest (H :: T) node := by
  intro h
  have hl : ((store [99] 2 (single 97 (.suffix []) (some 1))).bind (toListSimilar [98])) =
      .ok [([97], 1), ([99], 2)] := by decide +kernel
  obtain ⟨node, hr, hl⟩ := bind_eq_ok hl
  have hbuilt : Built node := .store (by decide) (@Built.store _ _ _ [97] 1 (by decide) .new rfl) hr
  obtain ⟨l, hgo, -, hiff, -⟩ := h node hbuilt 98 []
  obtain rfl : [([97], 1), ([99], 2)] = l := Except.ok.inj (hl.symm.trans hgo.toListSimilar)
  exact absurd ((hiff [97] 1).mp (by decide)).2.2.1 (by decide)

end CloudI.Trie
