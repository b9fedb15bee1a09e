import Mathlib.Data.Fin.Basic
import Mathlib.Logic.Function.Basic
import CloudI.Framework.Exn

/-!
# The nodes of a trie

A node is a list of characters (the compressed end of a key, and `[]` for no
node) or a tuple `{I0, I1, Data}` whose data has a slot, a node and a value,
for each character from `I0` to `I1`. `none` is the value `error`, which marks
a slot without a value.

`content` is the meaning of a slot: the value that each remaining key has
below it. The lemmas on it say what replacing a slot, growing a tuple and
opening a compressed end do to the meaning.
-/

namespace CloudI.Trie

/-- A node; the tuple `tuple I0 N child value` is `{I0, I0 + N, Data}`. -/
inductive Node (V : Type) where
  | suffix (s : List Nat)
  | tuple (I0 N : Nat) (child : Fin (N + 1) → Node V) (value : Fin (N + 1) → Option V)

variable {V : Type}

namespace Node

def isTuple : Node V → Bool
  | tuple .. => true
  | suffix _ => false

/-- The character `H` has a slot in a tuple from `I0` to `I0 + N`. -/
abbrev InRange (H I0 N : Nat) : Prop := I0 ≤ H ∧ H ≤ I0 + N

/-- The slot of `H`: `element(H - I0 + 1, Data)`. -/
def slot {H I0 N : Nat} (h : InRange H I0 N) : Fin (N + 1) := ⟨H - I0, by omega⟩

theorem slot_inj {H H' I0 N : Nat} (h : InRange H I0 N) (h' : InRange H' I0 N) :
    slot h = slot h' ↔ H = H' := by
  simp only [slot, Fin.mk.injEq]
  omega

/-- `setelement(H - I0 + 1, Data, {c, v})` -/
def setSlot {N : Nat} (I0 : Nat) (child : Fin (N + 1) → Node V) (value : Fin (N + 1) → Option V)
    (i : Fin (N + 1)) (c : Node V) (v : Option V) : Node V :=
  tuple I0 N (Function.update child i c) (Function.update value i v)

/-- `tuple_move(off + 1, M + 1, Data, d)`: a larger tuple with the data from
position `off` and `d` elsewhere. -/
def tupleMove {β : Type} {N : Nat} (off M : Nat) (data : Fin (N + 1) → β) (d : β) (j : Fin (M + 1)) : β :=
  if h : off ≤ j.val ∧ j.val - off ≤ N then data ⟨j.val - off, by omega⟩ else d

/-- The values below a slot that holds a node and a value, by remaining key. -/
def content : Node V → Option V → List Nat → Option V
  | suffix s, v, k => if k = s then v else none
  | tuple _ _ _ _, v, [] => v
  | tuple I0 N child value, _, H :: T =>
    if h : InRange H I0 N then (child (slot h)).content (value (slot h)) T else none

theorem content_suffix (s : List Nat) (v : Option V) (k : List Nat) :
    (suffix s).content v k = if k = s then v else none := rfl

theorem content_suffix_none (s : List Nat) (k : List Nat) :
    (suffix s : Node V).content none k = none := by
  rw [content_suffix, ite_self]

section Tuple

variable {I0 N : Nat} {child : Fin (N + 1) → Node V} {value : Fin (N + 1) → Option V}

@[simp] theorem content_tuple_nil (v : Option V) : (tuple I0 N child value).content v [] = v := rfl

theorem content_tuple_cons (v : Option V) {H : Nat} (T : List Nat) (h : InRange H I0 N) :
    (tuple I0 N child value).content v (H :: T) = (child (slot h)).content (value (slot h)) T :=
  dif_pos h

theorem content_tuple_out (v : Option V) {H : Nat} (T : List Nat) (h : ¬ InRange H I0 N) :
    (tuple I0 N child value).content v (H :: T) = none := dif_neg h

/-- Replacing the value of a slot that is a tuple or empty changes one key. -/
theorem content_set_value (c : Node V) (w x : Option V) (hc : c.isTuple = true ∨ c = suffix []) :
    c.content x = Function.update (c.content w) [] x := by
  funext k
  cases c with
  | tuple =>
    cases k with
    | nil => rfl
    | cons H T => rw [Function.update_of_ne (List.cons_ne_nil _ _)]; rfl
  | suffix s =>
    obtain rfl : s = [] := by simpa [isTuple] using hc
    by_cases hk : k = []
    · rw [hk, Function.update_self]; rfl
    · rw [Function.update_of_ne hk, content_suffix, content_suffix, if_neg hk, if_neg hk]

/-- A slot whose meaning changes at `T` changes the tuple at `H :: T`. -/
theorem content_setSlot {H : Nat} (h : InRange H I0 N) {c : Node V} {w x : Option V} {T : List Nat}
    (hc : c.content w = Function.update ((child (slot h)).content (value (slot h))) T x) (v : Option V) :
    (setSlot I0 child value (slot h) c w).content v =
      Function.update ((tuple I0 N child value).content v) (H :: T) x := by
  funext k
  cases k with
  | nil => rw [Function.update_of_ne (List.cons_ne_nil _ _).symm]; rfl
  | cons H' T' =>
    by_cases h' : InRange H' I0 N
    · rw [setSlot, content_tuple_cons _ _ h']
      by_cases hH : H' = H
      · subst hH
        rw [Function.update_self, Function.update_self, hc]
        by_cases hT : T' = T
        · rw [hT, Function.update_self, Function.update_self]
        · rw [Function.update_of_ne hT, Function.update_of_ne (by simpa using hT),
            content_tuple_cons _ _ h']
      · have hs : slot h' ≠ slot h := fun hs => hH ((slot_inj h' h).mp hs)
        rw [Function.update_of_ne hs, Function.update_of_ne hs, Function.update_of_ne (by simp [hH]),
          content_tuple_cons _ _ h']
    · have hH : H' ≠ H := fun hH => h' (hH ▸ h)
      rw [setSlot, content_tuple_out _ _ h', Function.update_of_ne (by simp [hH]),
        content_tuple_out _ _ h']

/-- A slot that keeps its meaning keeps the meaning of the tuple. -/
theorem content_setSlot_same {H : Nat} (h : InRange H I0 N) {c : Node V} {w : Option V}
    (hc : c.content w = (child (slot h)).content (value (slot h))) (v : Option V) :
    (setSlot I0 child value (slot h) c w).content v = (tuple I0 N child value).content v := by
  have hu := content_setSlot (T := []) h (by rw [hc, Function.update_eq_self]) v
  rw [hu, ← content_tuple_cons v [] h, Function.update_eq_self]

/-- Growing a tuple with empty slots keeps its meaning. -/
theorem content_tupleMove {H M off : Nat} (hI : H + off = I0) (hM : N + off ≤ M) (v : Option V) :
    (tuple H M (tupleMove off M child (suffix [])) (tupleMove off M value none)).content v =
      (tuple I0 N child value).content v := by
  funext k
  cases k with
  | nil => rfl
  | cons H' T =>
    by_cases h : InRange H' H M
    · rw [content_tuple_cons _ _ h]
      by_cases h' : InRange H' I0 N
      · rw [content_tuple_cons _ _ h']
        have hb : off ≤ (slot h).val ∧ (slot h).val - off ≤ N := by simp only [slot]; omega
        have hs : (⟨(slot h).val - off, by omega⟩ : Fin (N + 1)) = slot h' := by
          simp only [slot, Fin.mk.injEq]
          omega
        rw [tupleMove, dif_pos hb, tupleMove, dif_pos hb, hs]
      · have hb : ¬ (off ≤ (slot h).val ∧ (slot h).val - off ≤ N) := by simp only [slot]; omega
        rw [tupleMove, dif_neg hb, tupleMove, dif_neg hb, content_suffix_none, content_tuple_out _ _ h']
    · rw [content_tuple_out _ _ h, content_tuple_out _ _ (by omega)]

end Tuple

/-- The tuple with the one slot `{c, v}`. -/
def single (H : Nat) (c : Node V) (v : Option V) : Node V := tuple H 0 (fun _ => c) (fun _ => v)

@[simp] theorem isTuple_single (H : Nat) (c : Node V) (v : Option V) :
    (single H c v).isTuple = true := rfl

theorem content_single (H : Nat) (c : Node V) (v w : Option V) (H' : Nat) (T : List Nat) :
    (single H c v).content w (H' :: T) = if H' = H then c.content v T else none := by
  by_cases h : H' = H
  · subst h
    rw [if_pos rfl, single, content_tuple_cons _ _ (by omega : InRange H' H' 0)]
  · rw [if_neg h, single, content_tuple_out _ _ (by omega)]

/-- Opening a compressed end keeps its meaning. -/
theorem content_open (BH : Nat) (BT : List Nat) (v : Option V) :
    (single BH (suffix BT) v).content none = (suffix (BH :: BT)).content v := by
  funext k
  cases k with
  | nil => rw [content_suffix, if_neg (List.cons_ne_nil _ _).symm]; rfl
  | cons H T =>
    rw [content_single, content_suffix, content_suffix]
    by_cases h : H = BH <;> by_cases h' : T = BT <;> simp [h, h']

/-- A new instance over an empty slot holds the value of the slot and the new one. -/
theorem content_newInstance (H : Nat) (T : List Nat) (V1 V0 : Option V) :
    (single H (suffix T) V1).content V0 =
      Function.update ((suffix [] : Node V).content V0) (H :: T) V1 := by
  funext k
  cases k with
  | nil => rw [Function.update_of_ne (List.cons_ne_nil _ _).symm]; rfl
  | cons H' T' =>
    rw [content_single, content_suffix]
    by_cases h : H' = H
    · by_cases h' : T' = T
      · simp [h, h']
      · rw [if_pos h, if_neg h', Function.update_of_ne (by simp [h']), content_suffix,
          if_neg (List.cons_ne_nil _ _)]
    · rw [if_neg h, Function.update_of_ne (by simp [h]), content_suffix, if_neg (List.cons_ne_nil _ _)]

end Node

end CloudI.Trie
