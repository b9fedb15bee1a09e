import CloudI.Trie.Node

/-!
# Operations on a trie

The functions of the trie on keys that are lists of characters. An empty trie
is the node `[]`. `store/3` and `update/4` walk the trie alike (`writeNode`)
and differ in the value they put at the key. `filter/2`, `map/2` and `foldr/3`
visit every slot; here each is one function of the slot it visits.
-/

namespace CloudI.Trie

open Node

variable {V : Type}

/-! ## Lookup -/

def findNode (H : Nat) : List Nat → Node V → Except Exn (Option V)
  | _, .suffix _ => .error .functionClause
  | [], .tuple I0 N child value =>
    if h : InRange H I0 N then
      match child (slot h) with
      | .tuple .. | .suffix [] => .ok (value (slot h))
      | .suffix (_ :: _) => .ok none
    else .ok none
  | H1 :: T1, .tuple I0 N child value =>
    if h : InRange H I0 N then
      match child (slot h) with
      | .tuple I0' N' child' value' => findNode H1 T1 (.tuple I0' N' child' value')
      | .suffix s => .ok (if s = H1 :: T1 then value (slot h) else none)
    else .ok none

/-- `find/2`, with `none` for `error`. -/
def find : List Nat → Node V → Except Exn (Option V)
  | _, .suffix [] => .ok none
  | H :: T, .tuple I0 N child value => findNode H T (.tuple I0 N child value)
  | _, _ => .error .functionClause

def isKeyNode (H : Nat) : List Nat → Node V → Except Exn Bool
  | _, .suffix _ => .error .functionClause
  | [], .tuple I0 N child value =>
    if h : InRange H I0 N then
      match child (slot h) with
      | .tuple .. | .suffix [] => .ok (value (slot h)).isSome
      | .suffix (_ :: _) => .ok false
    else .ok false
  | H1 :: T1, .tuple I0 N child value =>
    if h : InRange H I0 N then
      match child (slot h) with
      | .tuple I0' N' child' value' => isKeyNode H1 T1 (.tuple I0' N' child' value')
      | .suffix s => .ok (if s = H1 :: T1 then (value (slot h)).isSome else false)
    else .ok false

/-- `is_key/2` -/
def isKey : List Nat → Node V → Except Exn Bool
  | _, .suffix [] => .ok false
  | H :: T, .tuple I0 N child value => isKeyNode H T (.tuple I0 N child value)
  | _, _ => .error .functionClause

/-! ## Writing one key -/

/-- The slot of `H` holds a compressed end that a shorter key must open. -/
def hasEnd (H : Nat) : Node V → Bool
  | .suffix _ => false
  | .tuple I0 N child _ =>
    if h : InRange H I0 N then
      match child (slot h) with
      | .suffix (_ :: _) => true
      | _ => false
    else false

theorem hasEnd_setSlot_single {H I0 N : Nat} {child : Fin (N + 1) → Node V}
    {value : Fin (N + 1) → Option V} (h : InRange H I0 N) (BH : Nat) (c : Node V) (v w : Option V) :
    hasEnd H (setSlot I0 child value (slot h) (single BH c v) w) = false := by
  simp only [hasEnd, setSlot, dif_pos h, Function.update_self, single]

/-- `store_node/4` and `update_node/5`: `new` is the value of a key without a
slot, `put` makes the value of a slot that ends the key, and `overwrite` that
of a compressed end equal to the key. -/
def writeNode (new : V) (put overwrite : Option V → Except Exn V) (H : Nat) (T : List Nat) (node : Node V) :
    Except Exn (Node V) :=
  match node with
  | .suffix _ => .error .functionClause
  | .tuple I0 N child value =>
    if hlo : H < I0 then
      have h : InRange H H (I0 + N - H) := ⟨le_rfl, Nat.le_add_right ..⟩
      .ok (setSlot H (tupleMove (I0 - H) (I0 + N - H) child (.suffix []))
        (tupleMove (I0 - H) (I0 + N - H) value none) (slot h) (.suffix T) (some new))
    else if hhi : I0 + N < H then
      have h : InRange H I0 (H - I0) := by omega
      .ok (setSlot I0 (tupleMove 0 (H - I0) child (.suffix []))
        (tupleMove 0 (H - I0) value none) (slot h) (.suffix T) (some new))
    else
      have h : InRange H I0 N := by omega
      match T, hc : child (slot h) with
      | [], .suffix (BH :: BT) =>
        writeNode new put overwrite H []
          (setSlot I0 child value (slot h) (single BH (.suffix BT) (value (slot h))) none)
      | [], c => do return setSlot I0 child value (slot h) c (some (← put (value (slot h))))
      | H1 :: T1, .tuple I0' N' child' value' => do
        let c ← writeNode new put overwrite H1 T1 (.tuple I0' N' child' value')
        return setSlot I0 child value (slot h) c (value (slot h))
      | H1 :: T1, .suffix s =>
        if s = H1 :: T1 then do
          return setSlot I0 child value (slot h) (.suffix s) (some (← overwrite (value (slot h))))
        else
          match s with
          | [] =>
            match value (slot h) with
            | none => .ok (setSlot I0 child value (slot h) (.suffix (H1 :: T1)) (some new))
            | some v => .ok (setSlot I0 child value (slot h) (single H1 (.suffix T1) (some new)) (some v))
          | BH :: BT =>
            writeNode new put overwrite H (H1 :: T1)
              (setSlot I0 child value (slot h) (single BH (.suffix BT) (value (slot h))) none)
termination_by 2 * T.length + (hasEnd H node).toNat
decreasing_by
  · rw [hasEnd_setSlot_single]
    simp only [hasEnd, dif_pos h, hc, Bool.toNat_false, Bool.toNat_true]
    omega
  · have := Bool.toNat_lt (hasEnd H1 (.tuple I0' N' child' value'))
    simp only [List.length_cons]
    omega
  · rw [hasEnd_setSlot_single]
    simp only [hasEnd, dif_pos h, hc, Bool.toNat_false, Bool.toNat_true]
    omega

/-- `store_node/4` -/
def storeNode (H : Nat) (T : List Nat) (NewValue : V) (node : Node V) : Except Exn (Node V) :=
  writeNode NewValue (fun _ => .ok NewValue) (fun _ => .ok NewValue) H T node

/-- `store/3` -/
def store (Key : List Nat) (NewValue : V) (node : Node V) : Except Exn (Node V) :=
  match Key, node with
  | H :: T, .suffix [] => .ok (single H (.suffix T) (some NewValue))
  | H :: T, node => storeNode H T NewValue node
  | [], _ => .error .functionClause

/-- The value of a slot that ends the key of an update; `F` takes any term. -/
def updateValue (F : Option V → Except Exn V) (Initial : V) (Value : Option V) : Except Exn V :=
  if Value.isNone then .ok Initial else F Value

/-- `update_node/5`; a compressed end is updated without a check for `error`. -/
def updateNode (H : Nat) (T : List Nat) (F : Option V → Except Exn V) (Initial : V) (node : Node V) :
    Except Exn (Node V) :=
  writeNode Initial (updateValue F Initial) F H T node

/-- `update/4` -/
def update4 (Key : List Nat) (F : Option V → Except Exn V) (Initial : V) (node : Node V) :
    Except Exn (Node V) :=
  match Key, node with
  | Key, .suffix [] => store Key Initial (.suffix [])
  | H :: T, .tuple I0 N child value => updateNode H T F Initial (.tuple I0 N child value)
  | _, _ => .error .functionClause

/-- An Erlang term as `++` sees it: a proper list or another term. -/
inductive Term (α : Type) where
  | list (l : List α)
  | other (a : α)
deriving DecidableEq

/-- `OldValue ++ [Value]` -/
def Term.append {α : Type} (Value : α) : Option (Term α) → Except Exn (Term α)
  | some (.list l) => .ok (.list (l ++ [Value]))
  | _ => .error .badarg

/-- `append/3` -/
def append {α : Type} (Key : List Nat) (Value : α) (node : Node (Term α)) : Except Exn (Node (Term α)) :=
  update4 Key (Term.append Value) (.list [Value]) node

/-! ## Erasing -/

def eraseNode (H : Nat) : List Nat → Node V → Except Exn (Node V)
  | _, .suffix _ => .error .functionClause
  | T, .tuple I0 N child value =>
    if h : InRange H I0 N then
      match child (slot h), T with
      | .suffix s, T =>
        if T = s then
          if (value (slot h)).isNone then .ok (.tuple I0 N child value)
          else .ok (setSlot I0 child value (slot h) (.suffix []) none)
        else if T = [] then
          if (value (slot h)).isNone then .ok (.tuple I0 N child value)
          else .ok (setSlot I0 child value (slot h) (.suffix s) none)
        else .ok (.tuple I0 N child value)
      | .tuple I0' N' child' value', [] =>
        if (value (slot h)).isNone then .ok (.tuple I0 N child value)
        else .ok (setSlot I0 child value (slot h) (.tuple I0' N' child' value') none)
      | .tuple I0' N' child' value', H1 :: T1 => do
        let c ← eraseNode H1 T1 (.tuple I0' N' child' value')
        return setSlot I0 child value (slot h) c (value (slot h))
    else .ok (.tuple I0 N child value)

/-- `erase/2` -/
def erase : List Nat → Node V → Except Exn (Node V)
  | _, .suffix [] => .ok (.suffix [])
  | H :: T, node => eraseNode H T node
  | [], _ => .error .functionClause

/-! ## Visiting every slot -/

/-- `filter_element/5` on a slot; with a true value a tuple is kept whole. -/
def filterSlot (F : List Nat → V → Bool) (Key : List Nat) : Node V → Option V → Node V × Option V
  | .suffix s, none => (.suffix s, none)
  | .suffix s, some v => if F (Key ++ s) v then (.suffix s, some v) else (.suffix [], none)
  | .tuple I0 N child value, v =>
    let filtered := Node.tuple I0 N
      (fun j => (filterSlot F (Key ++ [I0 + j]) (child j) (value j)).1)
      (fun j => (filterSlot F (Key ++ [I0 + j]) (child j) (value j)).2)
    match v with
    | none => (filtered, none)
    | some v => if F Key v then (.tuple I0 N child value, some v) else (filtered, none)

/-- `filter/2` -/
def filter (F : List Nat → V → Bool) (node : Node V) : Node V := (filterSlot F [] node none).1

/-- `map_element/5` on a slot. -/
def mapSlot (F : List Nat → V → V) (Key : List Nat) : Node V → Option V → Node V × Option V
  | .suffix s, v => (.suffix s, v.map (F (Key ++ s)))
  | .tuple I0 N child value, v =>
    (.tuple I0 N (fun j => (mapSlot F (Key ++ [I0 + j]) (child j) (value j)).1)
      (fun j => (mapSlot F (Key ++ [I0 + j]) (child j) (value j)).2), v.map (F Key))

/-- `map/2` -/
def map (F : List Nat → V → V) (node : Node V) : Node V := (mapSlot F [] node none).1

/-- `foldr_element/6` on a slot, the last character first. -/
def foldrSlot {A : Type} (F : List Nat → V → A → A) (Key : List Nat) : Node V → Option V → A → A
  | .suffix s, v, a => v.elim a fun v => F (Key ++ s) v a
  | .tuple I0 N child value, v, a =>
    let a := (List.finRange (N + 1)).foldr
      (fun (j : Fin (N + 1)) a => foldrSlot F (Key ++ [I0 + j]) (child j) (value j) a) a
    v.elim a fun v => F Key v a

/-- `foldr/3` -/
def foldr {A : Type} (F : List Nat → V → A → A) (a : A) (node : Node V) : A := foldrSlot F [] node none a

/-- `to_list/1` -/
def toList (node : Node V) : List (List Nat × V) := foldr (fun Key Value L => (Key, Value) :: L) [] node

end CloudI.Trie
