import CloudI.Framework.Dict
import CloudI.Spawn.Stream

/-!
# Text pairs

`cloudi_request_info:key_value_new/1` writes keys and values as text, each
ended by a zero byte. Four parsers read the text back:

* `key_value_parse/1` of `cloudi_request_info.erl`, `textKeyValueParse` of the
  Go API and `__text_key_value_parse` of the Python API split it at the zeros
  and give each key its values in order (`keyValueParse_eq`,
  `goTextKeyValueParse_eq`, `pyTextKeyValueParse_eq`);
* `text_key_value_parse` of `cloudi.cpp` walks over it and keeps a pointer
  behind each zero. It skips the byte that the pointer is for, so an empty
  string is never ended: the next string gets no pointer (`kept`,
  `textKeyValueLoop_spec`).

`text_pairs_iff` says when all four agree with the pairs.
-/

namespace CloudI.Api

open CloudI.Spawn (ReallocPtr BoundAssertion)

/-! ## The encoding -/

/-- A key or value that a service gives: `other` is any other term, as
`cloudi_string:term_to_binary/1` writes it. -/
inductive PairTerm where
  | binary (b : List UInt8)
  | list (l : List UInt8)
  | atom (name : List UInt8)
  | other (text : List UInt8)
deriving DecidableEq, Repr

/-- `text_pairs_key_to_binary/1` -/
def textPairsKeyToBinary : PairTerm → Except Exn (List UInt8)
  | .binary K => .ok K
  | .list (H :: T) => .ok (H :: T)
  | .atom K => .ok K
  | _ => .error .functionClause

/-- `text_pairs_value_to_binary/1` -/
def textPairsValueToBinary : PairTerm → List UInt8
  | .binary V => V
  | .list V => V
  | .atom V => V
  | .other V => V

/-- `text_pairs_list_to_binary/1`: a key has at least one byte, and the first is not zero. -/
def textPairsListToBinary : List (PairTerm × PairTerm) → Except Exn (List UInt8)
  | [] => .ok []
  | (K, V) :: L => do
    match ← textPairsKeyToBinary K with
    | [] => .error .badmatch
    | TextPairs :: BinaryK =>
      if TextPairs = 0 then .error .badmatch
      else .ok ((TextPairs :: BinaryK) ++ 0 :: textPairsValueToBinary V ++ 0 :: (← textPairsListToBinary L))

/-- `key_value_new/1` of a list -/
def keyValueNew (RequestInfo : List (PairTerm × PairTerm)) : Except Exn (List UInt8) :=
  textPairsListToBinary RequestInfo

/-! ## The parsers that split -/

/-- What a key is stored with: a value, or the list of them where it has more. -/
inductive Held where
  | one (v : List UInt8)
  | many (l : List (List UInt8))
deriving DecidableEq, Repr

/-- `text_pairs_binary_to_dict_element/2` -/
def textPairsBinaryToDictElement : List (List UInt8) → Dict (List UInt8) Held →
    Except Exn (Dict (List UInt8) Held)
  | [[]], Lookup => .ok Lookup
  | K :: V :: L, Lookup =>
    match Lookup K with
    | some (.many (X :: ListV)) =>
      textPairsBinaryToDictElement L (Lookup.store K (.many (X :: ListV ++ [V])))
    | some (.one PreviousV) => textPairsBinaryToDictElement L (Lookup.store K (.many [PreviousV, V]))
    | none => textPairsBinaryToDictElement L (Lookup.store K (.one V))
    | some (.many []) => .error .caseClause
  | _, _ => .error .functionClause

/-- `key_value_parse/1` of a binary -/
def keyValueParse (RequestInfo : List UInt8) : Except Exn (Dict (List UInt8) Held) :=
  textPairsBinaryToDictElement (RequestInfo.splitOn 0) Dict.new

/-- The loop of `textKeyValueParse` of the Go API: two elements are left while `i < len(data)-1`. -/
def goTextKeyValueLoop : List (List UInt8) → Dict (List UInt8) (List (List UInt8)) →
    Dict (List UInt8) (List (List UInt8))
  | key :: value :: data, result =>
    match result key with
    | none => goTextKeyValueLoop data (result.store key [value])
    | some current => goTextKeyValueLoop data (result.store key (current ++ [value]))
  | _, result => result

/-- `textKeyValueParse` of the Go API -/
def goTextKeyValueParse (text : List UInt8) : Dict (List UInt8) (List (List UInt8)) :=
  goTextKeyValueLoop (text.splitOn 0) Dict.new

/-- The loop of `__text_key_value_parse` of the Python API -/
def pyTextKeyValueLoop : List (List UInt8) → Dict (List UInt8) Held → Dict (List UInt8) Held
  | key :: value :: data, result =>
    match result key with
    | none => pyTextKeyValueLoop data (result.store key (.one value))
    | some (.many current) => pyTextKeyValueLoop data (result.store key (.many (current ++ [value])))
    | some (.one current) => pyTextKeyValueLoop data (result.store key (.many [current, value]))
  | _, result => result

/-- `__text_key_value_parse` of the Python API -/
def pyTextKeyValueParse (text : List UInt8) : Dict (List UInt8) Held :=
  pyTextKeyValueLoop (text.splitOn 0) Dict.new

/-! ## The parser that walks -/

/-- What the C function must not do: read outside the text, or write outside the array. -/
inductive Fault where
  | text (text_i : Nat)
  | result (a : BoundAssertion)
deriving DecidableEq, Repr

/-- `result[i] = v` -/
def setResult (result : ReallocPtr (Option Nat)) (i : Nat) (v : Option Nat) :
    Except Fault (ReallocPtr (Option Nat)) :=
  if i < result.m_size then .ok { result with m_p := Function.update result.m_p i v }
  else .error (.result ⟨i, result.m_size⟩)

/-- The loop of `text_key_value_parse`. A pointer into the text is its offset, and what `reserve`
returns is ignored. -/
def textKeyValueLoop (text : List UInt8) (text_i i : Nat) (result : ReallocPtr (Option Nat)) :
    Except Fault (Nat × ReallocPtr (Option Nat)) :=
  if _h : text_i < text.length - 1 then
    match text[text_i]? with
    | none => .error (.text text_i)
    | some b =>
      if b = 0 then do
        -- `&p[++text_i]`, and the loop increments `text_i` once more
        let result ← setResult result i (some (text_i + 1))
        textKeyValueLoop text (text_i + 2) (i + 1) ((result.reserve (i + 2) true).getD result)
      else textKeyValueLoop text (text_i + 1) i result
  else .ok (i, result)
termination_by text.length - text_i

/-- The size of a pointer: `greater_pow2` counts bytes, and its result is the number of elements. -/
def sizeofPtr : Nat := 8

/-- `text_key_value_parse` of the C API, on the memory `m` that `malloc` returns. -/
def cTextKeyValueParse (m : Nat → Option Nat) (text : List UInt8) : Except Fault (ReallocPtr (Option Nat)) := do
  let result ← setResult (ReallocPtr.new (16 * sizeofPtr) (8192 * sizeofPtr) m) 0 (some 0)
  let walked ← (if 1 < text.length then textKeyValueLoop text 1 1 result else .ok (1, result))
  setResult walked.2 walked.1 none

variable {r : ReallocPtr (Option Nat)}

theorem setResult_eq {i : Nat} (v : Option Nat) (h : i < r.m_size) :
    setResult r i v = .ok { r with m_p := Function.update r.m_p i v } :=
  if_pos h

/-- The array as it is allocated. -/
theorem new_size (m : Nat → Option Nat) :
    (ReallocPtr.new (16 * sizeofPtr) (8192 * sizeofPtr) m).m_size = 128 ∧
      (ReallocPtr.new (16 * sizeofPtr) (8192 * sizeofPtr) m).m_maxSize = 8192 * sizeofPtr :=
  ⟨show Spawn.greaterPow2 (16 * sizeofPtr) = 128 by decide,
    show Spawn.greaterPow2 (8192 * sizeofPtr) = 8192 * sizeofPtr by decide⟩

/-- The string that a pointer into the text points to: it ends before the first zero. -/
def cString (text : List UInt8) (offset : Nat) : Option (List UInt8) :=
  if 0 ∈ text.drop offset then some ((text.drop offset).takeWhile (· ≠ 0)) else none

/-- The strings of the array are those of the list, and a null pointer follows. -/
structure CStrings (text : List UInt8) (result : ReallocPtr (Option Nat)) (l : List (List UInt8)) : Prop where
  room : l.length < result.m_size
  strings : ∀ k (h : k < l.length), ∃ offset, result.m_p k = some offset ∧ cString text offset = some l[k]
  null : result.m_p l.length = none

/-! ## Pairs and their text -/

/-- A key that is not empty and a value, both without a zero byte. -/
structure TextPair (p : List UInt8 × List UInt8) : Prop where
  key_ne_nil : p.1 ≠ []
  key : 0 ∉ p.1
  value : 0 ∉ p.2

/-- The terms stand for the pairs of binaries. -/
def Stands (L : List (PairTerm × PairTerm)) (l : List (List UInt8 × List UInt8)) : Prop :=
  List.Forall₂ (fun P p => textPairsKeyToBinary P.1 = .ok p.1 ∧ textPairsValueToBinary P.2 = p.2) L l

/-- Each string with the zero byte that ends it. -/
def textOf (strings : List (List UInt8)) : List UInt8 := strings.flatMap (· ++ [0])

/-- The keys and values of the pairs, in order. -/
def stringsOf (l : List (List UInt8 × List UInt8)) : List (List UInt8) := l.flatMap fun p => [p.1, p.2]

/-- The values of a key, in order. -/
def valuesOf (l : List (List UInt8 × List UInt8)) (k : List UInt8) : List (List UInt8) :=
  (l.filter (·.1 = k)).map Prod.snd

@[simp] theorem textOf_nil : textOf [] = [] := rfl

@[simp] theorem textOf_cons (s : List UInt8) (strings : List (List UInt8)) :
    textOf (s :: strings) = s ++ 0 :: textOf strings := by
  simp [textOf]

@[simp] theorem stringsOf_nil : stringsOf [] = [] := rfl

@[simp] theorem stringsOf_cons (p : List UInt8 × List UInt8) (l : List (List UInt8 × List UInt8)) :
    stringsOf (p :: l) = p.1 :: p.2 :: stringsOf l := by
  simp [stringsOf]

theorem length_stringsOf (l : List (List UInt8 × List UInt8)) : (stringsOf l).length = 2 * l.length := by
  induction l with
  | nil => rfl
  | cons p l ih =>
    rw [stringsOf_cons, List.length_cons, List.length_cons, List.length_cons, ih]
    omega

theorem valuesOf_cons (p : List UInt8 × List UInt8) (l : List (List UInt8 × List UInt8)) (k : List UInt8) :
    valuesOf (p :: l) k = (if p.1 = k then [p.2] else []) ++ valuesOf l k := by
  by_cases h : p.1 = k
  · simp [valuesOf, h]
  · simp [valuesOf, h]

/-- No string of the pairs has a zero byte. -/
theorem zero_notMem {l : List (List UInt8 × List UInt8)} (h : ∀ p ∈ l, TextPair p) : ∀ s ∈ stringsOf l, 0 ∉ s := by
  intro s hs
  obtain ⟨p, hp, hsp⟩ := List.mem_flatMap.mp hs
  rcases List.mem_pair.mp hsp with rfl | rfl
  · exact (h p hp).key
  · exact (h p hp).value

/-- What `key_value_new/1` writes. -/
theorem keyValueNew_eq {L : List (PairTerm × PairTerm)} {l : List (List UInt8 × List UInt8)} (hL : Stands L l)
    (h : ∀ p ∈ l, TextPair p) : keyValueNew L = .ok (textOf (stringsOf l)) := by
  induction hL with
  | nil => rfl
  | @cons P p L l hP _ ih =>
    have hp := h p List.mem_cons_self
    have hrest : textPairsListToBinary L = .ok (textOf (stringsOf l)) := ih fun q hq => h q (List.mem_cons_of_mem _ hq)
    obtain ⟨b, K, hk⟩ := List.exists_cons_of_ne_nil hp.key_ne_nil
    have hb : b ≠ 0 := fun h0 => hp.key (by rw [hk, h0]; exact List.mem_cons_self)
    show textPairsListToBinary ((P.1, P.2) :: L) = _
    rw [textPairsListToBinary, bind_ok (hP.1.trans (congrArg _ hk))]
    simp only [if_neg hb, hrest]
    show Except.ok _ = Except.ok _
    simp [hP.2, hk]

/-- Splitting gives the strings back, and an empty one at the end. -/
theorem splitOn_textOf {strings : List (List UInt8)} (h : ∀ s ∈ strings, 0 ∉ s) :
    (textOf strings).splitOn 0 = strings ++ [[]] := by
  induction strings with
  | nil => rfl
  | cons s strings ih =>
    have hs : ∀ x ∈ s, (x == 0) = false := fun x hx => by
      simpa using fun h0 : x = 0 => h s List.mem_cons_self (h0 ▸ hx)
    rw [textOf_cons, List.splitOn_eq_splitOnP, List.splitOnP_append_cons_of_forall_mem hs 0 rfl,
      ← List.splitOn_eq_splitOnP, ih fun t ht => h t (List.mem_cons_of_mem _ ht), List.cons_append]

/-! ## The dictionaries -/

/-- What a key with these values is stored with. -/
def heldAs : List (List UInt8) → Option Held
  | [] => none
  | [v] => some (.one v)
  | v :: w :: l => some (.many (v :: w :: l))

/-- What a key with these values is stored with in the Go map. -/
def goHeldAs : List (List UInt8) → Option (List (List UInt8))
  | [] => none
  | v :: l => some (v :: l)

/-- A value more for the key, in a dictionary that is given by the values of each key. -/
theorem store_values {V : Type} {as : List (List UInt8) → Option V} {f : List UInt8 → List (List UInt8)}
    (p : List UInt8 × List UInt8) {w : V} (h : as (f p.1 ++ [p.2]) = some w) :
    Dict.store p.1 w (fun k => as (f k)) = fun k => as (f k ++ if p.1 = k then [p.2] else []) := by
  funext k
  by_cases hk : k = p.1
  · rw [hk, Dict.store_self, if_pos rfl, h]
  · rw [Dict.store_of_ne hk, if_neg (Ne.symm hk), List.append_nil]

/-- A loop that takes a key and its value at a time, with a dictionary that is given by the values of each key so
far: it gives each key its values. -/
theorem loop_values {V R : Type} {as : List (List UInt8) → Option V}
    {loop : List (List UInt8) → Dict (List UInt8) V → R} {result : Dict (List UInt8) V → R}
    (hend : ∀ d, loop [[]] d = result d)
    (hpair : ∀ key value data (f : List UInt8 → List (List UInt8)), loop (key :: value :: data) (fun k => as (f k)) =
      loop data fun k => as (f k ++ if key = k then [value] else []))
    (l : List (List UInt8 × List UInt8)) (f : List UInt8 → List (List UInt8)) :
    loop (stringsOf l ++ [[]]) (fun k => as (f k)) = result fun k => as (f k ++ valuesOf l k) := by
  induction l generalizing f with
  | nil =>
    simp only [stringsOf_nil, List.nil_append, valuesOf, List.filter_nil, List.map_nil, List.append_nil]
    exact hend _
  | cons p l ih =>
    simp only [stringsOf_cons, List.cons_append, valuesOf_cons, ← List.append_assoc]
    rw [hpair, ih]

/-- Erlang stores one value more for the key. -/
theorem textPairsBinaryToDictElement_pair (key value : List UInt8) (data : List (List UInt8))
    (f : List UInt8 → List (List UInt8)) :
    textPairsBinaryToDictElement (key :: value :: data) (fun k => heldAs (f k)) =
      textPairsBinaryToDictElement data fun k => heldAs (f k ++ if key = k then [value] else []) := by
  have hstore {w : Held} := @store_values _ heldAs f (key, value) w
  match hf : f key with
  | [] => rw [← hstore (congrArg heldAs (congrArg (· ++ [value]) hf)), textPairsBinaryToDictElement, hf]; rfl
  | [v] => rw [← hstore (congrArg heldAs (congrArg (· ++ [value]) hf)), textPairsBinaryToDictElement, hf]; rfl
  | v :: w :: vs => rw [← hstore (congrArg heldAs (congrArg (· ++ [value]) hf)), textPairsBinaryToDictElement, hf]; rfl

/-- Python does. -/
theorem pyTextKeyValueLoop_pair (key value : List UInt8) (data : List (List UInt8))
    (f : List UInt8 → List (List UInt8)) :
    pyTextKeyValueLoop (key :: value :: data) (fun k => heldAs (f k)) =
      pyTextKeyValueLoop data fun k => heldAs (f k ++ if key = k then [value] else []) := by
  have hstore {w : Held} := @store_values _ heldAs f (key, value) w
  match hf : f key with
  | [] => rw [← hstore (congrArg heldAs (congrArg (· ++ [value]) hf)), pyTextKeyValueLoop, hf]; rfl
  | [v] => rw [← hstore (congrArg heldAs (congrArg (· ++ [value]) hf)), pyTextKeyValueLoop, hf]; rfl
  | v :: w :: vs => rw [← hstore (congrArg heldAs (congrArg (· ++ [value]) hf)), pyTextKeyValueLoop, hf]; rfl

/-- Go does. -/
theorem goTextKeyValueLoop_pair (key value : List UInt8) (data : List (List UInt8))
    (f : List UInt8 → List (List UInt8)) :
    goTextKeyValueLoop (key :: value :: data) (fun k => goHeldAs (f k)) =
      goTextKeyValueLoop data fun k => goHeldAs (f k ++ if key = k then [value] else []) := by
  have hstore {w : List (List UInt8)} := @store_values _ goHeldAs f (key, value) w
  match hf : f key with
  | [] => rw [← hstore (congrArg goHeldAs (congrArg (· ++ [value]) hf)), goTextKeyValueLoop, hf]; rfl
  | v :: vs => rw [← hstore (congrArg goHeldAs (congrArg (· ++ [value]) hf)), goTextKeyValueLoop, hf]; rfl

variable {l : List (List UInt8 × List UInt8)}

/-- Erlang gives each key its values. -/
theorem keyValueParse_eq (h : ∀ p ∈ l, TextPair p) :
    keyValueParse (textOf (stringsOf l)) = .ok fun k => heldAs (valuesOf l k) := by
  rw [keyValueParse, splitOn_textOf (zero_notMem h)]
  exact loop_values (fun _ => rfl) textPairsBinaryToDictElement_pair l fun _ => []

/-- Go gives each key its values. -/
theorem goTextKeyValueParse_eq (h : ∀ p ∈ l, TextPair p) :
    goTextKeyValueParse (textOf (stringsOf l)) = fun k => goHeldAs (valuesOf l k) := by
  rw [goTextKeyValueParse, splitOn_textOf (zero_notMem h)]
  exact loop_values (fun _ => rfl) goTextKeyValueLoop_pair l fun _ => []

/-- Python gives each key its values. -/
theorem pyTextKeyValueParse_eq (h : ∀ p ∈ l, TextPair p) :
    pyTextKeyValueParse (textOf (stringsOf l)) = fun k => heldAs (valuesOf l k) := by
  rw [pyTextKeyValueParse, splitOn_textOf (zero_notMem h)]
  exact loop_values (fun _ => rfl) pyTextKeyValueLoop_pair l fun _ => []

/-! ## The walk -/

/-- The strings that the walk keeps a pointer to, behind the first one. After an empty string it
goes on within the next one, which gets none. -/
def kept : List (List UInt8) → List (List UInt8)
  | [] => []
  | (b :: s) :: strings => (b :: s) :: kept strings
  | [[]] => [[]]
  | [] :: _ :: strings => [] :: kept strings

theorem length_kept_le (strings : List (List UInt8)) : (kept strings).length ≤ strings.length := by
  fun_induction kept with
  | case1 => exact Nat.le_refl _
  | case2 b s strings ih => simpa using ih
  | case3 => exact Nat.le_refl _
  | case4 s strings ih =>
    simp only [List.length_cons]
    omega

/-- All strings are kept if only the last value can be empty. -/
theorem kept_eq_iff {k v : List UInt8} (h : ∀ p ∈ l, p.1 ≠ []) :
    kept (v :: stringsOf l) = v :: stringsOf l ↔ ∀ p ∈ ((k, v) :: l).dropLast, p.2 ≠ [] := by
  induction l generalizing k v with
  | nil =>
    cases v with
    | nil => simp [kept]
    | cons b s => simp [kept]
  | cons q l ih =>
    obtain ⟨c, t, hq⟩ := List.exists_cons_of_ne_nil (h q List.mem_cons_self)
    have hrest := ih (k := q.1) (v := q.2) fun p hp => h p (List.mem_cons_of_mem _ hp)
    cases v with
    | nil =>
      refine ⟨fun he => ?_, fun hv => absurd rfl (hv (k, []) (by simp))⟩
      -- the key behind the empty value has no pointer, so strings are missing
      have hlen := congrArg List.length he
      have hle := length_kept_le (q.2 :: stringsOf l)
      simp only [stringsOf_cons, kept, List.length_cons] at hlen hle
      omega
    | cons b s =>
      rw [stringsOf_cons, kept, hq, kept, List.dropLast_cons_of_ne_nil (List.cons_ne_nil _ _)]
      simp only [List.cons.injEq, true_and, List.forall_mem_cons, hrest]
      simp

/-- What the walk leaves in the array from index `i` on. -/
structure Keeps (text : List UInt8) (i : Nat) (r r' : ReallocPtr (Option Nat)) (strings : List (List UInt8)) :
    Prop where
  room : i + strings.length < r'.m_size
  before : ∀ k < i, r'.m_p k = r.m_p k
  strings : ∀ k (h : k < strings.length), ∃ offset, r'.m_p (i + k) = some offset ∧ cString text offset = some strings[k]

theorem Keeps.cons {text s : List UInt8} {i offset : Nat} {r r₁ r' : ReallocPtr (Option Nat)}
    {strings : List (List UInt8)} (h : Keeps text (i + 1) r₁ r' strings)
    (hr : r₁.m_p = Function.update r.m_p i (some offset)) (hs : cString text offset = some s) :
    Keeps text i r r' (s :: strings) := by
  refine ⟨?_, fun k hk => ?_, fun k hk => ?_⟩
  · have hroom := h.room
    simp only [List.length_cons]
    omega
  · rw [h.before k (by omega), hr, Function.update_of_ne (by omega)]
  · cases k with
    | zero => exact ⟨offset, by rw [Nat.add_zero, h.before i (by omega), hr, Function.update_self], hs⟩
    | succ k =>
      obtain ⟨o, ho, hc⟩ := h.strings k (by simpa using hk)
      exact ⟨o, by rw [show i + (k + 1) = i + 1 + k by omega, ho], hc⟩

/-- The string that starts behind `a`. -/
theorem cString_eq {text s : List UInt8} {offset : Nat} (a b : List UInt8) (h : 0 ∉ s)
    (ht : text = a ++ (s ++ 0 :: b)) (ho : offset = a.length) : cString text offset = some s := by
  have hs : ∀ x ∈ s, decide (x ≠ 0) = true := fun x hx => decide_eq_true fun h0 => h (h0 ▸ hx)
  rw [cString, ht, ho, List.drop_left, if_pos (by simp), List.takeWhile_append_of_pos hs,
    List.takeWhile_cons_of_neg (by simp), List.append_nil]

/-- Room for one more pointer and the null pointer. -/
theorem reserve_spec {n : Nat} (h : n ≤ r.m_maxSize) :
    n < ((r.reserve n true).getD r).m_size ∧ ((r.reserve n true).getD r).m_maxSize = r.m_maxSize ∧
      ((r.reserve n true).getD r).m_p = r.m_p := by
  unfold ReallocPtr.reserve
  split
  · exact ⟨by assumption, rfl, rfl⟩
  · rw [if_neg (by omega), if_pos rfl]
    exact ⟨Spawn.lt_reserveSize _ _ _, rfl, rfl⟩

/-- No zero, no pointer. -/
theorem textKeyValueLoop_skip {text pre x rest : List UInt8} (i : Nat) (r : ReallocPtr (Option Nat)) (hx : 0 ∉ x)
    (ht : text = pre ++ (x ++ 0 :: rest)) :
    textKeyValueLoop text pre.length i r = textKeyValueLoop text (pre.length + x.length) i r := by
  induction x generalizing pre with
  | nil => rfl
  | cons b x ih =>
    have hget : text[pre.length]? = some b := by rw [ht]; simp
    have hlt : pre.length < text.length - 1 := by
      rw [ht]
      simp only [List.length_append, List.length_cons]
      omega
    have hb : b ≠ 0 := fun h0 => hx (h0 ▸ List.mem_cons_self)
    have ht' : text = pre ++ [b] ++ (x ++ 0 :: rest) := by simpa using ht
    have hrest := ih (fun h => hx (List.mem_cons_of_mem _ h)) ht'
    rw [textKeyValueLoop, dif_pos hlt]
    simp only [hget, if_neg hb]
    simp only [List.length_append, List.length_cons, List.length_nil] at hrest
    rw [hrest, List.length_cons, show pre.length + (0 + 1) + x.length = pre.length + (x.length + 1) by omega]

/-- A zero that text follows gives a pointer, and the byte behind it is not looked at. -/
theorem textKeyValueLoop_zero {text pre x rest : List UInt8} {i : Nat} (hx : 0 ∉ x)
    (ht : text = pre ++ (x ++ 0 :: rest)) (hrest : rest ≠ []) (hi : i < r.m_size) (hmax : i + 2 ≤ r.m_maxSize) :
    ∃ r₁, textKeyValueLoop text pre.length i r = textKeyValueLoop text (pre.length + x.length + 2) (i + 1) r₁ ∧
      i + 1 < r₁.m_size ∧ r₁.m_maxSize = r.m_maxSize ∧
      r₁.m_p = Function.update r.m_p i (some (pre.length + x.length + 1)) := by
  have hget : text[pre.length + x.length]? = some 0 := by
    rw [ht, ← List.append_assoc, ← List.length_append]
    simp
  have hlt : pre.length + x.length < text.length - 1 := by
    have := List.length_pos_iff.mpr hrest
    rw [ht]
    simp only [List.length_append, List.length_cons]
    omega
  obtain ⟨hsize, hmax', hp⟩ := reserve_spec (n := i + 2)
    (r := { r with m_p := Function.update r.m_p i (some (pre.length + x.length + 1)) }) hmax
  refine ⟨_, ?_, by omega, hmax', hp⟩
  rw [textKeyValueLoop_skip i r hx ht, textKeyValueLoop, dif_pos hlt]
  simp only [hget, if_pos]
  rw [bind_ok (setResult_eq _ hi)]

theorem textKeyValueLoop_end {text : List UInt8} {text_i : Nat} (h : text.length ≤ text_i + 1) (i : Nat)
    (r : ReallocPtr (Option Nat)) : textKeyValueLoop text text_i i r = .ok (i, r) := by
  rw [textKeyValueLoop, dif_neg (by omega)]

/-- The walk from within a string to the end of the text. -/
theorem textKeyValueLoop_spec {text pre x : List UInt8} {strings : List (List UInt8)} {i : Nat}
    (hx : 0 ∉ x) (hs : ∀ s ∈ strings, 0 ∉ s) (ht : text = pre ++ (x ++ 0 :: textOf strings)) (hi : i < r.m_size)
    (hmax : i + strings.length + 1 ≤ r.m_maxSize) :
    ∃ r', textKeyValueLoop text pre.length i r = .ok (i + (kept strings).length, r') ∧
      Keeps text i r r' (kept strings) := by
  have hlast : ∀ (r : ReallocPtr (Option Nat)) (i : Nat), i < r.m_size → Keeps text i r r [] :=
    fun r i hi => ⟨hi, fun _ _ => rfl, fun _ h => nomatch h⟩
  fun_induction kept strings generalizing pre x i r with
  | case1 =>
    refine ⟨r, ?_, hlast r i hi⟩
    rw [textKeyValueLoop_skip i r hx ht, textKeyValueLoop_end (by rw [ht]; simp; omega)]
    rfl
  | case2 b s strings ih =>
    have hb : 0 ∉ b :: s := hs _ List.mem_cons_self
    obtain ⟨r₁, hloop, hi₁, hm₁, hp₁⟩ := textKeyValueLoop_zero hx ht (by simp) hi (by simp at hmax; omega)
    have ht' : text = pre ++ x ++ [0, b] ++ (s ++ 0 :: textOf strings) := by rw [ht]; simp
    obtain ⟨r', hr', hkeeps⟩ := ih (fun h => hb (List.mem_cons_of_mem _ h))
      (fun t h => hs t (List.mem_cons_of_mem _ h)) ht' hi₁ (by simp at hmax; omega)
    refine ⟨r', ?_, hkeeps.cons hp₁ ?_⟩
    · rw [hloop]
      simpa [Nat.add_assoc, Nat.add_comm 1] using hr'
    · exact cString_eq (pre ++ x ++ [0]) (textOf strings) hb (by rw [ht]; simp) (by simp; omega)
  | case3 =>
    obtain ⟨r₁, hloop, hi₁, hm₁, hp₁⟩ := textKeyValueLoop_zero hx ht (by simp) hi (by simp at hmax; omega)
    refine ⟨r₁, ?_, (hlast r₁ (i + 1) hi₁).cons hp₁ ?_⟩
    · rw [hloop, textKeyValueLoop_end (by rw [ht]; simp; omega)]
      rfl
    · exact cString_eq (pre ++ x ++ [0]) [] List.not_mem_nil (by rw [ht]; simp) (by simp; omega)
  | case4 s strings ih =>
    obtain ⟨r₁, hloop, hi₁, hm₁, hp₁⟩ := textKeyValueLoop_zero hx ht (by simp) hi (by simp at hmax; omega)
    have ht' : text = pre ++ x ++ [0, 0] ++ (s ++ 0 :: textOf strings) := by rw [ht]; simp
    obtain ⟨r', hr', hkeeps⟩ := ih (hs s (by simp)) (fun t h => hs t (by simp [h])) ht' hi₁ (by simp at hmax; omega)
    refine ⟨r', ?_, hkeeps.cons hp₁ ?_⟩
    · rw [hloop]
      simpa [Nat.add_assoc, Nat.add_comm 1] using hr'
    · exact cString_eq (pre ++ x ++ [0]) (textOf (s :: strings)) List.not_mem_nil (by rw [ht]; simp) (by simp; omega)

/-- The C function on the text of pairs. -/
theorem cTextKeyValueParse_eq {p : List UInt8 × List UInt8} (m : Nat → Option Nat) (h : ∀ q ∈ p :: l, TextPair q)
    (hfits : 2 * (p :: l).length + 1 ≤ 8192 * sizeofPtr) :
    ∃ r, cTextKeyValueParse m (textOf (stringsOf (p :: l))) = .ok r ∧
      CStrings (textOf (stringsOf (p :: l))) r (p.1 :: kept (p.2 :: stringsOf l)) := by
  obtain ⟨b, s, hk⟩ := List.exists_cons_of_ne_nil (h p List.mem_cons_self).key_ne_nil
  have hzero := zero_notMem h
  rw [stringsOf_cons, hk] at hzero ⊢
  have hb : 0 ∉ b :: s := hzero _ List.mem_cons_self
  have hlen := length_stringsOf l
  set r : ReallocPtr (Option Nat) :=
    { ReallocPtr.new (16 * sizeofPtr) (8192 * sizeofPtr) m with m_p := Function.update m 0 (some 0) } with hr
  have htext : textOf ((b :: s) :: p.2 :: stringsOf l) = [b] ++ (s ++ 0 :: textOf (p.2 :: stringsOf l)) := by simp
  have hlong : 1 < (textOf ((b :: s) :: p.2 :: stringsOf l)).length := by
    simp only [htext, List.length_append, List.length_cons, List.length_nil]
    omega
  have hone : 1 < r.m_size := show 1 < (ReallocPtr.new _ _ m).m_size by rw [(new_size m).1]; decide
  obtain ⟨r', hloop, hkeeps⟩ := textKeyValueLoop_spec (fun hm => hb (List.mem_cons_of_mem _ hm))
    (fun t ht => hzero t (List.mem_cons_of_mem _ ht)) htext hone
    (show 1 + (p.2 :: stringsOf l).length + 1 ≤ (ReallocPtr.new _ _ m).m_maxSize by
      rw [(new_size m).2, List.length_cons, hlen]
      rw [List.length_cons] at hfits
      omega)
  have hroom := hkeeps.room
  refine ⟨{ r' with m_p := Function.update r'.m_p (1 + (kept (p.2 :: stringsOf l)).length) none }, ?_, ?_, ?_, ?_⟩
  · rw [cTextKeyValueParse, bind_ok (setResult_eq _ (by rw [(new_size m).1]; decide)),
      if_pos hlong]
    exact (bind_ok hloop _).trans (setResult_eq _ hroom)
  · simpa [Nat.add_comm] using hroom
  · intro k hlt
    have hne : k ≠ 1 + (kept (p.2 :: stringsOf l)).length := by
      simp only [List.length_cons] at hlt
      omega
    have hbelow : Function.update r'.m_p (1 + (kept (p.2 :: stringsOf l)).length) none k = r'.m_p k :=
      Function.update_of_ne hne _ _
    show ∃ offset, Function.update r'.m_p (1 + (kept (p.2 :: stringsOf l)).length) none k = some offset ∧ _
    rw [hbelow]
    cases k with
    | zero =>
      refine ⟨0, (hkeeps.before 0 (by omega)).trans ?_, cString_eq [] _ hb (textOf_cons _ _) rfl⟩
      exact Function.update_self (0 : Nat) (some 0 : Option Nat) m
    | succ k =>
      obtain ⟨o, ho, hc⟩ := hkeeps.strings k (by simpa using hlt)
      exact ⟨o, by rw [Nat.add_comm k 1, ho], hc⟩
  · rw [List.length_cons, Nat.add_comm]
    exact Function.update_self _ _ _

/-- The array determines its strings. -/
theorem CStrings.unique {text : List UInt8} {a b : List (List UInt8)}
    (ha : CStrings text r a) (hb : CStrings text r b) : a = b := by
  have hle : ∀ {a b : List (List UInt8)}, CStrings text r a → CStrings text r b → a.length ≤ b.length := by
    intro a b ha hb
    refine Nat.le_of_not_lt fun hlt => ?_
    obtain ⟨_, ho, _⟩ := ha.strings _ hlt
    cases hb.null.symm.trans ho
  refine List.ext_getElem (Nat.le_antisymm (hle ha hb) (hle hb ha)) fun k hka hkb => ?_
  obtain ⟨o, ho, hca⟩ := ha.strings k hka
  obtain ⟨o', ho', hcb⟩ := hb.strings k hkb
  cases ho.symm.trans ho'
  exact Option.some.inj (hca.symm.trans hcb)

/-! ## The four parsers -/

/-- All parsers give back the pairs, the C function for as many as fit its array. -/
structure ParsePairs (m : Nat → Option Nat) (text : List UInt8) (l : List (List UInt8 × List UInt8)) : Prop where
  erlang : keyValueParse text = .ok fun k => heldAs (valuesOf l k)
  go : goTextKeyValueParse text = fun k => goHeldAs (valuesOf l k)
  python : pyTextKeyValueParse text = fun k => heldAs (valuesOf l k)
  c : 2 * l.length + 1 ≤ 8192 * sizeofPtr → ∃ r, cTextKeyValueParse m text = .ok r ∧ CStrings text r (stringsOf l)

/-- The empty text gives an array with one string. -/
theorem cTextKeyValueParse_nil (m : Nat → Option Nat) (r : ReallocPtr (Option Nat))
    (h : cTextKeyValueParse m [] = .ok r) : r.m_p 0 = some 0 := by
  have hone : 1 < (ReallocPtr.new (16 * sizeofPtr) (8192 * sizeofPtr) m).m_size := by
    rw [(new_size m).1]
    decide
  rw [cTextKeyValueParse, bind_ok (setResult_eq _ (Nat.lt_of_succ_lt hone)), if_neg (by decide),
    bind_ok rfl, setResult_eq none (by exact hone)] at h
  cases h
  rfl

/-- The pairs are given back exactly when there are pairs and no value but the last is empty, or they do
not fit the array. -/
theorem text_pairs_iff (m : Nat → Option Nat) {L : List (PairTerm × PairTerm)}
    {l : List (List UInt8 × List UInt8)} (hL : Stands L l) (h : ∀ p ∈ l, TextPair p) :
    ∃ text, keyValueNew L = .ok text ∧ (ParsePairs m text l ↔
      (2 * l.length + 1 ≤ 8192 * sizeofPtr → l ≠ [] ∧ ∀ p ∈ l.dropLast, p.2 ≠ [])) := by
  refine ⟨_, keyValueNew_eq hL h, fun hp hfits => ?_, fun hc => ⟨keyValueParse_eq h, goTextKeyValueParse_eq h,
    pyTextKeyValueParse_eq h, fun hfits => ?_⟩⟩
  · obtain ⟨r, hr, hstrings⟩ := hp.c hfits
    cases l with
    | nil => cases hstrings.null.symm.trans (cTextKeyValueParse_nil m r hr)
    | cons p l =>
      obtain ⟨r', hr', hkept⟩ := cTextKeyValueParse_eq m h hfits
      cases hr.symm.trans hr'
      have heq := hkept.unique hstrings
      rw [stringsOf_cons, List.cons.injEq] at heq
      exact ⟨List.cons_ne_nil _ _,
        (kept_eq_iff fun q hq => (h q (List.mem_cons_of_mem _ hq)).key_ne_nil).mp heq.2⟩
  · obtain ⟨hne, hvalues⟩ := hc hfits
    cases l with
    | nil => exact absurd rfl hne
    | cons p l =>
      obtain ⟨r, hr, hkept⟩ := cTextKeyValueParse_eq m h hfits
      rw [(kept_eq_iff (k := p.1) fun q hq => (h q (List.mem_cons_of_mem _ hq)).key_ne_nil).mpr hvalues] at hkept
      exact ⟨r, hr, by rwa [stringsOf_cons]⟩

/-- Two pairs with a value each. -/
theorem text_pairs_iff_two : ∃ text,
    keyValueNew [(.binary [97], .binary [98]), (.atom [99], .list [])] = .ok text ∧
      (ParsePairs (fun _ => none) text [([97], [98]), ([99], [])] ↔
        (2 * 2 + 1 ≤ 8192 * sizeofPtr → ([([97], [98]), ([99], [])] : List (List UInt8 × List UInt8)) ≠ [] ∧
          ∀ p ∈ [([97], [98])], (p : List UInt8 × List UInt8).2 ≠ [])) :=
  text_pairs_iff (fun _ => none) (.cons ⟨rfl, rfl⟩ (.cons ⟨rfl, rfl⟩ .nil))
    (List.forall_mem_cons.mpr ⟨⟨by decide, by decide, by decide⟩,
      List.forall_mem_cons.mpr ⟨⟨by decide, by decide, by decide⟩, fun _ h => nomatch h⟩⟩)

/-- The key `c` behind the empty value of `a` is lost. -/
theorem key_lost : ∃ text, keyValueNew [(.binary [97], .binary []), (.binary [99], .binary [100])] = .ok text ∧
    ∃ r, cTextKeyValueParse (fun _ => none) text = .ok r ∧ CStrings text r [[97], [], [100]] ∧
      ¬ParsePairs (fun _ => none) text [([97], []), ([99], [100])] := by
  have h : ∀ p ∈ [([97], []), ([99], [100])], TextPair p :=
    List.forall_mem_cons.mpr ⟨⟨by decide, by decide, by decide⟩,
      List.forall_mem_cons.mpr ⟨⟨by decide, by decide, by decide⟩, fun _ h => nomatch h⟩⟩
  obtain ⟨r, hr, hkept⟩ := cTextKeyValueParse_eq (fun _ => none) h (by decide)
  refine ⟨_, keyValueNew_eq (.cons ⟨rfl, rfl⟩ (.cons ⟨rfl, rfl⟩ .nil)) h, r, hr, hkept, fun hp => ?_⟩
  obtain ⟨r', hr', hstrings⟩ := hp.c (by decide)
  cases hr.symm.trans hr'
  exact absurd (hkept.unique hstrings) (by decide)

end CloudI.Api
