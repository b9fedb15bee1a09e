import CloudI.Api.Terms
import CloudI.Framework.Bytes
import Mathlib.Data.List.Basic
import Mathlib.Data.List.Forall2
import Mathlib.Logic.Relation

/-!
# The external term format between languages

`Ext` is what the format says that bytes are, for the terms that are data in every language (`Data`): numbers,
atoms, binaries, lists and tuples. A `Codec` is what one language makes of the format: a value is written as bytes
of the term that it denotes, and bytes of a term are read as a value that denotes it. Neither law is about another
language, and still every two codecs exchange terms (`Codec.exchange`), and so does every chain of them
(`Codec.relay`).
-/

namespace CloudI.Api.Format

/-! ## Terms that are data -/

/-- Data, with atoms in UTF-8 of some names. -/
inductive Data (utf8 : List UInt8 → Prop) : Term → Prop
  | int (n : Int) : Data utf8 (.int n)
  | float (bits : BitVec 64) : Data utf8 (.float bits)
  | atom (name : List UInt8) : Data utf8 (.atom name)
  | atomUtf8 {name : List UInt8} (h : utf8 name) : Data utf8 (.atomUtf8 name)
  | bitstring (value : List UInt8) (bits : UInt8) : Data utf8 (.bitstring value bits)
  | nil : Data utf8 .nil
  | cons {head tail : Term} (h : Data utf8 head) (ht : Data utf8 tail) : Data utf8 (.cons head tail)
  | tuple {ts : List Term} (h : ∀ t ∈ ts, Data utf8 t) : Data utf8 (.tuple ts)

mutual

/-- Data without the sign of a zero: `0.0 =:= -0.0`. -/
def plain : Term → Term
  | .float bits => .float (if bits = .ofNat 64 (2 ^ 63) then 0 else bits)
  | .cons head tail => .cons (plain head) (plain tail)
  | .tuple elements => .tuple (plainAll elements)
  | t => t

def plainAll : List Term → List Term
  | [] => []
  | t :: ts => plain t :: plainAll ts

end

attribute [grind =] plain plainAll

/-- Two terms that are one, as data. -/
def Same (t u : Term) : Prop := plain t = plain u

theorem plainAll_eq (ts : List Term) : plainAll ts = ts.map plain := by
  induction ts with
  | nil => rfl
  | cons t ts ih => rw [plainAll, ih, List.map_cons]

theorem plain_tuple (ts : List Term) : plain (.tuple ts) = .tuple (ts.map plain) := by rw [plain, plainAll_eq]

theorem plain_foldr (ts : List Term) (tail : Term) :
    plain (ts.foldr .cons tail) = (ts.map plain).foldr .cons (plain tail) := by
  induction ts with
  | nil => rfl
  | cons t ts ih => rw [List.foldr_cons, plain, ih, List.map_cons, List.foldr_cons]

variable {utf8 other : List UInt8 → Prop}

theorem Data.of_foldr {ts : List Term} {tail : Term} (h : Data utf8 (ts.foldr .cons tail)) :
    (∀ t ∈ ts, Data utf8 t) ∧ Data utf8 tail := by
  induction ts with
  | nil => exact ⟨fun t ht => absurd ht List.not_mem_nil, h⟩
  | cons t ts ih =>
    rw [List.foldr_cons] at h
    cases h with
    | cons hhead htail =>
      obtain ⟨hall, htail⟩ := ih htail
      exact ⟨List.forall_mem_cons.mpr ⟨hhead, hall⟩, htail⟩

theorem Data.same {t u : Term} (h : Data utf8 t) (hs : Same t u) : Data utf8 u := by
  induction h generalizing u with
  | int n => cases u <;> simp only [Same, plain, reduceCtorEq] at hs ⊢; exact .int _
  | float bits => cases u <;> simp only [Same, plain, reduceCtorEq] at hs ⊢; exact .float _
  | atom name => cases u <;> simp only [Same, plain, reduceCtorEq] at hs ⊢; exact .atom _
  | atomUtf8 hn =>
    cases u <;> simp only [Same, plain, reduceCtorEq, Term.atomUtf8.injEq] at hs ⊢
    exact .atomUtf8 (hs ▸ hn)
  | bitstring value bits => cases u <;> simp only [Same, plain, reduceCtorEq] at hs ⊢; exact .bitstring _ _
  | nil => cases u <;> simp only [Same, plain, reduceCtorEq] at hs ⊢; exact .nil
  | cons _ _ ihh iht =>
    cases u <;> simp only [Same, plain, reduceCtorEq, Term.cons.injEq] at hs ⊢
    exact .cons (ihh hs.1) (iht hs.2)
  | @tuple ts _ ih =>
    cases u <;> simp only [Same, plain, reduceCtorEq, Term.tuple.injEq, plainAll_eq] at hs ⊢
    rename_i us
    refine .tuple fun u hu => ?_
    have hmem : plain u ∈ ts.map plain := hs ▸ List.mem_map_of_mem hu
    obtain ⟨t, ht, hplain⟩ := List.mem_map.mp hmem
    exact ih t ht hplain

/-! ## Bytes -/

/-- A name with its length before it, and the tag for a length of one byte or of two. -/
def named (small large : Tag) (name : List UInt8) : List UInt8 :=
  if name.length ≤ 255 then small.byte :: be 1 name.length ++ name else large.byte :: be 2 name.length ++ name

/-- An integer of any size: the sign and the digits, the least significant one first. -/
def bignum (n : Int) : List UInt8 :=
  let l := (if n < 0 then 1 else 0 : UInt8) :: minimal n.natAbs
  if (minimal n.natAbs).length ≤ 255 then Tag.smallBigExt.byte :: be 1 (minimal n.natAbs).length ++ l
  else Tag.largeBigExt.byte :: be 4 (minimal n.natAbs).length ++ l

def bitstring (value : List UInt8) (bits : UInt8) : List UInt8 :=
  if bits = 8 then Tag.binaryExt.byte :: be 4 value.length ++ value
  else Tag.bitBinaryExt.byte :: be 4 value.length ++ bits :: value

/-- What a tuple starts with. -/
def tupleStart (length : Nat) : List UInt8 :=
  if length ≤ 255 then Tag.smallTupleExt.byte :: be 1 length else Tag.largeTupleExt.byte :: be 4 length

/-- The bytes of a term without terms in it. -/
inductive Scalar (utf8 : List UInt8 → Prop) : List UInt8 → Term → Prop
  | smallInteger (n : UInt8) : Scalar utf8 [Tag.smallIntegerExt.byte, n] (.int n.toNat)
  | integer (n : BitVec 32) : Scalar utf8 (Tag.integerExt.byte :: be 4 n.toNat) (.int n.toInt)
  | bignum {n : Int} (h : (minimal n.natAbs).length ≤ 4294967295) : Scalar utf8 (bignum n) (.int n)
  | float (bits : BitVec 64) : Scalar utf8 (Tag.newFloatExt.byte :: be 8 bits.toNat) (.float bits)
  | atom {name : List UInt8} (h : name.length ≤ 65535) : Scalar utf8 (named .smallAtomExt .atomExt name) (.atom name)
  | atomUtf8 {name : List UInt8} (h : name.length ≤ 65535) (hu : utf8 name) :
      Scalar utf8 (named .smallAtomUtf8Ext .atomUtf8Ext name) (.atomUtf8 name)
  | string {s : List UInt8} (hs : s ≠ []) (h : s.length ≤ 65535) :
      Scalar utf8 (Tag.stringExt.byte :: be 2 s.length ++ s) (.ofBytes s)
  | bitstring {value : List UInt8} (bits : UInt8) (h : value.length ≤ 4294967295) :
      Scalar utf8 (bitstring value bits) (.bitstring value bits)
  | nil : Scalar utf8 [Tag.nilExt.byte] .nil

/-- The bytes of terms one after another. -/
inductive Ext (utf8 : List UInt8 → Prop) : List UInt8 → List Term → Prop
  | nil : Ext utf8 [] []
  | scalar {e es : List UInt8} {t : Term} {ts : List Term} (h : Scalar utf8 e t) (hs : Ext utf8 es ts) :
      Ext utf8 (e ++ es) (t :: ts)
  | tuple {e es : List UInt8} {us ts : List Term} (hk : us.length ≤ 4294967295) (h : Ext utf8 e us)
      (hs : Ext utf8 es ts) : Ext utf8 (tupleStart us.length ++ e ++ es) (.tuple us :: ts)
  | list {e l es : List UInt8} {us ts : List Term} {tail : Term} (hk : us.length ≤ 4294967295) (h : Ext utf8 e us)
      (ht : Ext utf8 l [tail]) (hs : Ext utf8 es ts) :
      Ext utf8 (Tag.listExt.byte :: be 4 us.length ++ e ++ l ++ es) (us.foldr .cons tail :: ts)

namespace Ext

variable {e l : List UInt8} {ts us : List Term}

theorem one {t : Term} (h : Scalar utf8 e t) : Ext utf8 e [t] := by
  have hone := scalar h nil
  rwa [List.append_nil] at hone

theorem append (h : Ext utf8 e ts) (hl : Ext utf8 l us) : Ext utf8 (e ++ l) (ts ++ us) := by
  induction h with
  | nil => exact hl
  | scalar h _ ih => exact List.append_assoc _ _ l ▸ .scalar h ih
  | tuple hk h _ _ ih => exact List.append_assoc _ _ l ▸ .tuple hk h ih
  | list hk h ht _ _ _ ih => exact List.append_assoc _ _ l ▸ .list hk h ht ih

theorem split (h : Ext utf8 l (ts ++ us)) :
    ∃ e₁ e₂, l = e₁ ++ e₂ ∧ Ext utf8 e₁ ts ∧ Ext utf8 e₂ us := by
  induction ts generalizing l with
  | nil => exact ⟨[], l, rfl, .nil, h⟩
  | cons t ts ih =>
    rw [List.cons_append] at h
    cases h with
    | scalar h hs =>
      obtain ⟨e₁, e₂, rfl, h₁, h₂⟩ := ih hs
      exact ⟨_, e₂, (List.append_assoc _ e₁ e₂).symm, .scalar h h₁, h₂⟩
    | tuple hk h hs =>
      obtain ⟨e₁, e₂, rfl, h₁, h₂⟩ := ih hs
      exact ⟨_, e₂, (List.append_assoc _ e₁ e₂).symm, .tuple hk h h₁, h₂⟩
    | list hk h ht hs =>
      obtain ⟨e₁, e₂, rfl, h₁, h₂⟩ := ih hs
      exact ⟨_, e₂, (List.append_assoc _ e₁ e₂).symm, .list hk h ht h₁, h₂⟩

theorem mono (hsub : ∀ name, utf8 name → other name) (h : Ext utf8 e ts) : Ext other e ts := by
  induction h with
  | nil => exact .nil
  | scalar h _ ih =>
    refine .scalar ?_ ih
    cases h with
    | smallInteger n => exact .smallInteger n
    | integer n => exact .integer n
    | bignum h => exact .bignum h
    | float bits => exact .float bits
    | atom h => exact .atom h
    | atomUtf8 h hu => exact .atomUtf8 h (hsub _ hu)
    | string hs h => exact .string hs h
    | bitstring bits h => exact .bitstring bits h
    | nil => exact .nil
  | tuple hk _ _ ih ihs => exact .tuple hk ih ihs
  | list hk _ _ _ ih iht ihs => exact .list hk ih iht ihs

/-- The elements of a list of bytes. -/
theorem characters (s : List UInt8) :
    Ext utf8 (s.flatMap fun c => [Tag.smallIntegerExt.byte, c]) (s.map fun c => .int c.toNat) := by
  induction s with
  | nil => exact .nil
  | cons c s ih => exact .scalar (.smallInteger c) ih

end Ext

theorem foldr_characters (s : List UInt8) :
    (s.map fun c => Term.int c.toNat).foldr Term.cons Term.nil = .ofBytes s := by
  induction s with
  | nil => rfl
  | cons c s ih => rw [List.map_cons, List.foldr_cons, ih, Term.ofBytes]

/-- The term of a list, whose last element is its tail where it is improper. -/
inductive ListOf : Bool → List Term → Term → Prop where
  | proper (ts : List Term) : ListOf false ts (ts.foldr .cons .nil)
  | improper (ts : List Term) (tail : Term) : ListOf true (ts ++ [tail]) (ts.foldr .cons tail)

/-- What a language denotes by its lists, as it denotes their elements by `d`. -/
theorem ListOf.of_denote {V : Type} {d : V → Term} {denoteList : List V → Bool → Term}
    (hproper : ∀ vs, denoteList vs false = (vs.map d).foldr .cons .nil)
    (himproper : ∀ init tail, denoteList (init ++ [tail]) true = (init.map d).foldr .cons (d tail)) (improper : Bool)
    {vs : List V} (hne : ¬ vs.length = 0) : ListOf improper (vs.map d) (denoteList vs improper) := by
  cases improper with
  | false =>
    rw [hproper]
    exact .proper _
  | true =>
    obtain rfl | ⟨init, tail, rfl⟩ := List.eq_nil_or_concat' vs
    · exact absurd rfl hne
    · rw [himproper, List.map_append, List.map_singleton]
      exact .improper _ _

/-- The elements of a list are data, and so is the last one that is its tail. -/
theorem ListOf.elements {improper : Bool} {ts : List Term} {t : Term} (h : ListOf improper ts t) (hd : Data utf8 t) :
    ∀ u ∈ ts, Data utf8 u := by
  cases h with
  | proper => exact hd.of_foldr.1
  | improper ts tail =>
    obtain ⟨hinit, htail⟩ := hd.of_foldr
    exact List.forall_mem_append.mpr ⟨hinit, List.forall_mem_singleton.mpr htail⟩

/-! ## Writing -/

/-- Bytes of terms that are the same as some terms. -/
def Written (utf8 : List UInt8 → Prop) (e : List UInt8) (ts : List Term) : Prop :=
  ∃ us, Ext utf8 e us ∧ us.map plain = ts.map plain

namespace Written

variable {e l : List UInt8} {ts us : List Term} {t tail : Term}

theorem of_ext (h : Ext utf8 e ts) : Written utf8 e ts := ⟨ts, h, rfl⟩

theorem scalar (h : Scalar utf8 e t) : Written utf8 e [t] := of_ext (.one h)

theorem nil : Written utf8 [] [] := of_ext .nil

theorem append (h : Written utf8 e ts) (hl : Written utf8 l us) : Written utf8 (e ++ l) (ts ++ us) := by
  obtain ⟨ts', h, hts⟩ := h
  obtain ⟨us', hl, hus⟩ := hl
  exact ⟨_, h.append hl, by rw [List.map_append, List.map_append, hts, hus]⟩

theorem split (h : Written utf8 l (ts ++ us)) :
    ∃ e₁ e₂, l = e₁ ++ e₂ ∧ Written utf8 e₁ ts ∧ Written utf8 e₂ us := by
  obtain ⟨all, h, hall⟩ := h
  rw [List.map_append] at hall
  obtain ⟨ts', us', rfl, hts, hus⟩ := List.map_eq_append_iff.mp hall
  obtain ⟨e₁, e₂, rfl, h₁, h₂⟩ := h.split
  exact ⟨e₁, e₂, rfl, ⟨ts', h₁, hts⟩, us', h₂, hus⟩

theorem small {n : Int} (h : 0 ≤ n ∧ n ≤ 255) : Written utf8 [Tag.smallIntegerExt.byte, .ofNat n.toNat] [.int n] := by
  have hsmall := scalar (@Scalar.smallInteger utf8 (.ofNat n.toNat))
  rwa [UInt8.toNat_ofNat', Nat.mod_eq_of_lt (by omega), Int.toNat_of_nonneg h.1] at hsmall

theorem int32 {n : Int} (h : -2147483648 ≤ n ∧ n ≤ 2147483647) :
    Written utf8 (Tag.integerExt.byte :: be 4 (BitVec.ofInt 32 n).toNat) [.int n] := by
  have hint := scalar (@Scalar.integer utf8 (.ofInt 32 n))
  rwa [BitVec.toInt_ofInt, Int.bmod_eq_of_le (by omega) (by omega)] at hint

/-- The one term that bytes are of. -/
theorem of_one (h : Written utf8 e [t]) : ∃ u, Ext utf8 e [u] ∧ Same u t := by
  obtain ⟨us, h, hus⟩ := h
  obtain ⟨u, rfl, hu⟩ := List.map_eq_singleton_iff.mp hus
  exact ⟨u, h, hu⟩

theorem length_eq (h : us.map plain = ts.map plain) : us.length = ts.length := by
  have hlen := congrArg List.length h
  rwa [List.length_map, List.length_map] at hlen

theorem tuple (hk : ts.length ≤ 4294967295) (h : Written utf8 e ts) :
    Written utf8 (tupleStart ts.length ++ e) [.tuple ts] := by
  obtain ⟨us, h, hus⟩ := h
  have hlen := length_eq hus
  have htuple := Ext.tuple (hlen ▸ hk) h .nil
  rw [List.append_nil, hlen] at htuple
  exact ⟨_, htuple, by rw [List.map_singleton, List.map_singleton, plain_tuple, plain_tuple, hus]⟩

theorem tuple_map {V : Type} {d : V → Term} {vs : List V} (hk : vs.length ≤ 4294967295)
    (h : Written utf8 e (vs.map d)) : Written utf8 (tupleStart vs.length ++ e) [.tuple (vs.map d)] := by
  have htuple := tuple (by rw [List.length_map]; exact hk) h
  rwa [List.length_map] at htuple

theorem list (hk : ts.length ≤ 4294967295) (h : Written utf8 e ts) (ht : Written utf8 l [tail]) :
    Written utf8 (Tag.listExt.byte :: be 4 ts.length ++ e ++ l) [ts.foldr .cons tail] := by
  obtain ⟨us, h, hus⟩ := h
  obtain ⟨u, hu, hut⟩ := of_one ht
  have hlen := length_eq hus
  have hlist := Ext.list (hlen ▸ hk) h hu .nil
  rw [List.append_nil, hlen] at hlist
  refine ⟨_, hlist, ?_⟩
  rw [List.map_singleton, List.map_singleton, plain_foldr, plain_foldr, hus, hut]

/-- A proper list ends in the empty one. -/
theorem proper (hk : ts.length ≤ 4294967295) (h : Written utf8 e ts) :
    Written utf8 (Tag.listExt.byte :: be 4 ts.length ++ e ++ [Tag.nilExt.byte]) [ts.foldr .cons .nil] :=
  list hk h (scalar .nil)

/-- The last element of an improper list is its tail. -/
theorem improper (hk : ts.length ≤ 4294967295) (h : Written utf8 e (ts ++ [tail])) :
    Written utf8 (Tag.listExt.byte :: be 4 ts.length ++ e) [ts.foldr .cons tail] := by
  obtain ⟨e₁, e₂, rfl, h₁, h₂⟩ := h.split
  rw [← List.append_assoc]
  exact list hk h₁ h₂

/-- A list that is written by its elements. -/
theorem listed {improper : Bool} (ht : ListOf improper ts t) (hk : ts.length - improper.toNat ≤ 4294967295)
    (h : Written utf8 e ts) :
    Written utf8 (if improper then Tag.listExt.byte :: be 4 (ts.length - 1) ++ e
      else Tag.listExt.byte :: be 4 ts.length ++ e ++ [Tag.nilExt.byte]) [t] := by
  cases ht with
  | proper => exact proper hk h
  | improper ts tail =>
    rw [List.length_append, List.length_singleton] at hk ⊢
    exact Written.improper hk h

/-- A string that is too long for the length of a string is a list of integers. -/
theorem characters {s : List UInt8} (hk : s.length ≤ 4294967295) :
    Written utf8 (Tag.listExt.byte :: be 4 s.length ++ (s.flatMap fun c => [Tag.smallIntegerExt.byte, c]) ++
      [Tag.nilExt.byte]) [.ofBytes s] := by
  have hlist := proper (by rw [List.length_map]; exact hk) (of_ext (@Ext.characters utf8 s))
  rwa [List.length_map, foldr_characters] at hlist

end Written

/-! ## Encoders

Every language checks the lengths in the same way, and fails in its own. -/

section Guards

variable {F : Type} {fault : F} {e : List UInt8}

/-- The bytes of a function that fails on a length only. -/
theorem eq_of_guard {c : Prop} [Decidable c] {l : List UInt8}
    (he : (if c then .ok l else .error fault) = Except.ok e) : c ∧ e = l := by
  split at he
  · rename_i h
    exact ⟨h, (Except.ok.inj he).symm⟩
  · cases he

theorem named_guard (small large : Tag) (name : List UInt8) :
    (if name.length ≤ 255 then Except.ok (small.byte :: be 1 name.length ++ name)
      else if name.length ≤ 65535 then .ok (large.byte :: be 2 name.length ++ name) else .error fault) =
      if name.length ≤ 65535 then .ok (named small large name) else .error fault := by
  unfold named
  split
  · rw [if_pos (by omega)]
  · rfl

theorem bignum_guard (n : Int) :
    (let sign : UInt8 := if n < 0 then 1 else 0
      let l := minimal n.natAbs
      if l.length ≤ 255 then Except.ok (Tag.smallBigExt.byte :: be 1 l.length ++ sign :: l)
      else if l.length ≤ 4294967295 then .ok (Tag.largeBigExt.byte :: be 4 l.length ++ sign :: l)
      else .error fault) =
      if (minimal n.natAbs).length ≤ 4294967295 then .ok (bignum n) else .error fault := by
  simp only [bignum]
  by_cases h : (minimal n.natAbs).length ≤ 255
  · rw [if_pos h, if_pos (show (minimal n.natAbs).length ≤ 4294967295 by omega), if_pos h]
  · rw [if_neg h, if_neg h]

theorem tupleStart_guard (length : Nat) :
    (if length ≤ 255 then Except.ok (Tag.smallTupleExt.byte :: be 1 length)
      else if length ≤ 4294967295 then .ok (Tag.largeTupleExt.byte :: be 4 length) else .error fault) =
      if length ≤ 4294967295 then .ok (tupleStart length) else .error fault := by
  unfold tupleStart
  split
  · rw [if_pos (by omega)]
  · rfl

theorem Written.string {s : List UInt8} {long : Except F (List UInt8)}
    (hlong : long = .ok e → Written utf8 e [.ofBytes s]) (he : (if s.length = 0 then .ok [Tag.nilExt.byte]
      else if s.length ≤ 65535 then .ok (Tag.stringExt.byte :: be 2 s.length ++ s) else long) = Except.ok e) :
    Written utf8 e [.ofBytes s] := by
  split at he
  · rename_i h
    rw [List.length_eq_zero_iff.mp h]
    exact Except.ok.inj he ▸ .scalar .nil
  · rename_i hne
    split at he
    · rename_i h
      exact Except.ok.inj he ▸ .scalar (.string (fun hs => hne (List.length_eq_zero_iff.mpr hs)) h)
    · exact hlong he

end Guards

/-! ## Reading -/

/-- What a decoder makes of the format: `Coded` are the bytes that it reads as a value, and `Means` is what it has
of a term then. -/
structure Decoding (utf8 : List UInt8 → Prop) (V : Type) where
  Coded : List UInt8 → V → Prop
  Means : V → Term → Prop
  scalar {e : List UInt8} {t : Term} (h : Scalar utf8 e t) : ∃ w, Coded e w ∧ Means w t
  tuple {es : List (List UInt8)} {ws : List V} {ts : List Term} (h : List.Forall₂ Coded es ws)
    (hm : List.Forall₂ Means ws ts) (hk : ws.length ≤ 4294967295) :
    ∃ w, Coded (tupleStart ws.length ++ es.flatten) w ∧ Means w (.tuple ts)
  list {es : List (List UInt8)} {ws : List V} {ts : List Term} {e : List UInt8} {w : V} {t : Term}
    (h : List.Forall₂ Coded es ws) (hm : List.Forall₂ Means ws ts) (hk : ws.length ≤ 4294967295) (hw : Coded e w)
    (ht : Means w t) :
    ∃ w', Coded (Tag.listExt.byte :: be 4 ws.length ++ es.flatten ++ e) w' ∧ Means w' (ts.foldr .cons t)

theorem map_of_means {V : Type} {d : V → Term} {ws : List V} {ts : List Term}
    (h : List.Forall₂ (fun w t => d w = t) ws ts) : ws.map d = ts := by
  induction h with
  | nil => rfl
  | cons hw _ ih => rw [List.map_cons, hw, ih]

/-- A decoder with the cases of the format reads all of it. -/
theorem Decoding.reads {V : Type} (D : Decoding utf8 V) {e : List UInt8} {ts : List Term} (h : Ext utf8 e ts) :
    ∃ es ws, e = es.flatten ∧ List.Forall₂ D.Coded es ws ∧ List.Forall₂ D.Means ws ts := by
  induction h with
  | nil => exact ⟨[], [], rfl, .nil, .nil⟩
  | scalar h _ ih =>
    obtain ⟨w, hw, hm⟩ := D.scalar h
    obtain ⟨es, ws, rfl, hws, hms⟩ := ih
    exact ⟨_ :: es, w :: ws, rfl, .cons hw hws, .cons hm hms⟩
  | tuple hk _ _ ih ihs =>
    obtain ⟨es, ws, rfl, hws, hms⟩ := ih
    obtain ⟨es', ws', rfl, hws', hms'⟩ := ihs
    obtain ⟨w, hw, hm⟩ := D.tuple hws hms (hms.length_eq ▸ hk)
    rw [hms.length_eq] at hw
    exact ⟨_ :: es', w :: ws', rfl, .cons hw hws', .cons hm hms'⟩
  | list hk _ _ _ ih iht ihs =>
    obtain ⟨es, ws, rfl, hws, hms⟩ := ih
    obtain ⟨es₁, ws₁, rfl, hws₁, hms₁⟩ := iht
    obtain ⟨es', ws', rfl, hws', hms'⟩ := ihs
    cases hms₁ with
    | cons hm₁ hnil =>
      cases hnil
      cases hws₁ with
      | cons hw₁ hnil =>
        cases hnil
        obtain ⟨w, hw, hm⟩ := D.list hws hms (hms.length_eq ▸ hk) hw₁ hm₁
        rw [hms.length_eq] at hw
        refine ⟨_ :: es', w :: ws', ?_, .cons hw hws', .cons hm hms'⟩
        rw [List.flatten_cons, List.flatten_cons, List.flatten_nil, List.append_nil]

theorem Decoding.reads_one {V : Type} (D : Decoding utf8 V) {e : List UInt8} {t : Term} (h : Ext utf8 e [t]) :
    ∃ w, D.Coded e w ∧ D.Means w t := by
  obtain ⟨es, ws, rfl, hws, hms⟩ := D.reads h
  cases hms with
  | cons hm hnil =>
    cases hnil
    cases hws with
    | cons hw hnil =>
      cases hnil
      rw [List.flatten_cons, List.flatten_nil, List.append_nil]
      exact ⟨_, hw, hm⟩

/-! ## Codecs -/

/-- What one language makes of the format. `Sends` are the values that it writes as they are, and `utf8` are the
names in UTF-8 that it reads. -/
structure Codec where
  Value : Type
  utf8 : List UInt8 → Prop
  Sends : Value → Prop
  denote : Value → Term
  Writes : Value → List UInt8 → Prop
  Reads : List UInt8 → Value → Prop
  written {names : List UInt8 → Prop} {v : Value} {data : List UInt8} (hv : Sends v) (hw : Writes v data)
    (hd : Data names (denote v)) : ∃ e, data = tagVersion :: e ∧ Written names e [denote v]
  read {e : List UInt8} {t : Term} (h : Ext utf8 e [t]) :
    ∃ w, Reads (tagVersion :: e) w ∧ Same (denote w) t ∧ Sends w
  unique {data : List UInt8} {v w : Value} (hv : Reads data v) (hw : Reads data w) : v = w

namespace Codec

/-- What one codec writes of data is read by every other one, as the same data. -/
theorem exchange (A B : Codec) {v : A.Value} {data : List UInt8} (hv : A.Sends v) (hw : A.Writes v data)
    (hd : Data B.utf8 (A.denote v)) :
    ∃ w, B.Reads data w ∧ Same (B.denote w) (A.denote v) ∧ B.Sends w := by
  obtain ⟨e, rfl, hext⟩ := A.written hv hw hd
  obtain ⟨t, hext, hsame⟩ := hext.of_one
  obtain ⟨w, hr, ht, hs⟩ := B.read hext
  exact ⟨w, hr, ht.trans hsame, hs⟩

/-- A value that a service holds, in the language of the service. -/
abbrev Held := (C : Codec) × C.Value

/-- One service sends its value to another one, which reads some names in UTF-8. -/
def Sent (names : List UInt8 → Prop) (x y : Held) : Prop :=
  (∀ name, names name → y.1.utf8 name) ∧ ∃ data, x.1.Writes x.2 data ∧ y.1.Reads data y.2

/-- Data stays the same from service to service. -/
theorem relay {names : List UInt8 → Prop} {x y : Held} (h : Relation.ReflTransGen (Sent names) x y)
    (hx : x.1.Sends x.2) (hd : Data names (x.1.denote x.2)) :
    Same (y.1.denote y.2) (x.1.denote x.2) ∧ y.1.Sends y.2 := by
  induction h with
  | refl => exact ⟨rfl, hx⟩
  | @tail y z _ hsent ih =>
    obtain ⟨hsame, hy⟩ := ih
    obtain ⟨hnames, data, hw, hr⟩ := hsent
    obtain ⟨e, rfl, hext⟩ := y.1.written hy hw (hd.same hsame.symm)
    obtain ⟨t, hext, ht⟩ := hext.of_one
    obtain ⟨w, hw, hwt, hs⟩ := z.1.read (hext.mono hnames)
    rw [z.1.unique hr hw]
    exact ⟨(hwt.trans ht).trans hsame, hs⟩

end Codec

end CloudI.Api.Format
