import CloudI.Api.Python.Codec
import CloudI.Framework.Exn
import Mathlib.Data.List.Basic
import Mathlib.Data.List.Forall2

/-!
# What the Python codec encodes is decoded again

`denote` is the Erlang term that a Python value stands for. `restored` is the
value with its strings, lists and atoms in the types that the decoder has for
them, and `Fits` are the values whose parts the format has a place for, in one
version of Python. The decoder reads the bytes of such a value, wherever they
stand, as what is restored of it (`fits_encoded`), which denotes the same
(`denote_restored`).
-/

namespace CloudI.Api.Python.Erlang

open Slices

/-! ## What a value denotes -/

/-- The atom of a name. -/
def AtomValue.denote : AtomValue → Term
  | .bytes name => .atom name
  | .unicode name => .atomUtf8 name
  | .int n => .atomCacheRef (.ofNat n.toNat)

/-- A node, with one tag for each kind of name. -/
def AtomValue.nodeTag : AtomValue → UInt8
  | .bytes _ => Tag.atomExt.byte
  | .unicode _ => Tag.atomUtf8Ext.byte
  | .int _ => Tag.atomCacheRef.byte

def AtomValue.name : AtomValue → List UInt8
  | .bytes name | .unicode name => name
  | .int n => [.ofNat n.toNat]

mutual

/-- The Erlang term that a value denotes. -/
def denote : Value → Term
  | .bytes s | .unicode s => .ofBytes s
  | .list value => denoteList value false
  | .tuple value => .tuple (denoteSequence value)
  | .int n => .int n
  | .float bits => .float bits
  | .dict pairs | .frozendict pairs => .map (denotePairs pairs)
  | .bool b => .atom (boolName b)
  | .otpErlangAtom value => value.denote
  | .otpErlangList value improper => denoteList value improper
  | .otpErlangBinary value bits => .bitstring value (.ofNat bits.toNat)
  | .otpErlangFunction tag value => .function tag value
  | .otpErlangReference node id creation => .reference node.nodeTag node.name id (creation.headD 0)
  | .otpErlangPort node id creation => .port node.nodeTag node.name id (creation.headD 0)
  | .otpErlangPid node id serial creation => .pid node.nodeTag node.name id serial (creation.headD 0)
  | .other => .nil

def denoteSequence : List Value → List Term
  | [] => []
  | element :: sequence => denote element :: denoteSequence sequence

def denotePairs : List (Value × Value) → List (Term × Term)
  | [] => []
  | (key, value) :: pairs => (denote key, denote value) :: denotePairs pairs

/-- The last element of an improper list is its tail. -/
def denoteList : List Value → Bool → Term
  | [], _ => .nil
  | [tail], true => denote tail
  | element :: sequence, improper => .cons (denote element) (denoteList sequence improper)

end

attribute [grind =] denote denoteSequence denotePairs denoteList

theorem denoteSequence_eq (vs : List Value) : denoteSequence vs = vs.map denote := by
  induction vs with
  | nil => rfl
  | cons v vs ih => rw [denoteSequence, ih, List.map_cons]

theorem denotePairs_eq (pairs : List (Value × Value)) :
    denotePairs pairs = pairs.map fun p => (denote p.1, denote p.2) := by
  induction pairs with
  | nil => rfl
  | cons p pairs ih => rw [denotePairs, ih, List.map_cons]

theorem denoteList_proper (vs : List Value) :
    denoteList vs false = (vs.map denote).foldr .cons .nil := by
  induction vs with
  | nil => rfl
  | cons v vs ih =>
    rw [denoteList, ih]
    · rfl
    · simp

theorem denoteList_improper (init : List Value) (tail : Value) :
    denoteList (init ++ [tail]) true = (init.map denote).foldr .cons (denote tail) := by
  induction init with
  | nil => rfl
  | cons v init ih =>
    rw [List.cons_append, denoteList, ih]
    · rfl
    · simp

theorem denote_listWithTail (init : List Value) (tail : Value) :
    denote (listWithTail init tail) = (init.map denote).foldr .cons (denote tail) := by
  unfold listWithTail
  split
  · rw [denote, denoteList_proper, denote]
    rfl
  · rw [denote, denoteList_improper]

/-! ## What the decoder makes of a value -/

/-- A string that is too long for the length of a string is a list of integers. -/
def restoredString (s : List UInt8) : Value :=
  if s.length = 0 then .list []
  else if s.length ≤ 65535 then .bytes s
  else .list (s.map fun c => .int c.toNat)

/-- A list whose last element is its tail, if it is improper. -/
def restoredList (elements : List Value) (improper : Bool) : Value :=
  match elements.getLast? with
  | some tail => if improper then listWithTail elements.dropLast tail else .list elements
  | none => .list []

mutual

/-- The value, with the types that the decoder has for its parts. -/
def restored : Value → Value
  | .bytes s | .unicode s => restoredString s
  | .list value => .list (restoredSequence value)
  | .tuple value => .tuple (restoredSequence value)
  | .dict pairs => .dict (restoredPairs pairs)
  | .otpErlangAtom (.bytes name) => smallAtom name
  | .otpErlangList value improper => restoredList (restoredSequence value) improper
  | v => v

def restoredSequence : List Value → List Value
  | [] => []
  | element :: sequence => restored element :: restoredSequence sequence

def restoredPairs : List (Value × Value) → List (Value × Value)
  | [] => []
  | (key, value) :: pairs => (keyOf (restored key), restored value) :: restoredPairs pairs

end

attribute [grind =] restored restoredSequence restoredPairs

theorem restoredSequence_eq (vs : List Value) : restoredSequence vs = vs.map restored := by
  induction vs with
  | nil => rfl
  | cons v vs ih => rw [restoredSequence, ih, List.map_cons]

theorem restoredPairs_eq (pairs : List (Value × Value)) :
    restoredPairs pairs = pairs.map fun p => (keyOf (restored p.1), restored p.2) := by
  induction pairs with
  | nil => rfl
  | cons p pairs ih => rw [restoredPairs, ih, List.map_cons]

theorem restoredList_proper (vs : List Value) : restoredList vs false = .list vs := by
  unfold restoredList
  split
  · rfl
  · rename_i h
    rw [List.getLast?_eq_none_iff.mp h]

theorem restoredList_improper (init : List Value) (tail : Value) :
    restoredList (init ++ [tail]) true = listWithTail init tail := by
  rw [restoredList, List.getLast?_concat]
  simp only [if_true, List.dropLast_concat]

/-! ## Reading -/

section Read

variable {data l m : List UInt8} {i : Nat}

theorem bOrd_at {b : UInt8} (h : At data i (b :: m)) : bOrd i data = .ok b := by
  rw [bOrd, h.getElem?]

theorem unpack_at {k n : Nat} (h : At data i (be k n ++ m)) (hn : n < 256 ^ k) : unpack k i data = .ok n := by
  have hslice := slice_at_of_length h (length_be k n)
  rw [unpack, hslice, length_be, if_neg (Nat.lt_irrefl k), ofBe_be_of_lt hn]

/-- The byte that a length of one byte is. -/
theorem be_one {n : Nat} (hn : n < 256 ^ 1) : be 1 n = [UInt8.ofNat n] ∧ (UInt8.ofNat n).toNat = n := by
  refine ⟨rfl, ?_⟩
  rw [UInt8.toNat_ofNat', Nat.mod_eq_of_lt (by omega)]

theorem bOrd_length {n : Nat} (h : At data i (be 1 n ++ m)) (hn : n < 256 ^ 1) :
    bOrd i data = .ok (UInt8.ofNat n) := by
  rw [(be_one hn).1] at h
  exact bOrd_at h

theorem smallLength_at {n : Nat} (h : At data i (be 1 n ++ m)) (hn : n < 256 ^ 1) :
    smallLength false i data = .ok n := by
  rw [(be_one hn).1] at h
  have hget := At.getElem? h
  simp only [smallLength, hget, (be_one hn).2, Bool.false_eq_true, if_false]

end Read

variable {py3 : Bool} {lib : Library}

/-! ## Atoms -/

theorem unicode_at {data m name : List UInt8} {i : Nat} (h : At data i (name ++ m)) (hv : lib.validUtf8 name = true) :
    binaryToUnicode lib i name.length data = .ok (i + name.length, .unicode name) := by
  rw [binaryToUnicode, slice_at h, if_pos hv]

/-- The bytes of an atom: its tag, its length and its name. In Python 3 the
lengths of one byte are not read, and the number of a cached atom is a string. -/
inductive AtomBytes (py3 : Bool) (lib : Library) : List UInt8 → AtomValue → Prop
  | bytes {name : List UInt8} (h : name.length < 256 ^ 2) :
      AtomBytes py3 lib (Tag.atomExt.byte :: (be 2 name.length ++ name)) (.bytes name)
  | smallBytes {name : List UInt8} (hp : py3 = false) (h : name.length < 256 ^ 1) :
      AtomBytes py3 lib (Tag.smallAtomExt.byte :: (be 1 name.length ++ name)) (.bytes name)
  | unicode {name : List UInt8} (h : name.length < 256 ^ 2) (hv : lib.validUtf8 name = true) :
      AtomBytes py3 lib (Tag.atomUtf8Ext.byte :: (be 2 name.length ++ name)) (.unicode name)
  | smallUnicode {name : List UInt8} (hp : py3 = false) (h : name.length < 256 ^ 1) (hv : lib.validUtf8 name = true) :
      AtomBytes py3 lib (Tag.smallAtomUtf8Ext.byte :: (be 1 name.length ++ name)) (.unicode name)
  | cached (n : UInt8) :
      AtomBytes py3 lib [Tag.atomCacheRef.byte, n] (if py3 then .bytes [n] else .int n.toNat)

/-- The number of a cached atom. -/
theorem cacheRef_at {data m : List UInt8} {i : Nat} {n : UInt8} (h : At data i (n :: m)) :
    cacheRef py3 i data = .ok (if py3 then .bytes [n] else .int n.toNat) := by
  have hslice : slice i 1 data = [n] := slice_at (l := [n]) h
  cases py3 with
  | true => simp only [cacheRef, hslice, if_true]
  | false => simp only [cacheRef, h.getElem?, Bool.false_eq_true, if_false]

/-- A node is read as the atom that it is. -/
theorem AtomBytes.reads {a : AtomValue} {e : List UInt8} (h : AtomBytes py3 lib e a) :
    Reads (binaryToAtom py3 lib) e a := by
  intro data i bytes hr
  rw [binaryToAtom]
  cases h with
  | cached n =>
    rw [bind_ok (bOrd_at hr)]
    simp only [Tag.ofByte_byte]
    rw [bind_ok (cacheRef_at hr.tail)]
    rfl
  | bytes h =>
    rw [List.cons_append, List.append_assoc] at hr
    have hname := length_be 2 _ ▸ hr.tail.append
    rw [bind_ok (bOrd_at hr)]
    simp only [Tag.ofByte_byte]
    rw [bind_ok (unpack_at hr.tail h)]
    simp only [slice_at hname, List.length_cons, List.length_append, length_be, Nat.add_assoc, Nat.add_comm 1]
    rfl
  | smallBytes hp h =>
    subst hp
    rw [List.cons_append, List.append_assoc] at hr
    have hname := length_be 1 _ ▸ hr.tail.append
    rw [bind_ok (bOrd_at hr)]
    simp only [Tag.ofByte_byte]
    rw [bind_ok (smallLength_at hr.tail h)]
    simp only [slice_at hname, List.length_cons, List.length_append, length_be, Nat.add_assoc, Nat.add_comm 1]
    rfl
  | unicode h hv =>
    rw [List.cons_append, List.append_assoc] at hr
    have hname := length_be 2 _ ▸ hr.tail.append
    rw [bind_ok (bOrd_at hr)]
    simp only [Tag.ofByte_byte]
    rw [bind_ok (unpack_at hr.tail h), unicode_at hname hv]
    simp only [List.length_cons, List.length_append, length_be, Nat.add_assoc, Nat.add_comm 1]
  | smallUnicode hp h hv =>
    subst hp
    rw [List.cons_append, List.append_assoc] at hr
    have hname := length_be 1 _ ▸ hr.tail.append
    rw [bind_ok (bOrd_at hr)]
    simp only [Tag.ofByte_byte]
    rw [bind_ok (smallLength_at hr.tail h), unicode_at hname hv]
    simp only [List.length_cons, List.length_append, length_be, Nat.add_assoc, Nat.add_comm 1]

/-- An atom that is read back where no length of one byte can be read. -/
def AtomValue.Long : AtomValue → Prop
  | .bytes name | .unicode name => 255 < name.length
  | .int _ => False

/-- An atom whose name, if it is a text, is valid. -/
def AtomValue.Valid (lib : Library) : AtomValue → Prop
  | .unicode name => lib.validUtf8 name = true
  | _ => True

/-- An atom that is read back as a node. -/
def AtomValue.Node (py3 : Bool) (lib : Library) (a : AtomValue) : Prop := a.Valid lib ∧ (py3 = true → a.Long)

theorem encode_eq {small large : Tag} {name e : List UInt8} (he : AtomValue.encode small large name = .ok e) :
    (name.length < 256 ^ 1 ∧ e = small.byte :: (be 1 name.length ++ name)) ∨
      (255 < name.length ∧ name.length < 256 ^ 2 ∧ e = large.byte :: (be 2 name.length ++ name)) := by
  unfold AtomValue.encode at he
  split at he
  · exact .inl ⟨by omega, (Except.ok.inj he).symm⟩
  · split at he
    · exact .inr ⟨by omega, by omega, (Except.ok.inj he).symm⟩
    · cases he

theorem bChr_eq {n : Int} {c : UInt8} (h : bChr n = .ok c) : c = .ofNat n.toNat ∧ (c.toNat : Int) = n := by
  unfold bChr at h
  split at h
  · rename_i hn
    have hc := (Except.ok.inj h).symm
    refine ⟨hc, ?_⟩
    rw [hc, UInt8.toNat_ofNat', Nat.mod_eq_of_lt (by omega)]
    omega
  · cases h

/-- With a name of up to 255 bytes no atom is read back as a node in Python 3. -/
theorem version_of_small {n : Nat} (hl : py3 = true → 255 < n) (h : n < 256 ^ 1) : py3 = false := by
  cases py3 with
  | false => rfl
  | true =>
    have hlong := hl rfl
    omega

theorem binary_bytes {a : AtomValue} {e : List UInt8} (hn : a.Node py3 lib) (he : a.binary = .ok e) :
    AtomBytes py3 lib e a := by
  obtain ⟨hv, hl⟩ := hn
  cases a with
  | int n =>
    obtain ⟨c, hc, he⟩ := bind_eq_ok he
    cases py3 with
    | true => exact (hl rfl).elim
    | false =>
      rw [← Except.ok.inj he, ← (bChr_eq hc).2]
      exact .cached c
  | bytes name =>
    obtain ⟨h, rfl⟩ | ⟨-, h, rfl⟩ := encode_eq he
    · exact .smallBytes (version_of_small hl h) h
    · exact .bytes h
  | unicode name =>
    obtain ⟨h, rfl⟩ | ⟨-, h, rfl⟩ := encode_eq he
    · exact .smallUnicode (version_of_small hl h) h hv
    · exact .unicode h hv

/-- The decoder reads bytes as a value, if it may call itself as deep as there are bytes. -/
def Coded (py3 : Bool) (lib : Library) (e : List UInt8) (w : Value) : Prop :=
  0 < e.length ∧ ∀ depth, e.length ≤ depth → Reads (binaryToTermAt py3 lib depth) e w

/-- What follows a tag is read by the case of the tag. -/
theorem coded_of_tag {tag : Tag} {e : List UInt8} {w : Value}
    (h : ∀ depth, e.length ≤ depth → Reads (binaryToTermOf py3 lib (binaryToTermAt py3 lib depth) tag) e w) :
    Coded py3 lib (tag.byte :: e) w := by
  refine ⟨Nat.succ_pos _, fun depth hd data i bytes hr => ?_⟩
  rw [List.length_cons] at hd
  obtain ⟨d, rfl⟩ := Nat.exists_eq_add_of_le' (show 1 ≤ depth by omega)
  rw [binaryToTermAt, bind_ok (bOrd_at hr)]
  simp only [Tag.ofByte_byte]
  rw [h d (by omega) hr.tail, List.length_cons, Nat.add_assoc, Nat.add_comm 1]

theorem smallAtom_long {name : List UInt8} (h : 255 < name.length) : smallAtom name = .otpErlangAtom (.bytes name) := by
  have htrue : name ≠ boolName true := by
    rintro rfl
    exact absurd h (by decide)
  have hfalse : name ≠ boolName false := by
    rintro rfl
    exact absurd h (by decide)
  rw [smallAtom, if_neg htrue, if_neg hfalse]

/-- A string is an atom in both versions, another name as a node. -/
def AtomValue.Named (py3 : Bool) (lib : Library) : AtomValue → Prop
  | .bytes _ => True
  | a => a.Node py3 lib

/-- The bytes of a cached atom, which are not one again in Python 3. -/
theorem cached_coded (n : UInt8) :
    Coded py3 lib [Tag.atomCacheRef.byte, n] (.otpErlangAtom (if py3 then .bytes [n] else .int n.toNat)) := by
  refine coded_of_tag fun depth _ data i bytes hr => ?_
  rw [binaryToTermOf, bind_ok (cacheRef_at hr)]
  rfl

theorem atom_coded {a : AtomValue} {e : List UInt8} (ha : a.Named py3 lib) (he : a.binary = .ok e) :
    Coded py3 lib e (restored (.otpErlangAtom a)) := by
  cases a with
  | int n =>
    obtain ⟨c, hc, he⟩ := bind_eq_ok he
    cases py3 with
    | true => exact (ha.2 rfl).elim
    | false =>
      rw [← Except.ok.inj he, ← (bChr_eq hc).2]
      exact cached_coded c
  | bytes name =>
    rw [restored]
    obtain ⟨h, rfl⟩ | ⟨hlong, h, rfl⟩ := encode_eq he
    · refine coded_of_tag fun depth _ data i bytes hr => ?_
      rw [List.append_assoc] at hr
      have hname := length_be 1 _ ▸ hr.append
      rw [binaryToTermOf, bind_ok (bOrd_length hr h)]
      simp only [(be_one h).2, slice_at hname, List.length_append, length_be, Nat.add_assoc]
      rfl
    · rw [smallAtom_long hlong]
      refine coded_of_tag fun depth _ data i bytes hr => ?_
      rw [List.append_assoc] at hr
      have hname := length_be 2 _ ▸ hr.append
      rw [binaryToTermOf, bind_ok (unpack_at hr h)]
      simp only [slice_at hname, List.length_append, length_be, Nat.add_assoc]
      rfl
  | unicode name =>
    obtain ⟨hv, hl⟩ := ha
    rw [restored]
    · obtain ⟨h, rfl⟩ | ⟨-, h, rfl⟩ := encode_eq he
      · obtain rfl := version_of_small hl h
        refine coded_of_tag fun depth _ data i bytes hr => ?_
        rw [List.append_assoc] at hr
        have hname := length_be 1 _ ▸ hr.append
        rw [binaryToTermOf, bind_ok (smallLength_at hr h), bind_ok (unicode_at hname hv)]
        simp only [List.length_append, length_be, Nat.add_assoc]
        rfl
      · refine coded_of_tag fun depth _ data i bytes hr => ?_
        rw [List.append_assoc] at hr
        have hname := length_be 2 _ ▸ hr.append
        rw [binaryToTermOf, bind_ok (unpack_at hr h), bind_ok (unicode_at hname hv)]
        simp only [List.length_append, length_be, Nat.add_assoc]
        rfl
    all_goals simp

/-! ## Terms without terms in them -/

theorem nil_coded : Coded py3 lib [Tag.nilExt.byte] (.list []) :=
  coded_of_tag fun _ _ _ _ _ _ => rfl

theorem float_coded (bits : BitVec 64) : Coded py3 lib (floatToBinary bits) (.float bits) := by
  refine coded_of_tag fun depth _ data i bytes hr => ?_
  have hlt : bits.toNat < 256 ^ 8 := lt_of_lt_of_eq bits.isLt (by decide)
  rw [binaryToTermOf, bind_ok (unpack_at hr hlt), length_be, BitVec.ofNat_toNat, BitVec.setWidth_eq]
  rfl

theorem binary_coded {value e : List UInt8} {bits : Int} (he : binaryBinary value bits = .ok e) :
    Coded py3 lib e (.otpErlangBinary value bits) := by
  unfold binaryBinary at he
  split at he
  · cases he
  · split at he
    · obtain ⟨c, hc, he⟩ := bind_eq_ok he
      rw [← Except.ok.inj he, List.cons_append, ← (bChr_eq hc).2]
      refine coded_of_tag fun depth _ data i bytes hr => ?_
      rw [List.append_assoc] at hr
      have hbits := length_be 4 value.length ▸ hr.append
      rw [binaryToTermOf, bind_ok (unpack_at hr (by omega))]
      simp only
      rw [bind_ok (bOrd_at hbits)]
      simp only [slice_at hbits.tail, List.length_append, length_be, List.length_cons, Nat.add_assoc, Nat.add_comm 1]
      rfl
    · rename_i h
      rw [← Except.ok.inj he, not_not.mp h, List.cons_append]
      refine coded_of_tag fun depth _ data i bytes hr => ?_
      rw [List.append_assoc] at hr
      have hvalue := length_be 4 value.length ▸ hr.append
      rw [binaryToTermOf, bind_ok (unpack_at hr (by omega))]
      simp only [slice_at hvalue, List.length_append, length_be, Nat.add_assoc]
      rfl

/-! ## Integers -/

theorem bignumLoop_ok {data : List UInt8} {i : Nat} {digits bytes : List UInt8} (h : At data (i + 1) (digits ++ bytes))
    {m : Nat} (hm : m ≤ digits.length) (n : Nat) :
    bignumLoop data i m n = .ok ((digits.take m).reverse.foldl (fun n b => n * 256 + b.toNat) n) := by
  induction m generalizing n with
  | zero => rfl
  | succ m ih =>
    have hsplit : digits ++ bytes = digits.take m ++ (digits[m] :: (digits.drop (m + 1) ++ bytes)) := by
      rw [← List.cons_append, ← List.append_assoc, List.getElem_cons_drop, List.take_append_drop]
    have hat := At.append (hsplit ▸ h)
    rw [List.length_take, Nat.min_eq_left (by omega), Nat.add_assoc, Nat.add_comm 1 m] at hat
    rw [bignumLoop, bind_ok (bOrd_at hat), List.take_succ_eq_append_getElem (by omega), List.reverse_append]
    exact ih (by omega) _

theorem bignum_at {data digits bytes : List UInt8} {i : Nat} {sign : UInt8} (h : At data i (sign :: digits ++ bytes)) :
    binaryToBignum i digits.length data = .ok (i + 1 + digits.length,
      .int (if sign = 1 then -(ofBe digits.reverse : Int) else ofBe digits.reverse)) := by
  have hloop := bignumLoop_ok h.tail (Nat.le_refl _) 0
  rw [List.take_length] at hloop
  rw [binaryToBignum, bind_ok (bOrd_at h), bind_ok hloop]
  rfl

/-- The sign and the digits of a number. -/
theorem bignum_value (n : Int) :
    (if (if n < 0 then 1 else 0 : UInt8) = 1 then -(ofBe (minimal n.natAbs).reverse : Int)
      else ofBe (minimal n.natAbs).reverse) = n := by
  rw [ofBe_minimal]
  by_cases hneg : n < 0
  · rw [if_pos hneg, if_pos rfl]
    omega
  · rw [if_neg hneg, if_neg (by decide)]
    omega

theorem bignum_coded {n : Int} {e : List UInt8} (he : bignumToBinary n = .ok e) : Coded py3 lib e (.int n) := by
  simp only [bignumToBinary] at he
  split at he
  · rename_i h
    rw [← Except.ok.inj he, List.cons_append]
    refine coded_of_tag fun depth _ data i bytes hr => ?_
    rw [List.append_assoc] at hr
    have hsign := length_be 1 _ ▸ hr.append
    rw [binaryToTermOf, bind_ok (bOrd_length hr (by omega)), (be_one (show _ < 256 ^ 1 by omega)).2, bignum_at hsign,
      bignum_value]
    simp only [List.length_append, length_be, List.length_cons, Nat.add_assoc, Nat.add_comm 1]
  · split at he
    · rename_i h
      rw [← Except.ok.inj he, List.cons_append]
      refine coded_of_tag fun depth _ data i bytes hr => ?_
      rw [List.append_assoc] at hr
      have hsign := length_be 4 _ ▸ hr.append
      rw [binaryToTermOf, bind_ok (unpack_at hr (by omega)), bignum_at hsign, bignum_value]
      simp only [List.length_append, length_be, List.length_cons, Nat.add_assoc, Nat.add_comm 1]
    · cases he

theorem int32_value {n : Int} (h : -2147483648 ≤ n ∧ n ≤ 2147483647) :
    (BitVec.ofNat 32 (BitVec.ofInt 32 n).toNat).toInt = n := by
  rw [BitVec.ofNat_toNat, BitVec.setWidth_eq, BitVec.toInt_ofInt, Int.bmod_eq_of_le] <;> omega

theorem smallInteger_coded (n : UInt8) : Coded py3 lib [Tag.smallIntegerExt.byte, n] (.int n.toNat) := by
  refine coded_of_tag fun depth _ data i bytes hr => ?_
  rw [binaryToTermOf, binaryToSmallInteger, bind_ok (bOrd_at hr)]
  rfl

theorem integer_coded {n : Int} (h : -2147483648 ≤ n ∧ n ≤ 2147483647) :
    Coded py3 lib (integerToBinary n) (.int n) := by
  unfold integerToBinary
  split
  · rename_i hn
    have hcoded := @smallInteger_coded py3 lib (.ofNat n.toNat)
    rw [UInt8.toNat_ofNat', Nat.mod_eq_of_lt (by omega), Int.toNat_of_nonneg hn.1] at hcoded
    exact hcoded
  · refine coded_of_tag fun depth _ data i bytes hr => ?_
    have hlt : (BitVec.ofInt 32 n).toNat < 256 ^ 4 := lt_of_lt_of_eq (BitVec.ofInt 32 n).isLt (by decide)
    rw [binaryToTermOf, binaryToInt32, bind_ok (unpack_at hr hlt), int32_value h, length_be]
    rfl

theorem long_coded {n : Int} {e : List UInt8} (he : longToBinary n = .ok e) : Coded py3 lib e (.int n) := by
  unfold longToBinary at he
  split at he
  · rename_i h
    exact Except.ok.inj he ▸ integer_coded h
  · exact bignum_coded he

/-! ## Pids, ports, references and functions -/

theorem nodeId_reads {make : AtomValue → List UInt8 → List UInt8 → Value} {node : AtomValue}
    {e id creation : List UInt8} (hn : AtomBytes py3 lib e node) (hid : id.length = 4) (hc : creation.length = 1) :
    Reads (binaryToNodeId py3 lib make) (e ++ id ++ creation) (make node id creation) := by
  intro data i bytes hr
  rw [List.append_assoc, List.append_assoc] at hr
  have hidAt := hr.append
  have hcreationAt := hid ▸ hidAt.append
  rw [binaryToNodeId, bind_ok (hn.reads hr)]
  simp only [slice_at_of_length hidAt hid, slice_at_of_length hcreationAt hc]
  simp only [List.length_append, hid, hc, Nat.add_assoc]
  rfl

theorem pidFields_reads {node : AtomValue} {e id serial creation : List UInt8} (hn : AtomBytes py3 lib e node)
    (hid : id.length = 4) (hs : serial.length = 4) (hc : creation.length = 1) :
    Reads (binaryToPidFields py3 lib) (e ++ id ++ serial ++ creation) (.otpErlangPid node id serial creation) := by
  intro data i bytes hr
  rw [List.append_assoc, List.append_assoc, List.append_assoc] at hr
  have hidAt := hr.append
  have hserialAt := hid ▸ hidAt.append
  have hcreationAt := hs ▸ hserialAt.append
  rw [binaryToPidFields, bind_ok (hn.reads hr)]
  simp only [slice_at_of_length hidAt hid, slice_at_of_length hserialAt hs, slice_at_of_length hcreationAt hc]
  simp only [List.length_append, hid, hs, hc, Nat.add_assoc]
  rfl

theorem newReference_reads {node : AtomValue} {e id creation : List UInt8} {j : Nat} (hn : AtomBytes py3 lib e node)
    (hid : id.length = 4 * j) (hj : j < 256 ^ 2) (hc : creation.length = 1) :
    Reads (binaryToNewReference py3 lib) (be 2 j ++ e ++ creation ++ id) (.otpErlangReference node id creation) := by
  intro data i bytes hr
  rw [List.append_assoc, List.append_assoc, List.append_assoc] at hr
  have hnodeAt := length_be 2 j ▸ hr.append
  have hcreationAt := hnodeAt.append
  have hidAt := hc ▸ hcreationAt.append
  rw [binaryToNewReference, bind_ok (unpack_at hr hj)]
  simp only
  rw [bind_ok (hn.reads hnodeAt)]
  simp only [slice_at_of_length hcreationAt hc, slice_at_of_length hidAt (show id.length = j * 4 by omega)]
  simp only [List.length_append, length_be, hc, hid, Nat.add_assoc, Nat.mul_comm 4 j]
  rfl

theorem pid_coded {node : AtomValue} {e id serial creation : List UInt8} (hn : node.Node py3 lib)
    (hid : id.length = 4) (hs : serial.length = 4) (hc : creation.length = 1)
    (he : pidBinary node id serial creation = .ok e) : Coded py3 lib e (.otpErlangPid node id serial creation) := by
  obtain ⟨n, hnode, he⟩ := bind_eq_ok he
  rw [← Except.ok.inj he]
  exact coded_of_tag fun _ _ => pidFields_reads (binary_bytes hn hnode) hid hs hc

theorem port_coded {node : AtomValue} {e id creation : List UInt8} (hn : node.Node py3 lib) (hid : id.length = 4)
    (hc : creation.length = 1) (he : portBinary node id creation = .ok e) :
    Coded py3 lib e (.otpErlangPort node id creation) := by
  obtain ⟨n, hnode, he⟩ := bind_eq_ok he
  rw [← Except.ok.inj he]
  exact coded_of_tag fun _ _ => nodeId_reads (binary_bytes hn hnode) hid hc

theorem reference_coded {node : AtomValue} {e id creation : List UInt8} {j : Nat} (hn : node.Node false lib)
    (hid : id.length = 4 * j) (hj : 0 < j) (hc : creation.length = 1)
    (he : referenceBinary false node id creation = .ok e) :
    Coded false lib e (.otpErlangReference node id creation) := by
  have hlength : id.length / 4 = j := by omega
  simp only [referenceBinary, hlength, Bool.false_eq_true, if_false, if_neg (show ¬ j = 0 by omega)] at he
  split at he
  · obtain ⟨n, hnode, he⟩ := bind_eq_ok he
    rw [← Except.ok.inj he]
    exact coded_of_tag fun _ _ => newReference_reads (binary_bytes hn hnode) hid (by omega) hc
  · cases he

/-- In Python 3 no reference with an id is encoded. -/
theorem reference_refused {node : AtomValue} {e id creation : List UInt8} (hid : 0 < id.length) :
    referenceBinary true node id creation ≠ .ok e := by
  intro he
  simp only [referenceBinary, if_true, if_neg (show ¬ id.length = 0 by omega)] at he
  split at he <;> cases he

/-- A function that begins with its length, which counts its own bytes. -/
theorem newFun_coded {value : List UInt8} (h : 4 ≤ value.length) (hl : ofBe (value.take 4) = value.length) :
    Coded py3 lib (Tag.newFunExt.byte :: value) (.otpErlangFunction Tag.newFunExt.byte value) := by
  refine coded_of_tag fun depth _ data i bytes hr => ?_
  have hfour : slice i 4 data = value.take 4 := by rw [slice, hr.drop, List.take_append_of_le_length h]
  have hlen : ¬ (value.take 4).length < 4 := by
    rw [List.length_take]
    omega
  have hunpack : unpack 4 i data = .ok value.length := by rw [unpack, hfour, if_neg hlen, hl]
  rw [binaryToTermOf, binaryToNewFun, bind_ok hunpack, slice_at hr]
  rfl

theorem exported_coded {m f : AtomValue} {em ef : List UInt8} (hm : AtomBytes py3 lib em m)
    (hf : AtomBytes py3 lib ef f) (arity : UInt8) :
    Coded py3 lib (Tag.exportExt.byte :: (em ++ ef ++ [Tag.smallIntegerExt.byte, arity]))
      (.otpErlangFunction Tag.exportExt.byte (em ++ ef ++ [Tag.smallIntegerExt.byte, arity])) := by
  refine coded_of_tag fun depth _ data i bytes hr => ?_
  have hmodule : At data i (em ++ (ef ++ (Tag.smallIntegerExt.byte :: arity :: bytes))) := by
    rwa [List.append_assoc, List.append_assoc] at hr
  have hfunction := hmodule.append
  have harity := hfunction.append
  have hlen : (em ++ ef ++ [Tag.smallIntegerExt.byte, arity]).length = em.length + (ef.length + (1 + 1)) := by
    rw [List.length_append, List.length_append, Nat.add_assoc]
    rfl
  rw [binaryToTermOf, binaryToExport, bind_ok (hm.reads hmodule)]
  simp only
  rw [bind_ok (hf.reads hfunction)]
  simp only
  rw [bind_ok (bOrd_at harity), if_neg (not_not.mpr rfl), bind_ok (bOrd_at harity.tail)]
  simp only [Nat.add_assoc, Nat.add_sub_cancel_left, slice_at_of_length hr hlen, hlen]
  rfl

/-! ## Terms in terms -/

/-- Terms one after another, and the values that are read of them. -/
def AllCoded (py3 : Bool) (lib : Library) (es : List (List UInt8)) (ws : List Value) : Prop :=
  List.Forall₂ (Coded py3 lib) es ws

theorem sequence_reads {es : List (List UInt8)} {ws : List Value} (h : AllCoded py3 lib es ws) {depth : Nat}
    (hd : es.flatten.length ≤ depth) :
    Reads (fun i => binaryToTermSequence (binaryToTermAt py3 lib depth) i ws.length) es.flatten ws := by
  induction h with
  | nil => exact fun data i bytes _ => rfl
  | cons hw _ ih =>
    rw [List.flatten_cons, List.length_append] at hd
    intro data i bytes hr
    rw [List.flatten_cons, List.append_assoc] at hr
    rw [List.length_cons, List.flatten_cons, List.length_append]
    show binaryToTermSequence (binaryToTermAt py3 lib depth) i (_ + 1) data = _
    rw [binaryToTermSequence, bind_ok (hw.2 depth (by omega) hr)]
    simp only
    rw [bind_ok (ih (by omega) hr.append), Nat.add_assoc]
    rfl

theorem tuple_coded {es : List (List UInt8)} {ws : List Value} {start : List UInt8} (h : AllCoded py3 lib es ws)
    (hs : tupleToBinary ws.length = .ok start) : Coded py3 lib (start ++ es.flatten) (.tuple ws) := by
  have hread : ∀ {data bytes : List UInt8} {i depth : Nat}, es.flatten.length ≤ depth →
      At data i (es.flatten ++ bytes) →
      binaryToTuple (binaryToTermAt py3 lib depth) i ws.length data = .ok (i + es.flatten.length, .tuple ws) := by
    intro data bytes i depth hd hr
    rw [binaryToTuple, bind_ok (sequence_reads h hd hr)]
    rfl
  unfold tupleToBinary at hs
  split at hs
  · rename_i hlen
    rw [← Except.ok.inj hs, List.cons_append]
    refine coded_of_tag fun depth hd data i bytes hr => ?_
    rw [List.length_append] at hd
    rw [List.append_assoc] at hr
    rw [binaryToTermOf, bind_ok (bOrd_length hr (by omega)), (be_one (show _ < 256 ^ 1 by omega)).2,
      hread (by omega) (length_be 1 _ ▸ hr.append), List.length_append, length_be, Nat.add_assoc]
  · split at hs
    · rw [← Except.ok.inj hs, List.cons_append]
      refine coded_of_tag fun depth hd data i bytes hr => ?_
      rw [List.length_append] at hd
      rw [List.append_assoc] at hr
      rw [binaryToTermOf, bind_ok (unpack_at hr (by omega)), hread (by omega) (length_be 4 _ ▸ hr.append),
        List.length_append, length_be, Nat.add_assoc]
    · cases hs

theorem list_coded {es : List (List UInt8)} {ws : List Value} {e : List UInt8} {tail : Value}
    (h : AllCoded py3 lib es ws) (hlt : ws.length < 256 ^ 4) (ht : Coded py3 lib e tail) :
    Coded py3 lib (Tag.listExt.byte :: (be 4 ws.length ++ es.flatten ++ e)) (listWithTail ws tail) := by
  refine coded_of_tag fun depth hd data i bytes hr => ?_
  rw [List.length_append, List.length_append] at hd
  rw [List.append_assoc, List.append_assoc] at hr
  have hseq := length_be 4 ws.length ▸ hr.append
  rw [binaryToTermOf, binaryToList, bind_ok (unpack_at hr hlt)]
  simp only
  rw [bind_ok (sequence_reads h (by omega) hseq)]
  simp only
  rw [bind_ok (ht.2 depth (by omega) hseq.append), List.length_append, List.length_append, length_be]
  simp only [Nat.add_assoc]
  rfl

/-- A string, also one that is encoded as the list of its bytes. -/
theorem string_coded {s e : List UInt8} (he : stringToBinary s = .ok e) : Coded py3 lib e (restoredString s) := by
  unfold stringToBinary at he
  unfold restoredString
  split at he
  · rename_i h
    rw [if_pos h, ← Except.ok.inj he]
    exact nil_coded
  · rename_i hne
    rw [if_neg hne]
    split at he
    · rename_i h
      rw [if_pos h, ← Except.ok.inj he, List.cons_append]
      refine coded_of_tag fun depth _ data i bytes hr => ?_
      rw [List.append_assoc] at hr
      have hs := length_be 2 _ ▸ hr.append
      rw [binaryToTermOf, bind_ok (unpack_at hr (by omega))]
      simp only [slice_at hs, List.length_append, length_be, Nat.add_assoc]
      rfl
    · rename_i hlong
      rw [if_neg hlong]
      split at he
      · have hall : AllCoded py3 lib (s.map fun c => [Tag.smallIntegerExt.byte, c]) (s.map fun c => .int c.toNat) := by
          refine List.forall₂_map_left_iff.mpr (List.forall₂_map_right_iff.mpr (List.forall₂_same.mpr fun c _ => ?_))
          exact smallInteger_coded c
        have hlist := list_coded hall (by rw [List.length_map]; omega) nil_coded
        rw [List.length_map, ← List.flatMap_def] at hlist
        rw [← Except.ok.inj he]
        exact hlist
      · cases he

/-- The bytes of a key and of its value, one after the other. -/
def pairBytes (es : List (List UInt8 × List UInt8)) : List UInt8 := es.flatMap fun e => e.1 ++ e.2

/-- Pairs one after another, and the pairs that are read of them. -/
def AllPairsCoded (py3 : Bool) (lib : Library) (es : List (List UInt8 × List UInt8)) (ws : List (Value × Value)) :
    Prop :=
  List.Forall₂ (fun e w => Coded py3 lib e.1 w.1 ∧ Coded py3 lib e.2 w.2) es ws

/-- The pairs of a `dict`, under the keys that it has for them. -/
def keyed (ws : List (Value × Value)) : List (Value × Value) := ws.map fun w => (keyOf w.1, w.2)

/-- The keys have a hash, and no two of them are one key of a `dict`. -/
def Distinct (py3 : Bool) (lib : Library) (pairs : List (Value × Value)) : Prop :=
  (∀ p ∈ pairs, hash py3 p.1 = .ok ()) ∧ pairs.Pairwise fun p q => sameKey py3 lib p.1 q.1 = .ok false

/-- A key that is not there yet goes to the end. -/
theorem storeHashed_new {key value : Value} {pairs : List (Value × Value)}
    (h : ∀ p ∈ pairs, sameKey py3 lib p.1 key = .ok false) :
    storeHashed py3 lib key value pairs = .ok (pairs ++ [(key, value)]) := by
  induction pairs with
  | nil => rfl
  | cons p pairs ih =>
    have hrest := ih fun q hq => h q (List.mem_cons_of_mem p hq)
    rw [storeHashed, bind_ok (h p List.mem_cons_self), if_neg Bool.false_ne_true, bind_ok hrest]
    rfl

theorem pairs_reads {es : List (List UInt8 × List UInt8)} {ws : List (Value × Value)} (acc : List (Value × Value))
    (h : AllPairsCoded py3 lib es ws) (hk : Distinct py3 lib (acc ++ keyed ws)) {depth : Nat}
    (hd : (pairBytes es).length ≤ depth) :
    Reads (fun i => binaryToPairs py3 lib (binaryToTermAt py3 lib depth) i ws.length acc) (pairBytes es)
      (acc ++ keyed ws) := by
  induction h generalizing acc with
  | nil =>
    rw [keyed, List.map_nil, List.append_nil]
    exact fun data i bytes _ => rfl
  | @cons e w es ws hw _ ih =>
    rw [pairBytes, List.flatMap_cons, ← pairBytes, List.length_append, List.length_append] at hd
    rw [keyed, List.map_cons, ← keyed] at hk ⊢
    intro data i bytes hr
    rw [pairBytes, List.flatMap_cons, ← pairBytes] at hr ⊢
    have hhash : hash py3 (keyOf w.1) = .ok () := hk.1 _ (List.mem_append_right _ List.mem_cons_self)
    have hnew : ∀ p ∈ acc, sameKey py3 lib p.1 (keyOf w.1) = .ok false := fun p hp =>
      (List.pairwise_append.mp hk.2).2.2 p hp _ List.mem_cons_self
    have hstore : store py3 lib w.1 w.2 acc = .ok (acc ++ [(keyOf w.1, w.2)]) := by
      rw [store, bind_ok hhash, storeHashed_new hnew]
    rw [List.append_assoc, List.append_assoc] at hr
    rw [List.length_cons]
    show binaryToPairs py3 lib (binaryToTermAt py3 lib depth) i (_ + 1) acc data = _
    rw [binaryToPairs, bind_ok (hw.1.2 depth (by omega) hr)]
    simp only
    rw [bind_ok (hw.2.2 depth (by omega) hr.append)]
    simp only
    rw [bind_ok hstore]
    have hrest := ih (acc ++ [(keyOf w.1, w.2)]) (by rwa [List.append_assoc]) (by omega) hr.append.append
    rw [List.append_assoc] at hrest
    rw [List.length_append, List.length_append]
    simp only [Nat.add_assoc] at hrest ⊢
    exact hrest

theorem dict_coded {es : List (List UInt8 × List UInt8)} {ws : List (Value × Value)} (h : AllPairsCoded py3 lib es ws)
    (hlt : ws.length < 256 ^ 4) (hk : Distinct py3 lib (keyed ws)) :
    Coded py3 lib (Tag.mapExt.byte :: (be 4 ws.length ++ pairBytes es)) (.dict (keyed ws)) := by
  refine coded_of_tag fun depth hd data i bytes hr => ?_
  rw [List.length_append] at hd
  rw [List.append_assoc] at hr
  have hpairs := length_be 4 ws.length ▸ hr.append
  rw [binaryToTermOf, binaryToMap, bind_ok (unpack_at hr hlt)]
  simp only
  rw [bind_ok (pairs_reads [] h hk (by omega) hpairs), List.length_append, length_be, Nat.add_assoc]
  rfl

/-- The bytes of a small integer, or of one of four bytes. -/
inductive IntegerBytes : List UInt8 → Prop
  | small (n : UInt8) : IntegerBytes [Tag.smallIntegerExt.byte, n]
  | int32 {n : Nat} (h : n < 256 ^ 4) : IntegerBytes (Tag.integerExt.byte :: be 4 n)

theorem IntegerBytes.reads {e : List UInt8} (h : IntegerBytes e) : ∃ n, Reads binaryToInteger e n := by
  cases h with
  | small n =>
    refine ⟨.int n.toNat, fun data i bytes hr => ?_⟩
    rw [binaryToInteger, bind_ok (bOrd_at hr)]
    simp only [Tag.ofByte_byte]
    rw [binaryToSmallInteger, bind_ok (bOrd_at hr.tail)]
    rfl
  | @int32 n h =>
    refine ⟨.int (BitVec.ofNat 32 n).toInt, fun data i bytes hr => ?_⟩
    rw [binaryToInteger, bind_ok (bOrd_at hr)]
    simp only [Tag.ofByte_byte]
    rw [binaryToInt32, bind_ok (unpack_at hr.tail h), List.length_cons, length_be]
    rfl

/-- The start of a function with free variables: how many, its pid, module, index and unique number. -/
inductive FunStart (py3 : Bool) (lib : Library) : Nat → List UInt8 → Prop
  | mk {numfree : Nat} {node module : AtomValue} {en em id serial creation index uniq : List UInt8}
      (h : numfree < 256 ^ 4) (hn : AtomBytes py3 lib en node) (hid : id.length = 4) (hs : serial.length = 4)
      (hc : creation.length = 1) (hm : AtomBytes py3 lib em module) (hi : IntegerBytes index)
      (hu : IntegerBytes uniq) :
      FunStart py3 lib numfree (be 4 numfree ++ (Tag.pidExt.byte :: (en ++ id ++ serial ++ creation)) ++ em ++
        index ++ uniq)

theorem pid_reads {node : AtomValue} {e id serial creation : List UInt8} (hn : AtomBytes py3 lib e node)
    (hid : id.length = 4) (hs : serial.length = 4) (hc : creation.length = 1) :
    Reads (binaryToPid py3 lib) (Tag.pidExt.byte :: (e ++ id ++ serial ++ creation))
      (.otpErlangPid node id serial creation) := by
  intro data i bytes hr
  rw [binaryToPid, bind_ok (bOrd_at hr)]
  simp only [Tag.ofByte_byte]
  rw [pidFields_reads hn hid hs hc hr.tail, List.length_cons, Nat.add_assoc, Nat.add_comm 1]

theorem closure_coded {start : List UInt8} {es : List (List UInt8)} {ws : List Value}
    (hs : FunStart py3 lib ws.length start) (h : AllCoded py3 lib es ws) :
    Coded py3 lib (Tag.funExt.byte :: (start ++ es.flatten))
      (.otpErlangFunction Tag.funExt.byte (start ++ es.flatten)) := by
  refine coded_of_tag fun depth hd data i bytes hr => ?_
  rw [List.length_append] at hd
  obtain ⟨hlt, hn, hid, hser, hc, hm, hi, hu⟩ := hs
  rename_i node module en em id serial creation eindex euniq
  obtain ⟨n, hindex⟩ := hi.reads
  obtain ⟨u, huniq⟩ := hu.reads
  have hpid := pid_reads hn hid hser hc
  generalize Tag.pidExt.byte :: (en ++ id ++ serial ++ creation) = pid at hr hpid hd ⊢
  have hfree : At data i (be 4 ws.length ++ (pid ++ (em ++ (eindex ++ (euniq ++ (es.flatten ++ bytes)))))) := by
    simpa only [List.append_assoc] using hr
  have hpidAt := length_be 4 ws.length ▸ hfree.append
  have hmoduleAt := hpidAt.append
  have hindexAt := hmoduleAt.append
  have huniqAt := hindexAt.append
  have hseqAt := huniqAt.append
  have hlen : (be 4 ws.length ++ pid ++ em ++ eindex ++ euniq ++ es.flatten).length =
      4 + (pid.length + (em.length + (eindex.length + (euniq.length + es.flatten.length)))) := by
    simp only [List.length_append, length_be, Nat.add_assoc]
  rw [binaryToTermOf, binaryToFun, bind_ok (unpack_at hfree hlt)]
  simp only
  rw [bind_ok (hpid hpidAt)]
  simp only
  rw [bind_ok (hm.reads hmoduleAt)]
  simp only
  rw [bind_ok (hindex hindexAt)]
  simp only
  rw [bind_ok (huniq huniqAt)]
  simp only
  rw [bind_ok (sequence_reads h (by omega) hseqAt)]
  simp only [Nat.add_assoc, Nat.add_sub_cancel_left, slice_at_of_length hr hlen, hlen]
  rfl

/-! ## The values -/

/-- A value whose parts are what the decoder can keep, or that is not encoded at all. -/
inductive Fits (py3 : Bool) (lib : Library) : Value → Prop
  | bytes (s : List UInt8) : Fits py3 lib (.bytes s)
  | unicode (s : List UInt8) : Fits py3 lib (.unicode s)
  | list {vs : List Value} (h : ∀ v ∈ vs, Fits py3 lib v) : Fits py3 lib (.list vs)
  | tuple {vs : List Value} (h : ∀ v ∈ vs, Fits py3 lib v) : Fits py3 lib (.tuple vs)
  | int (n : Int) : Fits py3 lib (.int n)
  | float (bits : BitVec 64) : Fits py3 lib (.float bits)
  | dict {pairs : List (Value × Value)} (hk : ∀ p ∈ pairs, Fits py3 lib p.1) (hv : ∀ p ∈ pairs, Fits py3 lib p.2)
      (hh : ∀ p ∈ pairs, hash py3 p.1 = .ok ()) (hd : Distinct py3 lib (restoredPairs pairs)) :
      Fits py3 lib (.dict pairs)
  | bool (b : Bool) : Fits py3 lib (.bool b)
  | otpErlangAtom {value : AtomValue} (h : value.Named py3 lib) : Fits py3 lib (.otpErlangAtom value)
  | otpErlangList {vs : List Value} (improper : Bool) (h : ∀ v ∈ vs, Fits py3 lib v) :
      Fits py3 lib (.otpErlangList vs improper)
  | otpErlangBinary (value : List UInt8) (bits : Int) : Fits py3 lib (.otpErlangBinary value bits)
  | newFun {value : List UInt8} (h : 4 ≤ value.length) (hl : ofBe (value.take 4) = value.length) :
      Fits py3 lib (.otpErlangFunction Tag.newFunExt.byte value)
  | exported {m f : AtomValue} {em ef : List UInt8} (hm : AtomBytes py3 lib em m) (hf : AtomBytes py3 lib ef f)
      (arity : UInt8) :
      Fits py3 lib (.otpErlangFunction Tag.exportExt.byte (em ++ ef ++ [Tag.smallIntegerExt.byte, arity]))
  | closure {start : List UInt8} {es : List (List UInt8)} {ws : List Value} (hs : FunStart py3 lib ws.length start)
      (h : AllCoded py3 lib es ws) : Fits py3 lib (.otpErlangFunction Tag.funExt.byte (start ++ es.flatten))
  | otpErlangReference {node : AtomValue} {id creation : List UInt8} {j : Nat} (hp : py3 = false)
      (hn : node.Node py3 lib) (hid : id.length = 4 * j) (hj : 0 < j) (hc : creation.length = 1) :
      Fits py3 lib (.otpErlangReference node id creation)
  | otpErlangPort {node : AtomValue} {id creation : List UInt8} (hn : node.Node py3 lib) (hid : id.length = 4)
      (hc : creation.length = 1) : Fits py3 lib (.otpErlangPort node id creation)
  | otpErlangPid {node : AtomValue} {id serial creation : List UInt8} (hn : node.Node py3 lib) (hid : id.length = 4)
      (hs : serial.length = 4) (hc : creation.length = 1) : Fits py3 lib (.otpErlangPid node id serial creation)
  | refused {v : Value} (h : ∀ e, termToBinaryOf py3 v ≠ .ok e) : Fits py3 lib v

/-- The bytes of a value, where it is encoded, are read as what is restored of it. -/
def Encoded (py3 : Bool) (lib : Library) (v : Value) : Prop :=
  ∀ e, termToBinaryOf py3 v = .ok e → Coded py3 lib e (restored v)

theorem writes (py3 : Bool) : Writes (termToBinaryOf py3) (sequenceToBinary py3) :=
  ⟨by rw [sequenceToBinary], fun a l => by rw [sequenceToBinary]; rfl⟩

theorem sequence_coded {vs : List Value} (h : ∀ v ∈ vs, Encoded py3 lib v) {e : List UInt8}
    (he : sequenceToBinary py3 vs = .ok e) : ∃ es, e = es.flatten ∧ AllCoded py3 lib es (vs.map restored) := by
  obtain ⟨es, ws, rfl, hws, hmap⟩ := (writes py3).read (P := Coded py3 lib) (d := id) (c := restored)
    (fun v hv e he => ⟨restored v, h v hv e he, rfl⟩) he
  rw [List.map_id] at hmap
  exact ⟨es, rfl, hmap ▸ hws⟩

theorem pairs_coded {pairs : List (Value × Value)} (hk : ∀ p ∈ pairs, Encoded py3 lib p.1)
    (hv : ∀ p ∈ pairs, Encoded py3 lib p.2) {e : List UInt8} (he : pairsToBinary py3 pairs = .ok e) :
    ∃ es, e = pairBytes es ∧ AllPairsCoded py3 lib es (pairs.map fun p => (restored p.1, restored p.2)) := by
  induction pairs generalizing e with
  | nil =>
    rw [pairsToBinary] at he
    exact ⟨[], (Except.ok.inj he).symm, .nil⟩
  | cons p pairs ih =>
    rw [pairsToBinary] at he
    obtain ⟨e₁, he₁, he⟩ := bind_eq_ok he
    obtain ⟨e₂, he₂, he⟩ := bind_eq_ok he
    obtain ⟨e₃, he₃, he⟩ := bind_eq_ok he
    have hkey := hk p List.mem_cons_self e₁ he₁
    have hvalue := hv p List.mem_cons_self e₂ he₂
    obtain ⟨es, rfl, hws⟩ :=
      ih (fun q hq => hk q (List.mem_cons_of_mem p hq)) (fun q hq => hv q (List.mem_cons_of_mem p hq)) he₃
    exact ⟨(e₁, e₂) :: es, (Except.ok.inj he).symm, .cons ⟨hkey, hvalue⟩ hws⟩

/-- A list is encoded as the proper `OtpErlangList` of its elements. -/
theorem termToBinaryOf_list (vs : List Value) :
    termToBinaryOf py3 (.list vs) = termToBinaryOf py3 (.otpErlangList vs false) := by
  rw [termToBinaryOf, termToBinaryOf]

theorem list_encoded {vs : List Value} (improper : Bool) (h : ∀ v ∈ vs, Encoded py3 lib v) :
    Encoded py3 lib (.otpErlangList vs improper) := by
  intro e he
  rw [termToBinaryOf] at he
  rw [restored, restoredSequence_eq]
  split at he
  · rename_i hnil
    rw [← Except.ok.inj he, List.length_eq_zero_iff.mp hnil]
    exact nil_coded
  · rename_i hne
    split at he
    · cases he
    · rename_i hle
      obtain ⟨elements, hes, he⟩ := bind_eq_ok he
      rw [← Except.ok.inj he]
      cases improper with
      | false =>
        obtain ⟨es, rfl, hws⟩ := sequence_coded h hes
        have hlist := list_coded hws (by rw [List.length_map]; omega) (@nil_coded py3 lib)
        rw [List.length_map] at hlist
        rw [restoredList_proper]
        exact hlist
      | true =>
        obtain rfl | ⟨init, tail, rfl⟩ := List.eq_nil_or_concat' vs
        · exact absurd rfl hne
        · obtain ⟨e₁, e₂, rfl, hinit, htail⟩ := (writes py3).concat hes
          obtain ⟨es, rfl, hws⟩ := sequence_coded (fun v hv => h v (List.mem_append_left _ hv)) hinit
          have hw := h tail (List.mem_append_right _ (List.mem_singleton_self tail)) e₂ htail
          rw [List.length_append, List.length_singleton] at hle ⊢
          have hlist := list_coded hws (by rw [List.length_map]; omega) hw
          rw [List.length_map, List.append_assoc] at hlist
          rw [List.map_append, List.map_singleton, restoredList_improper]
          exact hlist

theorem dict_encoded {pairs : List (Value × Value)} (hk : ∀ p ∈ pairs, Encoded py3 lib p.1)
    (hv : ∀ p ∈ pairs, Encoded py3 lib p.2) (hd : Distinct py3 lib (restoredPairs pairs)) :
    Encoded py3 lib (.dict pairs) := by
  intro e he
  have hkeyed : restoredPairs pairs = keyed (pairs.map fun p => (restored p.1, restored p.2)) := by
    rw [restoredPairs_eq, keyed, List.map_map]
    rfl
  rw [termToBinaryOf] at he
  split at he
  · rename_i hle
    obtain ⟨elements, hes, he⟩ := bind_eq_ok he
    obtain ⟨es, rfl, hws⟩ := pairs_coded hk hv hes
    rw [hkeyed] at hd
    have hdict := dict_coded hws (by rw [List.length_map]; omega) hd
    rw [List.length_map] at hdict
    rw [← Except.ok.inj he, restored, hkeyed]
    exact hdict
  · cases he

theorem tuple_encoded {vs : List Value} (h : ∀ v ∈ vs, Encoded py3 lib v) : Encoded py3 lib (.tuple vs) := by
  intro e he
  rw [termToBinaryOf] at he
  obtain ⟨start, hs, he⟩ := bind_eq_ok he
  obtain ⟨elements, hes, he⟩ := bind_eq_ok he
  obtain ⟨es, rfl, hws⟩ := sequence_coded h hes
  rw [restored, restoredSequence_eq, ← Except.ok.inj he]
  refine tuple_coded hws ?_
  rwa [List.length_map]

theorem function_encoded {tag : UInt8} {value : List UInt8}
    (h : Coded py3 lib (tag :: value) (.otpErlangFunction tag value)) :
    Encoded py3 lib (.otpErlangFunction tag value) := by
  intro e he
  rw [termToBinaryOf] at he
  rw [← Except.ok.inj he]
  exact h

/-- The bytes of a value whose parts fit are read as what is restored of it. -/
theorem fits_encoded {v : Value} (h : Fits py3 lib v) : Encoded py3 lib v := by
  induction h with
  | bytes s =>
    intro e he
    rw [termToBinaryOf] at he
    exact string_coded he
  | unicode s =>
    intro e he
    rw [termToBinaryOf] at he
    exact string_coded he
  | list _ ih =>
    intro e he
    rw [termToBinaryOf_list] at he
    have hlist := list_encoded false ih e he
    rwa [restored, restoredList_proper, ← restored] at hlist
  | tuple _ ih => exact tuple_encoded ih
  | int n =>
    intro e he
    rw [termToBinaryOf] at he
    exact long_coded he
  | float bits =>
    intro e he
    rw [termToBinaryOf] at he
    exact Except.ok.inj he ▸ float_coded bits
  | dict _ _ _ hd ihk ihv => exact dict_encoded ihk ihv hd
  | bool b =>
    intro e he
    rw [termToBinaryOf] at he
    have hatom := @atom_coded py3 lib (.bytes (boolName b)) e trivial he
    cases b <;> exact hatom
  | otpErlangAtom h =>
    intro e he
    rw [termToBinaryOf] at he
    exact atom_coded h he
  | otpErlangList improper _ ih => exact list_encoded improper ih
  | otpErlangBinary value bits =>
    intro e he
    rw [termToBinaryOf] at he
    exact binary_coded he
  | newFun h hl => exact function_encoded (newFun_coded h hl)
  | exported hm hf arity => exact function_encoded (exported_coded hm hf arity)
  | closure hs h => exact function_encoded (closure_coded hs h)
  | otpErlangReference hp hn hid hj hc =>
    obtain rfl := hp
    intro e he
    rw [termToBinaryOf] at he
    exact reference_coded hn hid hj hc he
  | otpErlangPort hn hid hc =>
    intro e he
    rw [termToBinaryOf] at he
    exact port_coded hn hid hc he
  | otpErlangPid hn hid hs hc =>
    intro e he
    rw [termToBinaryOf] at he
    exact pid_coded hn hid hs hc he
  | refused h => exact fun e he => absurd he (h e)

/-! ## What is encoded with a value -/

/-- A value that is encoded. -/
def Encodes (py3 : Bool) (v : Value) : Prop := ∃ e, termToBinaryOf py3 v = .ok e

theorem encodes_of_sequence {vs : List Value} {e : List UInt8} (he : sequenceToBinary py3 vs = .ok e) :
    ∀ v ∈ vs, Encodes py3 v := by
  induction vs generalizing e with
  | nil => exact fun v hv => absurd hv List.not_mem_nil
  | cons u vs ih =>
    rw [sequenceToBinary] at he
    obtain ⟨e₁, he₁, he⟩ := bind_eq_ok he
    obtain ⟨e₂, he₂, -⟩ := bind_eq_ok he
    intro v hv
    rcases List.mem_cons.mp hv with rfl | hv
    · exact ⟨e₁, he₁⟩
    · exact ih he₂ v hv

theorem encodes_of_pairs {pairs : List (Value × Value)} {e : List UInt8} (he : pairsToBinary py3 pairs = .ok e) :
    ∀ p ∈ pairs, Encodes py3 p.1 ∧ Encodes py3 p.2 := by
  induction pairs generalizing e with
  | nil => exact fun p hp => absurd hp List.not_mem_nil
  | cons q pairs ih =>
    rw [pairsToBinary] at he
    obtain ⟨e₁, he₁, he⟩ := bind_eq_ok he
    obtain ⟨e₂, he₂, he⟩ := bind_eq_ok he
    obtain ⟨e₃, he₃, -⟩ := bind_eq_ok he
    intro p hp
    rcases List.mem_cons.mp hp with rfl | hp
    · exact ⟨⟨e₁, he₁⟩, e₂, he₂⟩
    · exact ih he₃ p hp

theorem encodes_of_list {vs : List Value} {improper : Bool} (h : Encodes py3 (.otpErlangList vs improper)) :
    vs.length < 256 ^ 4 ∧ ∀ v ∈ vs, Encodes py3 v := by
  obtain ⟨e, he⟩ := h
  rw [termToBinaryOf] at he
  split at he
  · rename_i hnil
    obtain rfl := List.length_eq_zero_iff.mp hnil
    exact ⟨by decide, fun v hv => absurd hv List.not_mem_nil⟩
  · split at he
    · cases he
    · obtain ⟨es, hes, -⟩ := bind_eq_ok he
      exact ⟨by omega, encodes_of_sequence hes⟩

theorem encodes_of_tuple {vs : List Value} (h : Encodes py3 (.tuple vs)) : ∀ v ∈ vs, Encodes py3 v := by
  obtain ⟨e, he⟩ := h
  rw [termToBinaryOf] at he
  obtain ⟨start, -, he⟩ := bind_eq_ok he
  obtain ⟨es, hes, -⟩ := bind_eq_ok he
  exact encodes_of_sequence hes

theorem encodes_of_dict {pairs : List (Value × Value)} (h : Encodes py3 (.dict pairs)) :
    ∀ p ∈ pairs, Encodes py3 p.1 ∧ Encodes py3 p.2 := by
  obtain ⟨e, he⟩ := h
  rw [termToBinaryOf] at he
  split at he
  · obtain ⟨es, hes, -⟩ := bind_eq_ok he
    exact encodes_of_pairs hes
  · cases he

/-! ## What is restored denotes the same -/

theorem denote_bytes (s : List UInt8) : denoteList (s.map fun c => .int c.toNat) false = .ofBytes s := by
  rw [denoteList_proper]
  induction s with
  | nil => rfl
  | cons c s ih =>
    rw [List.map_cons, List.map_cons, List.foldr_cons, ih, denote, Term.ofBytes]

theorem denote_restoredString (s : List UInt8) : denote (restoredString s) = .ofBytes s := by
  unfold restoredString
  split
  · rename_i h
    rw [List.length_eq_zero_iff.mp h, denote, denoteList, Term.ofBytes]
  · split
    · rw [denote]
    · rw [denote, denote_bytes]

theorem denote_smallAtom (name : List UInt8) : denote (smallAtom name) = .atom name := by
  unfold smallAtom
  split
  · rename_i h
    rw [denote, h]
  · split
    · rename_i h
      rw [denote, h]
    · rw [denote]
      rfl

theorem denote_restoredList {vs ws : List Value} (improper : Bool) (h : ws.map denote = vs.map denote) :
    denote (restoredList ws improper) = denoteList vs improper := by
  cases improper with
  | false => rw [restoredList_proper, denote, denoteList_proper, denoteList_proper, h]
  | true =>
    obtain rfl | ⟨init, tail, rfl⟩ := List.eq_nil_or_concat' vs
    · rw [List.map_eq_nil_iff.mp h]
      rfl
    · obtain rfl | ⟨init', tail', rfl⟩ := List.eq_nil_or_concat' ws
      · simp at h
      · rw [List.map_append, List.map_append, List.map_singleton, List.map_singleton] at h
        obtain ⟨hinit, htail⟩ := List.append_inj' h rfl
        rw [restoredList_improper, denote_listWithTail, denoteList_improper, hinit, List.head_eq_of_cons_eq htail]

/-- A key that has a hash is no `dict`, so that its key is read back as it is. -/
theorem denote_keyOf {v : Value} (h : ∀ pairs, v ≠ .dict pairs) : denote (keyOf v) = denote v := by
  unfold keyOf
  split
  · exact absurd rfl (h _)
  · rw [denote, denote]
  · rfl

theorem restoredString_not_dict (s : List UInt8) (pairs : List (Value × Value)) : restoredString s ≠ .dict pairs := by
  unfold restoredString
  split
  · exact Value.noConfusion
  · split <;> exact Value.noConfusion

theorem smallAtom_not_dict (name : List UInt8) (pairs : List (Value × Value)) : smallAtom name ≠ .dict pairs := by
  unfold smallAtom
  split
  · exact Value.noConfusion
  · split <;> exact Value.noConfusion

theorem restoredList_not_dict (vs : List Value) (improper : Bool) (pairs : List (Value × Value)) :
    restoredList vs improper ≠ .dict pairs := by
  unfold restoredList
  split
  · cases improper with
    | false => exact Value.noConfusion
    | true =>
      simp only [if_true]
      unfold listWithTail
      split <;> exact Value.noConfusion
  · exact Value.noConfusion

theorem restored_not_dict {v : Value} (h : hash py3 v = .ok ()) (pairs : List (Value × Value)) :
    restored v ≠ .dict pairs := by
  cases v with
  | bytes s => exact restoredString_not_dict s pairs
  | unicode s => exact restoredString_not_dict s pairs
  | dict ps =>
    rw [hash] at h
    cases h
  | otpErlangAtom value =>
    cases value with
    | bytes name => exact smallAtom_not_dict name pairs
    | unicode name => exact Value.noConfusion
    | int n => exact Value.noConfusion
  | otpErlangList vs improper => exact restoredList_not_dict _ improper pairs
  | _ => exact Value.noConfusion

theorem map_restored {vs : List Value} (h : ∀ v ∈ vs, denote (restored v) = denote v) :
    (vs.map restored).map denote = vs.map denote := by
  rw [List.map_map]
  exact List.map_congr_left h

/-- What is restored of a value that is encoded denotes the same Erlang term, if its parts fit. -/
theorem denote_restored {v : Value} (h : Fits py3 lib v) (he : Encodes py3 v) : denote (restored v) = denote v := by
  induction h with
  | bytes s => rw [restored, denote_restoredString, denote]
  | unicode s => rw [restored, denote_restoredString, denote]
  | list _ ih =>
    rw [Encodes, termToBinaryOf_list] at he
    have hsame := map_restored fun v hv => ih v hv ((encodes_of_list he).2 v hv)
    rw [restored, denote, denote, restoredSequence_eq, denoteList_proper, denoteList_proper, hsame]
  | tuple _ ih =>
    have hsame := map_restored fun v hv => ih v hv (encodes_of_tuple he v hv)
    rw [restored, denote, denote, restoredSequence_eq, denoteSequence_eq, denoteSequence_eq, hsame]
  | dict _ _ hh _ ihk ihv =>
    rw [restored, denote, denote, restoredPairs_eq, denotePairs_eq, denotePairs_eq, List.map_map]
    refine congrArg Term.map (List.map_congr_left fun p hp => ?_)
    obtain ⟨hek, hev⟩ := encodes_of_dict he p hp
    show (denote (keyOf (restored p.1)), denote (restored p.2)) = _
    rw [denote_keyOf (restored_not_dict (hh p hp)), ihk p hp hek, ihv p hp hev]
  | @otpErlangAtom value h =>
    cases value with
    | bytes name =>
      rw [restored, denote_smallAtom, denote]
      rfl
    | unicode name => rfl
    | int n => rfl
  | otpErlangList improper _ ih =>
    have hsame := map_restored fun v hv => ih v hv ((encodes_of_list he).2 v hv)
    rw [restored, restoredSequence_eq, denote_restoredList improper hsame, denote]
  | refused h =>
    obtain ⟨e, he⟩ := he
    exact absurd he (h e)
  | _ => rfl

/-! ## Whole data -/

theorem binaryToTerm_coded {e : List UInt8} {w : Value} (h : Coded py3 lib e w) {depth : Nat} (hd : e.length ≤ depth) :
    binaryToTerm py3 lib depth (tagVersion :: e) = .ok w := by
  have hpos := h.1
  have hat : At (tagVersion :: e) 0 (tagVersion :: (e ++ [])) := by rw [List.append_nil]; exact At.start _
  have hread := h.2 depth hd hat.tail
  have hend : ¬ 0 + 1 + e.length ≠ (tagVersion :: e).length := by
    rw [List.length_cons]
    omega
  have hversion : ¬ (tagVersion :: e).head? ≠ some tagVersion := not_not.mpr rfl
  unfold binaryToTerm
  rw [if_neg (by rw [List.length_cons]; omega), if_neg hversion, hread]
  simp only [if_neg hend]

/-- What is encoded is decoded as what is restored of it, however deep it is nested. -/
theorem decoded_of_encoded {v : Value} (h : Fits py3 lib v) {data : List UInt8} (he : termToBinary py3 v = .ok data)
    {depth : Nat} (hd : data.length ≤ depth) : binaryToTerm py3 lib depth data = .ok (restored v) := by
  obtain ⟨e, hterm, he⟩ := bind_eq_ok he
  rw [← Except.ok.inj he] at hd ⊢
  refine binaryToTerm_coded (fits_encoded h e hterm) ?_
  rw [List.length_cons] at hd
  omega

end CloudI.Api.Python.Erlang
