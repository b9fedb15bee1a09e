import CloudI.Api.Ruby.Codec
import CloudI.Framework.Exn
import Mathlib.Data.List.Basic

/-!
# What the Ruby codec encodes is decoded again

`denote` is the Erlang term that a Ruby value stands for, and `Fits` are the
values whose parts the format has a place for. The decoder reads the bytes of
such a value, wherever they stand, as a value that denotes the same
(`fits_coded`).
-/

namespace CloudI.Api.Ruby

open Slices

/-! ## What a value denotes -/

/-- The atom of a name. -/
def AtomValue.denote : AtomValue → Term
  | .latin1 name => .atom name
  | .utf8 name => .atomUtf8 name
  | .cacheRef n => .atomCacheRef n

/-- A node, with one tag for each kind of name. -/
def AtomValue.nodeTag : AtomValue → UInt8
  | .latin1 _ => Tag.atomExt.byte
  | .utf8 _ => Tag.atomUtf8Ext.byte
  | .cacheRef _ => Tag.atomCacheRef.byte

def AtomValue.bytes : AtomValue → List UInt8
  | .latin1 name | .utf8 name => name
  | .cacheRef n => [n]

/-- `0.0` and `-0.0` are one key of a `Hash`, and one term. -/
def denoteFloat (bits : BitVec 64) : Term := .float (if bits = .ofNat 64 (2 ^ 63) then 0 else bits)

mutual

/-- The Erlang term that a value denotes. -/
def denote : Value → Term
  | .string s => .ofBytes s
  | .array value => .tuple (denoteSequence value)
  | .float bits => denoteFloat bits
  | .integer n => .int n
  | .hash pairs => .map (denotePairs pairs)
  | .symbol name => name.denote
  | .bool b => .atom (boolName b)
  | .otpErlangAtom value => value.denote
  | .otpErlangList value improper => denoteList value improper
  | .otpErlangBinary value bits => .bitstring value bits
  | .otpErlangFunction tag value => .function tag value
  | .otpErlangReference node id creation => .reference node.nodeTag node.bytes id (creation.headD 0)
  | .otpErlangPort node id creation => .port node.nodeTag node.bytes id (creation.headD 0)
  | .otpErlangPid node id serial creation => .pid node.nodeTag node.bytes id serial (creation.headD 0)
  | .nil | .other => .nil

def denoteSequence : List Value → List Term
  | [] => []
  | element :: sequence => denote element :: denoteSequence sequence

def denotePairs : List (Value × Value) → List (Term × Term)
  | [] => []
  | (key, value) :: pairs => (denote key, denote value) :: denotePairs pairs

/-- The last element of an improper list is its tail. -/
def denoteList : List Value → Bool → Term
  | [], _ => .nil
  | [tail], true => denote tail
  | element :: sequence, improper => .cons (denote element) (denoteList sequence improper)

end

attribute [grind =] denote denoteSequence denotePairs denoteList

theorem denoteSequence_eq (vs : List Value) : denoteSequence vs = vs.map denote := by
  induction vs with
  | nil => rfl
  | cons v vs ih => rw [denoteSequence, ih, List.map_cons]

theorem denotePairs_eq (pairs : List (Value × Value)) :
    denotePairs pairs = pairs.map fun p => (denote p.1, denote p.2) := by
  induction pairs with
  | nil => rfl
  | cons p pairs ih => rw [denotePairs, ih, List.map_cons]

theorem denoteList_proper (vs : List Value) :
    denoteList vs false = (vs.map denote).foldr .cons .nil := by
  induction vs with
  | nil => rfl
  | cons v vs ih =>
    rw [denoteList, ih]
    · rfl
    · simp

theorem denoteList_improper (init : List Value) (tail : Value) :
    denoteList (init ++ [tail]) true = (init.map denote).foldr .cons (denote tail) := by
  induction init with
  | nil => rfl
  | cons v init ih =>
    rw [List.cons_append, denoteList, ih]
    · rfl
    · simp

theorem denote_listWithTail (init : List Value) (tail : Value) :
    denote (listWithTail init tail) = (init.map denote).foldr .cons (denote tail) := by
  unfold listWithTail
  split
  · rw [denote, denoteList_proper]
    rfl
  · rw [denote, denoteList_improper]

/-! ## Reading -/

section Read

variable {data l m : List UInt8} {i : Nat}

theorem ord_at {b : UInt8} (h : At data i (b :: m)) : ord i data = .ok b := by
  rw [ord, h.getElem?]

theorem unpack_at {k n : Nat} (h : At data i (be k n ++ m)) (hn : n < 256 ^ k) : unpack k i data = .ok n := by
  have hslice := slice_at_of_length h (length_be k n)
  rw [unpack, hslice, length_be, if_neg (Nat.lt_irrefl k), ofBe_be_of_lt hn]

end Read

theorem binaryToBytes_reads {k : Nat} {value : List UInt8} (h : value.length < 256 ^ k) :
    Reads (binaryToBytes k) (be k value.length ++ value) value := by
  intro data i bytes hr
  rw [List.append_assoc] at hr
  have hv := length_be k value.length ▸ hr.append
  rw [binaryToBytes, bind_ok (unpack_at hr h)]
  simp only [slice_at hv, List.length_append, length_be, Nat.add_assoc]
  rfl

variable {lib : Library}

theorem binaryToUtf8_reads {k : Nat} {name : List UInt8} (h : name.length < 256 ^ k)
    (hv : lib.validEncoding name = true) : Reads (binaryToUtf8 lib k) (be k name.length ++ name) (.utf8 name) := by
  intro data i bytes hr
  rw [binaryToUtf8, bind_ok (binaryToBytes_reads h hr)]
  simp only [hv, if_true]
  rfl

/-- The bytes of an atom: its tag, its length and its name. -/
inductive AtomBytes (lib : Library) : List UInt8 → AtomValue → Prop
  | latin1 {tag : Tag} {k : Nat} {name : List UInt8} (ht : tag = .atomExt ∧ k = 2 ∨ tag = .smallAtomExt ∧ k = 1)
      (h : name.length < 256 ^ k) : AtomBytes lib (tag.byte :: (be k name.length ++ name)) (.latin1 name)
  | utf8 {tag : Tag} {k : Nat} {name : List UInt8} (ht : tag = .atomUtf8Ext ∧ k = 2 ∨ tag = .smallAtomUtf8Ext ∧ k = 1)
      (h : name.length < 256 ^ k) (hv : lib.validEncoding name = true) :
      AtomBytes lib (tag.byte :: (be k name.length ++ name)) (.utf8 name)
  | cacheRef (n : UInt8) : AtomBytes lib [Tag.atomCacheRef.byte, n] (.cacheRef n)

/-- A node is read as the atom that it is. -/
theorem AtomBytes.reads {a : AtomValue} {e : List UInt8} (h : AtomBytes lib e a) : Reads (binaryToAtom lib) e a := by
  intro data i bytes hr
  cases h with
  | cacheRef n =>
    rw [binaryToAtom, bind_ok (ord_at hr)]
    simp only [Tag.ofByte_byte]
    rw [bind_ok (ord_at hr.tail)]
    rfl
  | latin1 ht h =>
    obtain ⟨rfl, rfl⟩ | ⟨rfl, rfl⟩ := ht <;>
    · rw [binaryToAtom, bind_ok (ord_at hr)]
      simp only [Tag.ofByte_byte]
      rw [bind_ok (binaryToBytes_reads h hr.tail)]
      simp only [List.length_cons, Nat.add_assoc, Nat.add_comm 1]
      rfl
  | utf8 ht h hv =>
    obtain ⟨rfl, rfl⟩ | ⟨rfl, rfl⟩ := ht <;>
    · rw [binaryToAtom, bind_ok (ord_at hr)]
      simp only [Tag.ofByte_byte]
      rw [binaryToUtf8_reads h hv hr.tail]
      simp only [List.length_cons, Nat.add_assoc, Nat.add_comm 1]

/-- An atom whose name, if it is UTF-8, is valid. -/
def AtomValue.Valid (lib : Library) : AtomValue → Prop
  | .utf8 name => lib.validEncoding name = true
  | _ => True

theorem encode_eq {small large : Tag} {name e : List UInt8} (he : AtomValue.encode small large name = .ok e) :
    (name.length < 256 ^ 1 ∧ e = small.byte :: (be 1 name.length ++ name)) ∨
      (name.length < 256 ^ 2 ∧ e = large.byte :: (be 2 name.length ++ name)) := by
  unfold AtomValue.encode at he
  split at he
  · exact .inl ⟨by omega, (Except.ok.inj he).symm⟩
  · split at he
    · exact .inr ⟨by omega, (Except.ok.inj he).symm⟩
    · cases he

theorem binary_bytes {a : AtomValue} {e : List UInt8} (hv : a.Valid lib) (he : a.binary = .ok e) :
    AtomBytes lib e a := by
  cases a with
  | cacheRef n =>
    rw [← Except.ok.inj he]
    exact .cacheRef n
  | latin1 name =>
    obtain ⟨h, rfl⟩ | ⟨h, rfl⟩ := encode_eq he
    · exact .latin1 (.inr ⟨rfl, rfl⟩) h
    · exact .latin1 (.inl ⟨rfl, rfl⟩) h
  | utf8 name =>
    obtain ⟨h, rfl⟩ | ⟨h, rfl⟩ := encode_eq he
    · exact .utf8 (.inr ⟨rfl, rfl⟩) h hv
    · exact .utf8 (.inl ⟨rfl, rfl⟩) h hv

/-- The decoder reads bytes as a value, if it may call itself as deep as there are bytes. -/
def Coded (lib : Library) (e : List UInt8) (w : Value) : Prop :=
  0 < e.length ∧ ∀ depth, e.length ≤ depth → Reads (binaryToTermAt lib depth) e w

/-- What follows a tag is read by the case of the tag. -/
theorem coded_of_tag {tag : Tag} {e : List UInt8} {w : Value}
    (h : ∀ depth, e.length ≤ depth → Reads (binaryToTermOf lib (binaryToTermAt lib depth) tag) e w) :
    Coded lib (tag.byte :: e) w := by
  refine ⟨Nat.succ_pos _, fun depth hd data i bytes hr => ?_⟩
  rw [List.length_cons] at hd
  obtain ⟨d, rfl⟩ := Nat.exists_eq_add_of_le' (show 1 ≤ depth by omega)
  rw [binaryToTermAt, bind_ok (ord_at hr)]
  simp only [Tag.ofByte_byte]
  rw [h d (by omega) hr.tail, List.length_cons, Nat.add_assoc, Nat.add_comm 1]

/-! ## Terms without terms in them -/

theorem nil_coded : Coded lib [Tag.nilExt.byte] (.otpErlangList [] false) :=
  coded_of_tag fun _ _ _ _ _ _ => rfl

theorem string_coded {s e : List UInt8} (hs : s.length ≤ 65535) (he : stringToBinary s = .ok e) :
    ∃ w, Coded lib e w ∧ denote w = .ofBytes s := by
  unfold stringToBinary at he
  split at he
  · rename_i h
    rw [← Except.ok.inj he, List.length_eq_zero_iff.mp h]
    exact ⟨_, nil_coded, by rw [denote, denoteList, Term.ofBytes]⟩
  · rw [← Except.ok.inj he]
    refine ⟨.string s, coded_of_tag fun depth _ data i bytes hr => ?_, by rw [denote]⟩
    rw [binaryToTermOf, bind_ok (binaryToBytes_reads (by omega) hr)]
    rfl

theorem denote_smallAtom (name : List UInt8) : denote (smallAtom name) = .atom name := by
  unfold smallAtom
  split
  · rename_i h
    rw [denote, h]
  · split
    · rename_i h
      rw [denote, h]
    · rw [denote]
      rfl

/-- An atom that is not a reference to the atom cache. -/
def AtomValue.Named (lib : Library) : AtomValue → Prop
  | .cacheRef _ => False
  | a => a.Valid lib

theorem atom_coded {a : AtomValue} {e : List UInt8} (ha : a.Named lib) (he : a.binary = .ok e) :
    ∃ w, Coded lib e w ∧ denote w = a.denote := by
  cases a with
  | cacheRef n => exact ha.elim
  | latin1 name =>
    obtain ⟨h, rfl⟩ | ⟨h, rfl⟩ := encode_eq he
    · refine ⟨smallAtom name, coded_of_tag fun depth _ data i bytes hr => ?_, denote_smallAtom name⟩
      rw [binaryToTermOf, bind_ok (binaryToBytes_reads h hr)]
      rfl
    · refine ⟨.symbol (.latin1 name), coded_of_tag fun depth _ data i bytes hr => ?_, by rw [denote]⟩
      rw [binaryToTermOf, bind_ok (binaryToBytes_reads h hr)]
      rfl
  | utf8 name =>
    refine ⟨.otpErlangAtom (.utf8 name), ?_, by rw [denote]⟩
    obtain ⟨h, rfl⟩ | ⟨h, rfl⟩ := encode_eq he <;>
    · refine coded_of_tag fun depth _ data i bytes hr => ?_
      rw [binaryToTermOf, bind_ok (binaryToUtf8_reads h ha hr)]
      rfl

theorem float_coded (bits : BitVec 64) : Coded lib (floatToBinary bits) (.float bits) := by
  refine coded_of_tag fun depth _ data i bytes hr => ?_
  have hlt : bits.toNat < 256 ^ 8 := lt_of_lt_of_eq bits.isLt (by decide)
  have hslice := slice_at_of_length hr (length_be 8 _)
  simp only [binaryToTermOf, hslice, length_be, Nat.lt_irrefl, if_false, ofBe_be_of_lt hlt, BitVec.ofNat_toNat,
    BitVec.setWidth_eq]

theorem binary_coded {value e : List UInt8} {bits : UInt8} (he : binaryBinary value bits = .ok e) :
    Coded lib e (.otpErlangBinary value bits) := by
  unfold binaryBinary at he
  split at he
  · cases he
  · split at he
    · rw [← Except.ok.inj he, List.cons_append]
      refine coded_of_tag fun depth _ data i bytes hr => ?_
      rw [List.append_assoc] at hr
      have hbits := length_be 4 value.length ▸ hr.append
      rw [binaryToTermOf, bind_ok (unpack_at hr (by omega)), bind_ok (ord_at hbits)]
      simp only [slice_at hbits.tail, List.length_append, length_be, List.length_cons, Nat.add_assoc, Nat.add_comm 1]
      rfl
    · rename_i h
      rw [← Except.ok.inj he, not_not.mp h]
      refine coded_of_tag fun depth _ data i bytes hr => ?_
      rw [binaryToTermOf, bind_ok (binaryToBytes_reads (by omega) hr)]
      rfl

/-! ## Integers -/

theorem bignumLoop_ok {data : List UInt8} {i : Nat} {digits bytes : List UInt8} (h : At data (i + 1) (digits ++ bytes))
    {m : Nat} (hm : m ≤ digits.length) (n : Nat) :
    bignumLoop data i m n = .ok ((digits.take m).reverse.foldl (fun n b => n * 256 + b.toNat) n) := by
  induction m generalizing n with
  | zero => rfl
  | succ m ih =>
    have hsplit : digits ++ bytes = digits.take m ++ (digits[m] :: (digits.drop (m + 1) ++ bytes)) := by
      rw [← List.cons_append, ← List.append_assoc, List.getElem_cons_drop, List.take_append_drop]
    have hat := At.append (hsplit ▸ h)
    rw [List.length_take, Nat.min_eq_left (by omega), Nat.add_assoc, Nat.add_comm 1 m] at hat
    rw [bignumLoop, bind_ok (ord_at hat), List.take_succ_eq_append_getElem (by omega), List.reverse_append]
    exact ih (by omega) _

theorem bignum_reads {k : Nat} {digits : List UInt8} (sign : UInt8) (h : digits.length < 256 ^ k) :
    Reads (binaryToBignum k) (be k digits.length ++ sign :: digits)
      (.integer (if sign = 1 then -(ofBe digits.reverse : Int) else ofBe digits.reverse)) := by
  intro data i bytes hr
  rw [List.append_assoc] at hr
  have hsign := length_be k digits.length ▸ hr.append
  have hloop := bignumLoop_ok hsign.tail (Nat.le_refl _) 0
  rw [List.take_length] at hloop
  rw [binaryToBignum, bind_ok (unpack_at hr h)]
  simp only
  rw [bind_ok (ord_at hsign), bind_ok hloop]
  simp only [List.length_append, length_be, List.length_cons, Nat.add_assoc, Nat.add_comm 1]
  rfl

theorem bignum_coded {n : Int} {e : List UInt8} (he : bignumToBinary n = .ok e) : Coded lib e (.integer n) := by
  have hvalue : (if (if n < 0 then 1 else 0 : UInt8) = 1 then -(ofBe (minimal n.natAbs).reverse : Int)
      else ofBe (minimal n.natAbs).reverse) = n := by
    rw [ofBe_minimal]
    by_cases hneg : n < 0
    · rw [if_pos hneg, if_pos rfl]
      omega
    · rw [if_neg hneg, if_neg (by decide)]
      omega
  have hbig : ∀ {tag : Tag} {k : Nat}, (tag = .smallBigExt ∧ k = 1 ∨ tag = .largeBigExt ∧ k = 4) →
      (minimal n.natAbs).length < 256 ^ k →
      Coded lib (tag.byte :: (be k (minimal n.natAbs).length ++ (if n < 0 then 1 else 0) :: minimal n.natAbs))
        (.integer n) := by
    intro tag k ht h
    have hread := bignum_reads (if n < 0 then 1 else 0) h
    rw [hvalue] at hread
    obtain ⟨rfl, rfl⟩ | ⟨rfl, rfl⟩ := ht <;> exact coded_of_tag fun depth _ => hread
  simp only [bignumToBinary] at he
  split at he
  · rw [← Except.ok.inj he]
    exact hbig (.inl ⟨rfl, rfl⟩) (by omega)
  · split at he
    · rw [← Except.ok.inj he]
      exact hbig (.inr ⟨rfl, rfl⟩) (by omega)
    · cases he

theorem int32_value {n : Int} (h : -2147483648 ≤ n ∧ n ≤ 2147483647) :
    (if 2147483648 ≤ (BitVec.ofInt 32 n).toNat then
        -2147483648 + (((BitVec.ofInt 32 n).toNat - 2147483648 : Nat) : Int)
      else ((BitVec.ofInt 32 n).toNat : Int)) = n := by
  rw [BitVec.toNat_ofInt]
  split <;> omega

theorem integer_coded {n : Int} {e : List UInt8} (he : integerToBinary n = .ok e) : Coded lib e (.integer n) := by
  unfold integerToBinary at he
  split at he
  · rename_i h
    rw [← Except.ok.inj he]
    refine coded_of_tag fun depth _ data i bytes hr => ?_
    rw [binaryToTermOf, binaryToSmallInteger, bind_ok (ord_at hr), UInt8.toNat_ofNat', Nat.mod_eq_of_lt (by omega),
      Int.toNat_of_nonneg h.1]
    rfl
  · split at he
    · rename_i h
      rw [← Except.ok.inj he]
      refine coded_of_tag fun depth _ data i bytes hr => ?_
      have hlt : (BitVec.ofInt 32 n).toNat < 256 ^ 4 := lt_of_lt_of_eq (BitVec.ofInt 32 n).isLt (by decide)
      rw [binaryToTermOf, binaryToInt32, bind_ok (unpack_at hr hlt), int32_value h, length_be]
      rfl
    · exact bignum_coded he

/-! ## Pids, ports, references and functions -/

theorem nodeId_reads {make : AtomValue → List UInt8 → List UInt8 → Value} {node : AtomValue}
    {e id creation : List UInt8} (hn : AtomBytes lib e node) (hid : id.length = 4) (hc : creation.length = 1) :
    Reads (binaryToNodeId lib make) (e ++ id ++ creation) (make node id creation) := by
  intro data i bytes hr
  rw [List.append_assoc, List.append_assoc] at hr
  have hidAt := hr.append
  have hcreationAt := hid ▸ hidAt.append
  rw [binaryToNodeId, bind_ok (hn.reads hr)]
  simp only [slice_at_of_length hidAt hid, slice_at_of_length hcreationAt hc]
  simp only [List.length_append, hid, hc, Nat.add_assoc]
  rfl

theorem pidFields_reads {node : AtomValue} {e id serial creation : List UInt8} (hn : AtomBytes lib e node)
    (hid : id.length = 4) (hs : serial.length = 4) (hc : creation.length = 1) :
    Reads (binaryToPidFields lib) (e ++ id ++ serial ++ creation) (.otpErlangPid node id serial creation) := by
  intro data i bytes hr
  rw [List.append_assoc, List.append_assoc, List.append_assoc] at hr
  have hidAt := hr.append
  have hserialAt := hid ▸ hidAt.append
  have hcreationAt := hs ▸ hserialAt.append
  rw [binaryToPidFields, bind_ok (hn.reads hr)]
  simp only [slice_at_of_length hidAt hid, slice_at_of_length hserialAt hs, slice_at_of_length hcreationAt hc]
  simp only [List.length_append, hid, hs, hc, Nat.add_assoc]
  rfl

theorem newReference_reads {node : AtomValue} {e id creation : List UInt8} {j : Nat} (hn : AtomBytes lib e node)
    (hid : id.length = 4 * j) (hj : j < 256 ^ 2) (hc : creation.length = 1) :
    Reads (binaryToNewReference lib) (be 2 j ++ e ++ creation ++ id) (.otpErlangReference node id creation) := by
  intro data i bytes hr
  rw [List.append_assoc, List.append_assoc, List.append_assoc] at hr
  have hnodeAt := length_be 2 j ▸ hr.append
  have hcreationAt := hnodeAt.append
  have hidAt := hc ▸ hcreationAt.append
  rw [binaryToNewReference, bind_ok (unpack_at hr hj)]
  simp only
  rw [bind_ok (hn.reads hnodeAt)]
  simp only [slice_at_of_length hcreationAt hc, slice_at_of_length hidAt (show id.length = j * 4 by omega)]
  simp only [List.length_append, length_be, hc, hid, Nat.add_assoc, Nat.mul_comm 4 j]
  rfl

theorem pid_coded {node : AtomValue} {e id serial creation : List UInt8} (hn : node.Valid lib) (hid : id.length = 4)
    (hs : serial.length = 4) (hc : creation.length = 1) (he : pidBinary node id serial creation = .ok e) :
    Coded lib e (.otpErlangPid node id serial creation) := by
  obtain ⟨n, hnode, he⟩ := bind_eq_ok he
  rw [← Except.ok.inj he]
  exact coded_of_tag fun _ _ => pidFields_reads (binary_bytes hn hnode) hid hs hc

theorem port_coded {node : AtomValue} {e id creation : List UInt8} (hn : node.Valid lib) (hid : id.length = 4)
    (hc : creation.length = 1) (he : portBinary node id creation = .ok e) :
    Coded lib e (.otpErlangPort node id creation) := by
  obtain ⟨n, hnode, he⟩ := bind_eq_ok he
  rw [← Except.ok.inj he]
  exact coded_of_tag fun _ _ => nodeId_reads (binary_bytes hn hnode) hid hc

theorem reference_coded {node : AtomValue} {e id creation : List UInt8} {j : Nat} (hn : node.Valid lib)
    (hid : id.length = 4 * j) (hj : 0 < j) (hc : creation.length = 1)
    (he : referenceBinary node id creation = .ok e) : Coded lib e (.otpErlangReference node id creation) := by
  have hlength : id.length / 4 = j := by omega
  simp only [referenceBinary, hlength, if_neg (show ¬ j = 0 by omega)] at he
  split at he
  · obtain ⟨n, hnode, he⟩ := bind_eq_ok he
    rw [← Except.ok.inj he]
    refine coded_of_tag fun _ _ => ?_
    exact newReference_reads (binary_bytes hn hnode) hid (by omega) hc
  · cases he

/-- A function that begins with its length, which counts its own bytes. -/
theorem newFun_coded {value : List UInt8} (h : 4 ≤ value.length) (hl : ofBe (value.take 4) = value.length) :
    Coded lib (Tag.newFunExt.byte :: value) (.otpErlangFunction Tag.newFunExt.byte value) := by
  refine coded_of_tag fun depth _ data i bytes hr => ?_
  have hfour : slice i 4 data = value.take 4 := by rw [slice, hr.drop, List.take_append_of_le_length h]
  have hlen : ¬ (value.take 4).length < 4 := by
    rw [List.length_take]
    omega
  have hunpack : unpack 4 i data = .ok value.length := by rw [unpack, hfour, if_neg hlen, hl]
  rw [binaryToTermOf, binaryToNewFun, bind_ok hunpack, slice_at hr]
  rfl

theorem exported_coded {m f : AtomValue} {em ef : List UInt8} (hm : AtomBytes lib em m) (hf : AtomBytes lib ef f)
    (arity : UInt8) :
    Coded lib (Tag.exportExt.byte :: (em ++ ef ++ [Tag.smallIntegerExt.byte, arity]))
      (.otpErlangFunction Tag.exportExt.byte (em ++ ef ++ [Tag.smallIntegerExt.byte, arity])) := by
  refine coded_of_tag fun depth _ data i bytes hr => ?_
  have hmodule : At data i (em ++ (ef ++ (Tag.smallIntegerExt.byte :: arity :: bytes))) := by
    rwa [List.append_assoc, List.append_assoc] at hr
  have hfunction := hmodule.append
  have harity := hfunction.append
  have hlen : (em ++ ef ++ [Tag.smallIntegerExt.byte, arity]).length = em.length + (ef.length + (1 + 1)) := by
    rw [List.length_append, List.length_append, Nat.add_assoc]
    rfl
  rw [binaryToTermOf, binaryToExport, bind_ok (hm.reads hmodule)]
  simp only
  rw [bind_ok (hf.reads hfunction)]
  simp only
  rw [bind_ok (ord_at harity), if_neg (not_not.mpr rfl), bind_ok (ord_at harity.tail)]
  simp only [Nat.add_assoc, Nat.add_sub_cancel_left, slice_at_of_length hr hlen, hlen]
  rfl

/-! ## Terms in terms -/

/-- Terms one after another, and the values that are read of them. -/
def AllCoded (lib : Library) (es : List (List UInt8)) (ws : List Value) : Prop := List.Forall₂ (Coded lib) es ws

theorem sequence_reads {es : List (List UInt8)} {ws : List Value} (h : AllCoded lib es ws) {depth : Nat}
    (hd : es.flatten.length ≤ depth) :
    Reads (fun i => binaryToTermSequence (binaryToTermAt lib depth) i ws.length) es.flatten ws := by
  induction h with
  | nil => exact fun data i bytes _ => rfl
  | cons hw _ ih =>
    rw [List.flatten_cons, List.length_append] at hd
    intro data i bytes hr
    rw [List.flatten_cons, List.append_assoc] at hr
    rw [List.length_cons, List.flatten_cons, List.length_append]
    show binaryToTermSequence (binaryToTermAt lib depth) i (_ + 1) data = _
    rw [binaryToTermSequence, bind_ok (hw.2 depth (by omega) hr)]
    simp only
    rw [bind_ok (ih (by omega) hr.append), Nat.add_assoc]
    rfl

theorem array_coded {es : List (List UInt8)} {ws : List Value} {start : List UInt8} (h : AllCoded lib es ws)
    (hs : tupleToBinary ws.length = .ok start) : Coded lib (start ++ es.flatten) (.array ws) := by
  have hread : ∀ {k depth : Nat}, ws.length < 256 ^ k → es.flatten.length ≤ depth →
      Reads (binaryToTuple (binaryToTermAt lib depth) k) (be k ws.length ++ es.flatten) (.array ws) := by
    intro k depth hk hd data i bytes hr
    rw [List.append_assoc] at hr
    rw [binaryToTuple, bind_ok (unpack_at hr hk),
      bind_ok (sequence_reads h hd (length_be k ws.length ▸ hr.append)), List.length_append, length_be,
      Nat.add_assoc]
    rfl
  unfold tupleToBinary at hs
  split at hs
  · rw [← Except.ok.inj hs, List.cons_append]
    refine coded_of_tag fun depth hd => hread (by omega) ?_
    rw [List.length_append] at hd
    omega
  · split at hs
    · rw [← Except.ok.inj hs, List.cons_append]
      refine coded_of_tag fun depth hd => hread (by omega) ?_
      rw [List.length_append] at hd
      omega
    · cases hs

theorem list_coded {es : List (List UInt8)} {ws : List Value} {e : List UInt8} {tail : Value} (h : AllCoded lib es ws)
    (hlt : ws.length < 256 ^ 4) (ht : Coded lib e tail) :
    Coded lib (Tag.listExt.byte :: (be 4 ws.length ++ es.flatten ++ e)) (listWithTail ws tail) := by
  refine coded_of_tag fun depth hd data i bytes hr => ?_
  rw [List.length_append, List.length_append] at hd
  rw [List.append_assoc, List.append_assoc] at hr
  have hseq := length_be 4 ws.length ▸ hr.append
  rw [binaryToTermOf, binaryToList, bind_ok (unpack_at hr hlt), bind_ok (sequence_reads h (by omega) hseq)]
  simp only
  rw [bind_ok (ht.2 depth (by omega) hseq.append), List.length_append, List.length_append, length_be]
  simp only [Nat.add_assoc]
  rfl

/-- The bytes of a key and of its value, one after the other. -/
def pairBytes (es : List (List UInt8 × List UInt8)) : List UInt8 := es.flatMap fun e => e.1 ++ e.2

/-- Pairs one after another, and the pairs that are read of them. -/
def AllPairsCoded (lib : Library) (es : List (List UInt8 × List UInt8)) (ws : List (Value × Value)) : Prop :=
  List.Forall₂ (fun e w => Coded lib e.1 w.1 ∧ Coded lib e.2 w.2) es ws

/-- A key that is not there yet goes to the end. -/
theorem store_new {key value : Value} {pairs : List (Value × Value)}
    (h : ∀ p ∈ pairs, lib.sameKey p.1 key = false) : store lib key value pairs = pairs ++ [(key, value)] := by
  induction pairs with
  | nil => rfl
  | cons p pairs ih =>
    have hp := h p List.mem_cons_self
    rw [store, hp, if_neg Bool.false_ne_true, ih fun q hq => h q (List.mem_cons_of_mem p hq)]
    rfl

theorem pairs_reads {es : List (List UInt8 × List UInt8)} {ws : List (Value × Value)} (acc : List (Value × Value))
    (h : AllPairsCoded lib es ws) (hk : (acc ++ ws).Pairwise fun p q => lib.sameKey p.1 q.1 = false) {depth : Nat}
    (hd : (pairBytes es).length ≤ depth) :
    Reads (fun i => binaryToPairs lib (binaryToTermAt lib depth) i ws.length acc) (pairBytes es) (acc ++ ws) := by
  induction h generalizing acc with
  | nil =>
    rw [List.append_nil]
    exact fun data i bytes _ => rfl
  | @cons e w es ws hw _ ih =>
    rw [pairBytes, List.flatMap_cons, ← pairBytes, List.length_append, List.length_append] at hd
    intro data i bytes hr
    rw [pairBytes, List.flatMap_cons, ← pairBytes] at hr ⊢
    have hnew : ∀ p ∈ acc, lib.sameKey p.1 w.1 = false := fun p hp =>
      (List.pairwise_append.mp hk).2.2 p hp w List.mem_cons_self
    rw [List.append_assoc, List.append_assoc] at hr
    rw [List.length_cons]
    show binaryToPairs lib (binaryToTermAt lib depth) i (_ + 1) acc data = _
    rw [binaryToPairs, bind_ok (hw.1.2 depth (by omega) hr)]
    simp only
    rw [bind_ok (hw.2.2 depth (by omega) hr.append)]
    simp only [store_new hnew]
    have hrest := ih (acc ++ [w]) (by rwa [List.append_assoc]) (by omega) hr.append.append
    rw [List.append_assoc] at hrest
    rw [List.length_append, List.length_append]
    simp only [Nat.add_assoc] at hrest ⊢
    exact hrest

theorem hash_coded {es : List (List UInt8 × List UInt8)} {ws : List (Value × Value)} (h : AllPairsCoded lib es ws)
    (hlt : ws.length < 256 ^ 4) (hk : ws.Pairwise fun p q => lib.sameKey p.1 q.1 = false) :
    Coded lib (Tag.mapExt.byte :: (be 4 ws.length ++ pairBytes es)) (.hash ws) := by
  refine coded_of_tag fun depth hd data i bytes hr => ?_
  rw [List.length_append] at hd
  rw [List.append_assoc] at hr
  have hpairs := length_be 4 ws.length ▸ hr.append
  rw [binaryToTermOf, binaryToMap, bind_ok (unpack_at hr hlt),
    bind_ok (pairs_reads [] h hk (by omega) hpairs), List.length_append, length_be, Nat.add_assoc]
  rfl

/-- The start of a function with free variables: how many, its pid, module, index and unique number, both of them small
integers. -/
inductive FunStart (lib : Library) : Nat → List UInt8 → Prop
  | mk {numfree : Nat} {node module : AtomValue} {en em id serial creation : List UInt8} (index uniq : UInt8)
      (h : numfree < 256 ^ 4) (hn : AtomBytes lib en node) (hid : id.length = 4) (hs : serial.length = 4)
      (hc : creation.length = 1) (hm : AtomBytes lib em module) :
      FunStart lib numfree (be 4 numfree ++ (Tag.pidExt.byte :: (en ++ id ++ serial ++ creation)) ++ em ++
        [Tag.smallIntegerExt.byte, index] ++ [Tag.smallIntegerExt.byte, uniq])

theorem pid_reads {node : AtomValue} {e id serial creation : List UInt8} (hn : AtomBytes lib e node)
    (hid : id.length = 4) (hs : serial.length = 4) (hc : creation.length = 1) :
    Reads (binaryToPid lib) (Tag.pidExt.byte :: (e ++ id ++ serial ++ creation))
      (.otpErlangPid node id serial creation) := by
  intro data i bytes hr
  rw [binaryToPid, bind_ok (ord_at hr)]
  simp only [Tag.ofByte_byte]
  rw [pidFields_reads hn hid hs hc hr.tail, List.length_cons, Nat.add_assoc, Nat.add_comm 1]

theorem smallInteger_reads (n : UInt8) :
    Reads binaryToInteger [Tag.smallIntegerExt.byte, n] (.integer n.toNat) := by
  intro data i bytes hr
  rw [binaryToInteger, bind_ok (ord_at hr)]
  simp only [Tag.ofByte_byte]
  rw [binaryToSmallInteger, bind_ok (ord_at hr.tail)]
  rfl

theorem closure_coded {start : List UInt8} {es : List (List UInt8)} {ws : List Value}
    (hs : FunStart lib ws.length start) (h : AllCoded lib es ws) :
    Coded lib (Tag.funExt.byte :: (start ++ es.flatten))
      (.otpErlangFunction Tag.funExt.byte (start ++ es.flatten)) := by
  refine coded_of_tag fun depth hd data i bytes hr => ?_
  rw [List.length_append] at hd
  obtain ⟨index, uniq, hlt, hn, hid, hser, hc, hm⟩ := hs
  rename_i node module en em id serial creation
  have hpid := pid_reads hn hid hser hc
  generalize Tag.pidExt.byte :: (en ++ id ++ serial ++ creation) = pid at hr hpid hd ⊢
  have hindex := smallInteger_reads index
  have huniq := smallInteger_reads uniq
  generalize [Tag.smallIntegerExt.byte, index] = eindex at hr hindex hd ⊢
  generalize [Tag.smallIntegerExt.byte, uniq] = euniq at hr huniq hd ⊢
  have hfree : At data i (be 4 ws.length ++ (pid ++ (em ++ (eindex ++ (euniq ++ (es.flatten ++ bytes)))))) := by
    simpa only [List.append_assoc] using hr
  have hpidAt := length_be 4 ws.length ▸ hfree.append
  have hmoduleAt := hpidAt.append
  have hindexAt := hmoduleAt.append
  have huniqAt := hindexAt.append
  have hseqAt := huniqAt.append
  have hlen : (be 4 ws.length ++ pid ++ em ++ eindex ++ euniq ++ es.flatten).length =
      4 + (pid.length + (em.length + (eindex.length + (euniq.length + es.flatten.length)))) := by
    simp only [List.length_append, length_be, Nat.add_assoc]
  rw [binaryToTermOf, binaryToFun, bind_ok (unpack_at hfree hlt), bind_ok (hpid hpidAt)]
  simp only
  rw [bind_ok (hm.reads hmoduleAt)]
  simp only
  rw [bind_ok (hindex hindexAt)]
  simp only
  rw [bind_ok (huniq huniqAt)]
  simp only
  rw [bind_ok (sequence_reads h (by omega) hseqAt)]
  simp only [Nat.add_assoc, Nat.add_sub_cancel_left, slice_at_of_length hr hlen, hlen]
  rfl

/-! ## The values -/

/-- A value whose parts are what the decoder can keep. -/
inductive Fits (lib : Library) : Value → Prop
  | string {s : List UInt8} (h : s.length ≤ 65535) : Fits lib (.string s)
  | array {vs : List Value} (h : ∀ v ∈ vs, Fits lib v) : Fits lib (.array vs)
  | float (bits : BitVec 64) : Fits lib (.float bits)
  | integer (n : Int) : Fits lib (.integer n)
  | hash {pairs : List (Value × Value)} (hk : ∀ p ∈ pairs, Fits lib p.1) (hv : ∀ p ∈ pairs, Fits lib p.2)
      (hd : (pairs.map fun p => denote p.1).Nodup) : Fits lib (.hash pairs)
  | symbol {name : AtomValue} (h : name.Named lib) : Fits lib (.symbol name)
  | bool (b : Bool) : Fits lib (.bool b)
  | otpErlangAtom {value : AtomValue} (h : value.Named lib) : Fits lib (.otpErlangAtom value)
  | otpErlangList {vs : List Value} (improper : Bool) (hl : vs.length < 256 ^ 4) (h : ∀ v ∈ vs, Fits lib v) :
      Fits lib (.otpErlangList vs improper)
  | otpErlangBinary (value : List UInt8) (bits : UInt8) : Fits lib (.otpErlangBinary value bits)
  | newFun {value : List UInt8} (h : 4 ≤ value.length) (hl : ofBe (value.take 4) = value.length) :
      Fits lib (.otpErlangFunction Tag.newFunExt.byte value)
  | exported {m f : AtomValue} {em ef : List UInt8} (hm : AtomBytes lib em m) (hf : AtomBytes lib ef f)
      (arity : UInt8) :
      Fits lib (.otpErlangFunction Tag.exportExt.byte (em ++ ef ++ [Tag.smallIntegerExt.byte, arity]))
  | closure {start : List UInt8} {es : List (List UInt8)} {ws : List Value} (hs : FunStart lib ws.length start)
      (h : AllCoded lib es ws) : Fits lib (.otpErlangFunction Tag.funExt.byte (start ++ es.flatten))
  | otpErlangReference {node : AtomValue} {id creation : List UInt8} {j : Nat} (hn : node.Valid lib)
      (hid : id.length = 4 * j) (hj : 0 < j) (hc : creation.length = 1) :
      Fits lib (.otpErlangReference node id creation)
  | otpErlangPort {node : AtomValue} {id creation : List UInt8} (hn : node.Valid lib) (hid : id.length = 4)
      (hc : creation.length = 1) : Fits lib (.otpErlangPort node id creation)
  | otpErlangPid {node : AtomValue} {id serial creation : List UInt8} (hn : node.Valid lib) (hid : id.length = 4)
      (hs : serial.length = 4) (hc : creation.length = 1) : Fits lib (.otpErlangPid node id serial creation)

/-- The bytes of a value, where it is encoded, are read as a value that denotes the same. -/
def Encoded (lib : Library) (v : Value) : Prop :=
  ∀ e, termToBinaryOf v = .ok e → ∃ w, Coded lib e w ∧ denote w = denote v

theorem writes : Writes termToBinaryOf sequenceToBinary :=
  ⟨by rw [sequenceToBinary], fun a l => by rw [sequenceToBinary]; rfl⟩

theorem sequence_coded {vs : List Value} (h : ∀ v ∈ vs, Encoded lib v) {e : List UInt8}
    (he : sequenceToBinary vs = .ok e) :
    ∃ es ws, e = es.flatten ∧ AllCoded lib es ws ∧ ws.map denote = vs.map denote :=
  writes.read h he

theorem pairs_coded {pairs : List (Value × Value)} (hk : ∀ p ∈ pairs, Encoded lib p.1)
    (hv : ∀ p ∈ pairs, Encoded lib p.2) {e : List UInt8} (he : pairsToBinary pairs = .ok e) :
    ∃ es ws, e = pairBytes es ∧ AllPairsCoded lib es ws ∧
      (ws.map fun p => (denote p.1, denote p.2)) = pairs.map fun p => (denote p.1, denote p.2) := by
  induction pairs generalizing e with
  | nil =>
    rw [pairsToBinary] at he
    exact ⟨[], [], (Except.ok.inj he).symm, .nil, rfl⟩
  | cons p pairs ih =>
    rw [pairsToBinary] at he
    obtain ⟨e₁, he₁, he⟩ := bind_eq_ok he
    obtain ⟨e₂, he₂, he⟩ := bind_eq_ok he
    obtain ⟨e₃, he₃, he⟩ := bind_eq_ok he
    obtain ⟨k, hkw, hkden⟩ := hk p List.mem_cons_self e₁ he₁
    obtain ⟨w, hw, hden⟩ := hv p List.mem_cons_self e₂ he₂
    obtain ⟨es, ws, rfl, hws, hdens⟩ :=
      ih (fun q hq => hk q (List.mem_cons_of_mem p hq)) (fun q hq => hv q (List.mem_cons_of_mem p hq)) he₃
    refine ⟨(e₁, e₂) :: es, (k, w) :: ws, (Except.ok.inj he).symm, .cons ⟨hkw, hw⟩ hws, ?_⟩
    rw [List.map_cons, List.map_cons, hdens]
    simp only [hkden, hden]

/-- As many values are read as there are values with the same denotations. -/
theorem length_of_denote {ws vs : List Value} (h : ws.map denote = vs.map denote) : ws.length = vs.length := by
  simpa only [List.length_map] using congrArg List.length h

theorem list_encoded {vs : List Value} (improper : Bool) (h : ∀ v ∈ vs, Encoded lib v) :
    Encoded lib (.otpErlangList vs improper) := by
  intro e he
  rw [termToBinaryOf] at he
  split at he
  · rename_i hnil
    rw [← Except.ok.inj he, List.length_eq_zero_iff.mp hnil]
    exact ⟨_, nil_coded, by rw [denote, denote, denoteList, denoteList]⟩
  · rename_i hne
    split at he
    · cases he
    · rename_i hle
      obtain ⟨elements, hes, he⟩ := bind_eq_ok he
      cases improper with
      | false =>
        obtain ⟨es, ws, rfl, hws, hden⟩ := sequence_coded h hes
        have hlen := length_of_denote hden
        have hlist := list_coded hws (by omega) (@nil_coded lib)
        rw [hlen] at hlist
        refine ⟨_, by rw [← Except.ok.inj he]; exact hlist, ?_⟩
        rw [denote_listWithTail, denote, denote, denoteList, denoteList_proper, hden]
      | true =>
        obtain rfl | ⟨init, tail, rfl⟩ := List.eq_nil_or_concat' vs
        · exact absurd rfl hne
        · obtain ⟨e₁, e₂, rfl, hinit, htail⟩ := writes.concat hes
          obtain ⟨es, ws, rfl, hws, hden⟩ := sequence_coded (fun v hv => h v (List.mem_append_left _ hv)) hinit
          obtain ⟨w, hw, hwden⟩ := h tail (List.mem_append_right _ (List.mem_singleton_self tail)) e₂ htail
          have hlen := length_of_denote hden
          rw [List.length_append, List.length_singleton] at hle he
          have hlist := list_coded hws (by omega) hw
          rw [hlen, List.append_assoc] at hlist
          refine ⟨_, by rw [← Except.ok.inj he]; exact hlist, ?_⟩
          rw [denote_listWithTail, denote, denoteList_improper, hden, hwden]

/-- Two keys that a `Hash` takes for one denote the same term. -/
def Library.SameKeySound (lib : Library) : Prop := ∀ k k', lib.sameKey k k' = true → denote k = denote k'

theorem hash_encoded (hlib : lib.SameKeySound) {pairs : List (Value × Value)} (hk : ∀ p ∈ pairs, Encoded lib p.1)
    (hv : ∀ p ∈ pairs, Encoded lib p.2) (hd : (pairs.map fun p => denote p.1).Nodup) :
    Encoded lib (.hash pairs) := by
  intro e he
  rw [termToBinaryOf] at he
  split at he
  · rename_i hle
    obtain ⟨elements, hes, he⟩ := bind_eq_ok he
    obtain ⟨es, ws, rfl, hws, hden⟩ := pairs_coded hk hv hes
    have hlen : ws.length = pairs.length := by simpa only [List.length_map] using congrArg List.length hden
    have hkeys : (ws.map fun p => denote p.1) = pairs.map fun p => denote p.1 := by
      simpa only [List.map_map, Function.comp_def] using congrArg (List.map Prod.fst) hden
    have hdistinct : ws.Pairwise fun p q => lib.sameKey p.1 q.1 = false := by
      rw [← hkeys] at hd
      refine (List.pairwise_map.mp hd).imp fun {p q} hne => ?_
      cases hs : lib.sameKey p.1 q.1 with
      | false => rfl
      | true => exact absurd (hlib _ _ hs) hne
    have hhash := hash_coded hws (by omega) hdistinct
    rw [hlen] at hhash
    refine ⟨_, by rw [← Except.ok.inj he]; exact hhash, ?_⟩
    rw [denote, denote, denotePairs_eq, denotePairs_eq, hden]
  · cases he

theorem array_encoded {vs : List Value} (h : ∀ v ∈ vs, Encoded lib v) : Encoded lib (.array vs) := by
  intro e he
  rw [termToBinaryOf] at he
  obtain ⟨elements, hes, he⟩ := bind_eq_ok he
  obtain ⟨start, hs, he⟩ := bind_eq_ok he
  obtain ⟨es, ws, rfl, hws, hden⟩ := sequence_coded h hes
  rw [← length_of_denote hden] at hs
  refine ⟨_, (Except.ok.inj he) ▸ array_coded hws hs, ?_⟩
  rw [denote, denote, denoteSequence_eq, denoteSequence_eq, hden]

/-- Bytes that are read as the value that they encode. -/
theorem encoded_of_coded {v : Value} (h : ∀ e, termToBinaryOf v = .ok e → Coded lib e v) : Encoded lib v :=
  fun e he => ⟨v, h e he, rfl⟩

theorem function_encoded {tag : UInt8} {value : List UInt8}
    (h : Coded lib (tag :: value) (.otpErlangFunction tag value)) : Encoded lib (.otpErlangFunction tag value) :=
  encoded_of_coded fun e he => by
    rw [termToBinaryOf] at he
    rwa [← Except.ok.inj he]

/-- The bytes of a value whose parts fit are read as a value that denotes the same Erlang term. -/
theorem fits_encoded (hlib : lib.SameKeySound) {v : Value} (h : Fits lib v) : Encoded lib v := by
  induction h with
  | string h =>
    intro e he
    rw [termToBinaryOf] at he
    rw [denote]
    exact string_coded h he
  | array _ ih => exact array_encoded ih
  | float bits =>
    refine encoded_of_coded fun e he => ?_
    rw [termToBinaryOf] at he
    exact Except.ok.inj he ▸ float_coded bits
  | integer n =>
    refine encoded_of_coded fun e he => ?_
    rw [termToBinaryOf] at he
    exact integer_coded he
  | hash _ _ hd ihk ihv => exact hash_encoded hlib ihk ihv hd
  | symbol h =>
    intro e he
    rw [termToBinaryOf] at he
    rw [denote]
    exact atom_coded h he
  | bool b =>
    intro e he
    rw [termToBinaryOf] at he
    rw [denote]
    exact atom_coded (a := .latin1 (boolName b)) trivial he
  | otpErlangAtom h =>
    intro e he
    rw [termToBinaryOf] at he
    rw [denote]
    exact atom_coded h he
  | otpErlangList improper _ _ ih => exact list_encoded improper ih
  | otpErlangBinary value bits =>
    refine encoded_of_coded fun e he => ?_
    rw [termToBinaryOf] at he
    exact binary_coded he
  | newFun h hl => exact function_encoded (newFun_coded h hl)
  | exported hm hf arity => exact function_encoded (exported_coded hm hf arity)
  | closure hs h => exact function_encoded (closure_coded hs h)
  | otpErlangReference hn hid hj hc =>
    refine encoded_of_coded fun e he => ?_
    rw [termToBinaryOf] at he
    exact reference_coded hn hid hj hc he
  | otpErlangPort hn hid hc =>
    refine encoded_of_coded fun e he => ?_
    rw [termToBinaryOf] at he
    exact port_coded hn hid hc he
  | otpErlangPid hn hid hs hc =>
    refine encoded_of_coded fun e he => ?_
    rw [termToBinaryOf] at he
    exact pid_coded hn hid hs hc he

/-! ## Whole data -/

theorem binaryToTerm_coded {e : List UInt8} {w : Value} (h : Coded lib e w) {depth : Nat} (hd : e.length ≤ depth) :
    binaryToTerm lib depth (tagVersion :: e) = .ok w := by
  have hpos := h.1
  have hat : At (tagVersion :: e) 0 (tagVersion :: (e ++ [])) := by rw [List.append_nil]; exact At.start _
  have hread := h.2 depth hd hat.tail
  unfold binaryToTerm
  rw [List.length_cons, if_neg (by omega), bind_ok (ord_at hat), if_neg (not_not.mpr rfl), bind_ok hread]
  simp only [Nat.zero_add, Nat.add_comm 1, ne_eq, not_true_eq_false, if_false]
  rfl

/-- What is encoded is decoded to a value that denotes the same Erlang term, however deep it is nested. -/
theorem decoded_of_encoded (hlib : lib.SameKeySound) {v : Value} (h : Fits lib v) {data : List UInt8}
    (he : termToBinary v = .ok data) :
    ∃ w, (∀ depth, data.length ≤ depth → binaryToTerm lib depth data = .ok w) ∧ denote w = denote v := by
  obtain ⟨e, hterm, he⟩ := bind_eq_ok he
  obtain ⟨w, hw, hden⟩ := fits_encoded hlib h e hterm
  rw [← Except.ok.inj he]
  refine ⟨w, fun depth hd => binaryToTerm_coded hw ?_, hden⟩
  rw [List.length_cons] at hd
  omega

end CloudI.Api.Ruby
