import CloudI.Api.OCaml.Codec
import CloudI.Framework.Exn
import CloudI.Framework.Slices

/-!
# What the OCaml codec encodes is decoded again

`denote` is the Erlang term that an `Erlang.t` stands for, and `Fits` are the
values that the two directions agree about: no maps, no functions of the new
kind, and the nodes whose bytes `binary_to_atom` takes. The decoder reads the
bytes of such a value, wherever they stand, as a value that denotes the same
(`fits_encoded`).
-/

namespace CloudI.Api.OCaml

open Slices

/-! ## What a value denotes -/

def charByte (n : Int) : UInt8 := .ofNat n.toNat

mutual

/-- The Erlang term that a value denotes; a node is known by its tag and its bytes. -/
def denote : Value → Term
  | .otpErlangInteger value | .otpErlangIntegerBig value => .int value
  | .otpErlangFloat value => .float value
  | .otpErlangAtom value => .atom value
  | .otpErlangAtomUTF8 value => .atomUtf8 value
  | .otpErlangAtomCacheRef value => .atomCacheRef (charByte value)
  | .otpErlangAtomBool value => .atom (boolName value)
  | .otpErlangString value => .ofBytes value
  | .otpErlangBinary value => .bitstring value 8
  | .otpErlangBinaryBits value bits => .bitstring value (charByte bits)
  | .otpErlangList value => denoteList value false
  | .otpErlangListImproper value => denoteList value true
  | .otpErlangTuple value => .tuple (denoteSequence value)
  | .otpErlangMap value => .map (denotePairs value)
  | .otpErlangPid nodeTag node id serial creation => .pid (charByte nodeTag) node id serial (charByte creation)
  | .otpErlangPort nodeTag node id creation => .port (charByte nodeTag) node id (charByte creation)
  | .otpErlangReference nodeTag node id creation => .reference (charByte nodeTag) node id (charByte creation)
  | .otpErlangFunction tag value => .function (charByte tag) value

def denoteSequence : List Value → List Term
  | [] => []
  | element :: sequence => denote element :: denoteSequence sequence

def denotePairs : List (Value × Value) → List (Term × Term)
  | [] => []
  | (key, value) :: pairs => (denote key, denote value) :: denotePairs pairs

/-- The last element of an improper list is its tail. -/
def denoteList : List Value → Bool → Term
  | [], _ => .nil
  | [tail], true => denote tail
  | element :: sequence, improper => .cons (denote element) (denoteList sequence improper)

end

attribute [grind =] denote denoteSequence denotePairs denoteList

theorem denoteSequence_eq (vs : List Value) : denoteSequence vs = vs.map denote := by
  induction vs with
  | nil => rfl
  | cons v vs ih => rw [denoteSequence, ih, List.map_cons]

theorem denoteList_proper (vs : List Value) : denoteList vs false = (vs.map denote).foldr .cons .nil := by
  induction vs with
  | nil => rfl
  | cons v vs ih =>
    rw [denoteList, ih]
    · rfl
    · simp

theorem denoteList_improper (init : List Value) (tail : Value) :
    denoteList (init ++ [tail]) true = (init.map denote).foldr .cons (denote tail) := by
  induction init with
  | nil => rfl
  | cons v init ih =>
    rw [List.cons_append, denoteList, ih]
    · rfl
    · simp

theorem denote_listWithTail (init : List Value) (tail : Value) :
    denote (listWithTail init tail) = (init.map denote).foldr .cons (denote tail) := by
  unfold listWithTail
  split
  · rw [denote, denoteList_proper]
    rfl
  · rw [denote, denoteList_improper]

theorem denote_smallAtom (name : List UInt8) : denote (smallAtom name) = .atom name := by
  unfold smallAtom
  split
  case isTrue h => rw [denote, h]
  case isFalse =>
    split
    case isTrue h => rw [denote, h]
    case isFalse => rw [denote]

/-! ## Reading -/

section Read

variable {data l m : List UInt8} {i : Nat}

theorem charAt_at {b : UInt8} (h : At data i (b :: m)) : charAt i data = .ok b := by rw [charAt, h.getElem?]

theorem sub_at {n : Nat} (h : At data i (l ++ m)) (hl : l.length = n) : sub i n data = .ok l := by
  have hlen := h.length
  rw [List.length_append] at hlen
  rw [sub, if_neg (by omega), ← hl, h.take]

theorem unpack_at {k n : Nat} (h : At data i (be k n ++ m)) (hn : n < 256 ^ k) : unpack k i data = .ok n := by
  rw [unpack, bind_ok (sub_at h (length_be k n)), ofBe_be_of_lt hn]
  rfl

theorem unpackLength_at {n : Nat} (h : At data i (be 4 n ++ m)) (hn : n < 256 ^ 4) :
    unpackLength i data = .ok (i + 4, n) := by
  have hle : n < maxStringLength := hn.trans (by decide)
  rw [unpackLength, unpackUint32, bind_ok (unpack_at h hn), if_neg (Nat.not_lt.mpr hle.le)]
  rfl

theorem unpackDouble_at {value : BitVec 64} (h : At data i (be 8 value.toNat ++ m)) :
    unpackDouble i data = .ok value := by
  have hlt : value.toNat < 256 ^ 8 := lt_of_lt_of_eq value.isLt (by decide)
  rw [unpackDouble, bind_ok (unpack_at h hlt), BitVec.ofNat_toNat, BitVec.setWidth_eq]
  rfl

theorem unpackInteger_at {value : BitVec 32} (h : At data i (be 4 value.toNat ++ m)) :
    unpackInteger i data = .ok (.otpErlangInteger value.toInt) := by
  have hlt : value.toNat < 256 ^ 4 := lt_of_lt_of_eq value.isLt (by decide)
  rw [unpackInteger, bind_ok (unpack_at h hlt), BitVec.ofNat_toNat, BitVec.setWidth_eq]
  rfl

end Read

/-- The bytes of a node, or of another atom, behind its tag. A small one has
as many bytes as its tag says. -/
inductive AtomBytes : UInt8 → List UInt8 → Prop
  | large {tag : Tag} {name : List UInt8} (ht : tag = .atomExt ∨ tag = .atomUtf8Ext) (h : name.length < 256 ^ 2) :
      AtomBytes tag.byte (be 2 name.length ++ name)
  | small {tag : Tag} {node : List UInt8} (ht : tag = .smallAtomExt ∨ tag = .smallAtomUtf8Ext)
      (h : node.length = 1 + tag.byte.toNat) : AtomBytes tag.byte node
  | cacheRef (n : UInt8) : AtomBytes Tag.atomCacheRef.byte [n]

theorem AtomBytes.reads {tag : UInt8} {node : List UInt8} (h : AtomBytes tag node) :
    Reads binaryToAtom (tag :: node) (tag, node) := by
  intro data i bytes hr
  rw [binaryToAtom, bind_ok (charAt_at hr)]
  cases h with
  | @large tag name ht h =>
    have htail : At data (i + 1) (be 2 name.length ++ name ++ bytes) := hr.tail
    have hname := htail
    rw [List.append_assoc] at hname
    have hnode : sub (i + 1) (2 + name.length) data = .ok (be 2 name.length ++ name) :=
      sub_at htail (by rw [List.length_append, length_be])
    obtain rfl | rfl := ht <;>
    · simp only [Tag.ofByte_byte, unpackUint16]
      rw [bind_ok (unpack_at hname h), bind_ok hnode]
      simp only [List.length_cons, List.length_append, length_be]
      refine congrArg Except.ok (Prod.ext ?_ rfl)
      simp only
      omega
  | @small tag node ht h =>
    obtain rfl | rfl := ht <;>
    · simp only [Tag.ofByte_byte]
      rw [bind_ok (charAt_at hr), bind_ok (sub_at hr.tail h)]
      simp only [List.length_cons, h]
      refine congrArg Except.ok (Prod.ext ?_ rfl)
      simp only
      omega
  | cacheRef n =>
    simp only [Tag.ofByte_byte]
    rw [bind_ok (charAt_at hr.tail)]
    rfl

/-- The decoder reads bytes as a value, if it may call itself as deep as there are bytes. -/
def Coded (fos : FloatOfString) (e : List UInt8) (w : Value) : Prop :=
  0 < e.length ∧ ∀ depth, e.length ≤ depth → Reads (binaryToTermAt fos depth) e w

variable {fos : FloatOfString} {e : List UInt8}

/-- What follows a tag is read by the case of the tag. -/
theorem coded_of_tag {tag : Tag} {w : Value}
    (h : ∀ depth, e.length ≤ depth → Reads (binaryToTermOf (binaryToTermAt fos depth) fos tag) e w) :
    Coded fos (tag.byte :: e) w := by
  refine ⟨Nat.succ_pos _, fun depth hd data i bytes hr => ?_⟩
  rw [List.length_cons] at hd
  obtain ⟨d, rfl⟩ := Nat.exists_eq_add_of_le' (show 1 ≤ depth by omega)
  rw [binaryToTermAt, bind_ok (charAt_at hr)]
  simp only [Tag.ofByte_byte]
  rw [h d (by omega) hr.tail, List.length_cons, Nat.add_assoc, Nat.add_comm 1]

/-! ## Terms without terms in them -/

theorem nil_coded : Coded fos [Tag.nilExt.byte] (.otpErlangList []) := coded_of_tag fun _ _ _ _ _ _ => rfl

theorem smallInteger_coded (c : UInt8) : Coded fos [Tag.smallIntegerExt.byte, c] (.otpErlangInteger c.toNat) := by
  refine coded_of_tag fun depth _ data i bytes hr => ?_
  rw [binaryToTermOf, binaryToSmallInteger, bind_ok (charAt_at hr)]
  rfl

theorem cacheRef_coded {value : Int} (he : termToBinaryOf (.otpErlangAtomCacheRef value) = .ok e) :
    Coded fos e (.otpErlangAtomCacheRef value) := by
  rw [termToBinaryOf] at he
  obtain ⟨c, hc, he⟩ := bind_eq_ok he
  unfold charOfInt at hc
  split at hc
  case isTrue h =>
    cases hc
    cases he
    refine coded_of_tag fun depth _ data i bytes hr => ?_
    rw [binaryToTermOf, bind_ok (charAt_at hr), UInt8.toNat_ofNat', Nat.mod_eq_of_lt (by omega),
      Int.toNat_of_nonneg h.1]
    rfl
  case isFalse => cases hc

theorem nameToBinary_eq {small large : Tag} {name e : List UInt8} (he : nameToBinary small large name = .ok e) :
    (name.length < 256 ^ 1 ∧ e = small.byte :: UInt8.ofNat name.length :: name) ∨
      (name.length < 256 ^ 2 ∧ e = large.byte :: (be 2 name.length ++ name)) := by
  unfold nameToBinary at he
  split at he
  · exact .inl ⟨by omega, (Except.ok.inj he).symm⟩
  · split at he
    · exact .inr ⟨by omega, (Except.ok.inj he).symm⟩
    · cases he

/-- As many bytes as the byte before them says. -/
theorem small_at {data name bytes : List UInt8} {i : Nat} (h : name.length < 256 ^ 1)
    (hr : At data i (UInt8.ofNat name.length :: name ++ bytes)) :
    charAt i data = .ok (UInt8.ofNat name.length) ∧ sub (i + 1) (UInt8.ofNat name.length).toNat data = .ok name ∧
      (UInt8.ofNat name.length).toNat = name.length := by
  have hn : (UInt8.ofNat name.length).toNat = name.length := by
    rw [UInt8.toNat_ofNat']
    exact Nat.mod_eq_of_lt h
  exact ⟨charAt_at hr, sub_at hr.tail hn.symm, hn⟩

theorem atom_coded {name e : List UInt8} (he : atomToBinary name = .ok e) :
    ∃ w, Coded fos e w ∧ denote w = .atom name := by
  obtain ⟨h, rfl⟩ | ⟨h, rfl⟩ := nameToBinary_eq he
  · refine ⟨smallAtom name, coded_of_tag fun depth _ data i bytes hr => ?_, denote_smallAtom name⟩
    obtain ⟨hc, hs, hn⟩ := small_at h hr
    rw [binaryToTermOf, bind_ok hc]
    simp only
    rw [bind_ok hs, hn, List.length_cons, Nat.add_assoc, Nat.add_comm 1]
    rfl
  · refine ⟨.otpErlangAtom name, coded_of_tag fun depth _ data i bytes hr => ?_, by rw [denote]⟩
    rw [List.append_assoc] at hr
    have hname := length_be 2 name.length ▸ hr.append
    rw [binaryToTermOf, unpackUint16, bind_ok (unpack_at hr h)]
    simp only
    rw [bind_ok (sub_at hname rfl), List.length_append, length_be, Nat.add_assoc]
    rfl

theorem atomUtf8_coded {name e : List UInt8} (he : atomUtf8ToBinary name = .ok e) :
    Coded fos e (.otpErlangAtomUTF8 name) := by
  obtain ⟨h, rfl⟩ | ⟨h, rfl⟩ := nameToBinary_eq he
  · refine coded_of_tag fun depth _ data i bytes hr => ?_
    obtain ⟨hc, hs, hn⟩ := small_at h hr
    rw [binaryToTermOf, bind_ok hc]
    simp only
    rw [bind_ok hs, hn, List.length_cons, Nat.add_assoc, Nat.add_comm 1]
    rfl
  · refine coded_of_tag fun depth _ data i bytes hr => ?_
    rw [List.append_assoc] at hr
    have hname := length_be 2 name.length ▸ hr.append
    rw [binaryToTermOf, unpackUint16, bind_ok (unpack_at hr h)]
    simp only
    rw [bind_ok (sub_at hname rfl), List.length_append, length_be, Nat.add_assoc]
    rfl

theorem float_coded (value : BitVec 64) : Coded fos (floatToBinary value) (.otpErlangFloat value) := by
  refine coded_of_tag fun depth _ data i bytes hr => ?_
  rw [binaryToTermOf, bind_ok (unpackDouble_at hr), length_be]
  rfl

theorem binaryBits_coded {value e : List UInt8} {bits : Int} (he : binaryBitsToBinary value bits = .ok e) :
    ∃ w, Coded fos e w ∧ denote w = .bitstring value (charByte bits) := by
  unfold binaryBitsToBinary at he
  split at he
  case isTrue => cases he
  case isFalse hb =>
    split at he
    case isFalse => cases he
    case isTrue hl =>
      split at he
      case isTrue h8 =>
        have hn : (UInt8.ofNat bits.toNat).toNat = bits.toNat := by
          rw [UInt8.toNat_ofNat']
          exact Nat.mod_eq_of_lt (by omega)
        have hne : UInt8.ofNat bits.toNat ≠ 8 := fun h => by
          rw [h] at hn
          have : (8 : UInt8).toNat = 8 := rfl
          omega
        rw [← Except.ok.inj he, List.cons_append]
        refine ⟨.otpErlangBinaryBits value bits, coded_of_tag fun depth _ data i bytes hr => ?_, by rw [denote]⟩
        rw [List.append_assoc] at hr
        have hbits := length_be 4 value.length ▸ hr.append
        rw [binaryToTermOf, bind_ok (unpackLength_at hr (by omega))]
        simp only
        rw [bind_ok (charAt_at hbits), bind_ok (sub_at hbits.tail rfl), if_neg hne, hn,
          Int.toNat_of_nonneg (by omega), List.length_append, length_be, List.length_cons]
        refine congrArg Except.ok (Prod.ext ?_ rfl)
        simp only
        omega
      case isFalse h8 =>
        rw [← Except.ok.inj he, List.cons_append]
        refine ⟨.otpErlangBinary value, coded_of_tag fun depth _ data i bytes hr => ?_, ?_⟩
        · rw [List.append_assoc] at hr
          have hvalue := length_be 4 value.length ▸ hr.append
          rw [binaryToTermOf, bind_ok (unpackLength_at hr (by omega))]
          simp only
          rw [bind_ok (sub_at hvalue rfl), List.length_append, length_be, Nat.add_assoc]
          rfl
        · rw [denote, not_not.mp h8]
          rfl

/-! ## Integers -/

theorem bignumLoop_ok {data : List UInt8} {i : Nat} {digits bytes : List UInt8} (h : At data (i + 1) (digits ++ bytes))
    {m : Nat} (hm : m ≤ digits.length) (n : Nat) :
    bignumLoop data i m n = .ok ((digits.take m).reverse.foldl (fun n b => n * 256 + b.toNat) n) := by
  induction m generalizing n with
  | zero => rfl
  | succ m ih =>
    have hsplit : digits ++ bytes = digits.take m ++ (digits[m] :: (digits.drop (m + 1) ++ bytes)) := by
      rw [← List.cons_append, ← List.append_assoc, List.getElem_cons_drop, List.take_append_drop]
    have hat := At.append (hsplit ▸ h)
    rw [List.length_take, Nat.min_eq_left (by omega), Nat.add_assoc, Nat.add_comm 1 m] at hat
    rw [bignumLoop, bind_ok (charAt_at hat), List.take_succ_eq_append_getElem (by omega), List.reverse_append,
      Nat.add_comm, Nat.mul_comm]
    exact ih (by omega) _

theorem bignum_at {data digits bytes : List UInt8} {i : Nat} {sign : UInt8} (h : digits.length < 256 ^ 4)
    (hr : At data i (sign :: digits ++ bytes)) :
    binaryToBignum i digits.length data = .ok (i + 1 + digits.length,
      .otpErlangIntegerBig (if sign = 1 then -(ofBe digits.reverse : Int) else ofBe digits.reverse)) := by
  have hle : digits.length < maxStringLength := h.trans (by decide)
  have hloop := bignumLoop_ok hr.tail (Nat.le_refl _) 0
  rw [List.take_length] at hloop
  rw [binaryToBignum, if_neg (Nat.not_lt.mpr hle.le), bind_ok (charAt_at hr), bind_ok hloop]
  rfl

theorem bignum_coded {n : Int} (he : bignumToBinary n = .ok e) :
    Coded fos e (.otpErlangIntegerBig n) := by
  have hvalue : (if (if n < 0 then 1 else 0 : UInt8) = 1 then -(ofBe (minimal n.natAbs).reverse : Int)
      else ofBe (minimal n.natAbs).reverse) = n := by
    rw [ofBe_minimal]
    by_cases hneg : n < 0
    · rw [if_pos hneg, if_pos rfl]
      omega
    · rw [if_neg hneg, if_neg (by decide)]
      omega
  simp only [bignumToBinary] at he
  split at he
  case isTrue h =>
    rw [← Except.ok.inj he, List.cons_append]
    refine coded_of_tag fun depth _ data i bytes hr => ?_
    have hlen : (UInt8.ofNat (minimal n.natAbs).length).toNat = (minimal n.natAbs).length := by
      rw [UInt8.toNat_ofNat']
      exact Nat.mod_eq_of_lt (by omega)
    rw [binaryToTermOf, bind_ok (charAt_at hr), hlen, bignum_at (by omega) hr.tail, hvalue]
    simp only [List.length_append, length_be, List.length_cons, Nat.add_assoc, Nat.add_comm 1]
  case isFalse =>
    split at he
    case isTrue h =>
      rw [← Except.ok.inj he, List.cons_append]
      refine coded_of_tag fun depth _ data i bytes hr => ?_
      rw [List.append_assoc] at hr
      have hsign := length_be 4 (minimal n.natAbs).length ▸ hr.append
      rw [binaryToTermOf, unpackUint32, bind_ok (unpack_at hr (by omega)), bignum_at (by omega) hsign, hvalue]
      simp only [List.length_append, length_be, List.length_cons, Nat.add_assoc, Nat.add_comm 1]
    case isFalse => cases he

theorem integer_coded {n : Int} (he : integerToBinary n = .ok e) :
    ∃ w, Coded fos e w ∧ denote w = .int n := by
  unfold integerToBinary at he
  split at he
  case isTrue h =>
    cases he
    refine ⟨_, smallInteger_coded _, ?_⟩
    rw [denote, UInt8.toNat_ofNat', Nat.mod_eq_of_lt (by omega), Int.toNat_of_nonneg h.1]
  case isFalse =>
    split at he
    case isTrue h =>
      cases he
      refine ⟨.otpErlangInteger n, coded_of_tag fun depth _ data i bytes hr => ?_, by rw [denote]⟩
      have hn : (BitVec.ofInt 32 n).toInt = n := by
        rw [BitVec.toInt_ofInt]
        exact Int.bmod_eq_of_le (by omega) (by omega)
      rw [binaryToTermOf, binaryToInt32, bind_ok (unpackInteger_at hr), hn, length_be]
      rfl
    case isFalse => exact ⟨_, bignum_coded he, by rw [denote]⟩

/-! ## Pids, ports, references and functions -/

theorem charOfInt_eq {n : Int} {c : UInt8} (h : charOfInt n = .ok c) : c = charByte n ∧ (c.toNat : Int) = n := by
  unfold charOfInt at h
  split at h
  case isTrue hn =>
    cases h
    refine ⟨rfl, ?_⟩
    rw [UInt8.toNat_ofNat', Nat.mod_eq_of_lt (by omega), Int.toNat_of_nonneg hn.1]
  case isFalse => cases h

variable {nodeTag creation : UInt8}

theorem nodeId_reads {make : Int → List UInt8 → List UInt8 → Int → Value}
    {node id : List UInt8} (hn : AtomBytes nodeTag node) (hid : id.length = 4) :
    Reads (binaryToNodeId make) (nodeTag :: node ++ id ++ [creation]) (make nodeTag.toNat node id creation.toNat) := by
  intro data i bytes hr
  have hnode : At data i (nodeTag :: node ++ (id ++ (creation :: bytes))) := by
    rwa [List.append_assoc, List.append_assoc] at hr
  have hidAt := hnode.append
  have hcreation := hid ▸ hidAt.append
  rw [binaryToNodeId, bind_ok (hn.reads hnode)]
  simp only
  rw [bind_ok (sub_at hidAt hid), bind_ok (charAt_at hcreation)]
  simp only [List.length_append, hid, Nat.add_assoc]
  rfl

theorem pidFields_reads {node id serial : List UInt8} (hn : AtomBytes nodeTag node)
    (hid : id.length = 4) (hs : serial.length = 4) :
    Reads binaryToPidFields (nodeTag :: node ++ id ++ serial ++ [creation])
      (.otpErlangPid nodeTag.toNat node id serial creation.toNat) := by
  intro data i bytes hr
  have hnode : At data i (nodeTag :: node ++ (id ++ (serial ++ (creation :: bytes)))) := by
    rwa [List.append_assoc, List.append_assoc, List.append_assoc] at hr
  have hidAt := hnode.append
  have hserial := hid ▸ hidAt.append
  have hcreation := hs ▸ hserial.append
  rw [binaryToPidFields, bind_ok (hn.reads hnode)]
  simp only
  rw [bind_ok (sub_at hidAt hid), bind_ok (sub_at hserial hs), bind_ok (charAt_at hcreation)]
  simp only [List.length_append, hid, hs, Nat.add_assoc]
  rfl

theorem newReference_reads {node id : List UInt8} {j : Nat} (hn : AtomBytes nodeTag node)
    (hid : id.length = 4 * j) (hj : j < 256 ^ 2) :
    Reads binaryToNewReference (be 2 j ++ nodeTag :: node ++ creation :: id)
      (.otpErlangReference nodeTag.toNat node id creation.toNat) := by
  intro data i bytes hr
  have hnode : At data i (be 2 j ++ (nodeTag :: node ++ (creation :: (id ++ bytes)))) := by
    rwa [List.append_assoc, List.append_assoc] at hr
  have hnodeAt := length_be 2 j ▸ hnode.append
  have hcreation := hnodeAt.append
  rw [binaryToNewReference, unpackUint16, bind_ok (unpack_at hnode hj)]
  simp only
  rw [bind_ok (hn.reads hnodeAt)]
  simp only
  rw [bind_ok (charAt_at hcreation), bind_ok (sub_at hcreation.tail (show id.length = j * 4 by omega))]
  simp only [List.length_append, length_be, List.length_cons, hid, Nat.add_assoc, Nat.add_comm 1, Nat.mul_comm 4 j]
  rfl

theorem pid_coded {nodeTag creation : Int} {node id serial e : List UInt8} (hn : AtomBytes (charByte nodeTag) node)
    (hid : id.length = 4) (hs : serial.length = 4) (he : pidToBinary nodeTag node id serial creation = .ok e) :
    Coded fos e (.otpErlangPid nodeTag node id serial creation) := by
  obtain ⟨t, ht, he⟩ := bind_eq_ok he
  obtain ⟨c, hc, he⟩ := bind_eq_ok he
  obtain ⟨rfl, ht⟩ := charOfInt_eq ht
  obtain ⟨-, hc⟩ := charOfInt_eq hc
  rw [← Except.ok.inj he, ← hc]
  conv => rhs; rw [← ht]
  exact coded_of_tag fun _ _ => pidFields_reads hn hid hs

theorem port_coded {nodeTag creation : Int} {node id e : List UInt8} (hn : AtomBytes (charByte nodeTag) node)
    (hid : id.length = 4) (he : portToBinary nodeTag node id creation = .ok e) :
    Coded fos e (.otpErlangPort nodeTag node id creation) := by
  obtain ⟨t, ht, he⟩ := bind_eq_ok he
  obtain ⟨c, hc, he⟩ := bind_eq_ok he
  obtain ⟨rfl, ht⟩ := charOfInt_eq ht
  obtain ⟨-, hc⟩ := charOfInt_eq hc
  rw [← Except.ok.inj he, ← hc]
  conv => rhs; rw [← ht]
  exact coded_of_tag fun _ _ => nodeId_reads hn hid

theorem reference_coded {nodeTag creation : Int} {node id e : List UInt8} {j : Nat}
    (hn : AtomBytes (charByte nodeTag) node) (hid : id.length = 4 * j) (hj : 0 < j)
    (he : referenceToBinary nodeTag node id creation = .ok e) :
    Coded fos e (.otpErlangReference nodeTag node id creation) := by
  have hlength : id.length / 4 = j := by omega
  simp only [referenceToBinary, hlength, if_neg (show ¬ j = 0 by omega)] at he
  split at he
  case isTrue hle =>
    obtain ⟨t, ht, he⟩ := bind_eq_ok he
    obtain ⟨c, hc, he⟩ := bind_eq_ok he
    obtain ⟨rfl, ht⟩ := charOfInt_eq ht
    obtain ⟨-, hc⟩ := charOfInt_eq hc
    rw [← Except.ok.inj he, ← hc]
    conv => rhs; rw [← ht]
    exact coded_of_tag fun _ _ => newReference_reads hn hid (by omega)
  case isFalse => cases he

theorem exported_coded {tm tf : UInt8} {em ef : List UInt8} (hm : AtomBytes tm em) (hf : AtomBytes tf ef)
    (arity : UInt8) :
    Coded fos (Tag.exportExt.byte :: (tm :: em ++ tf :: ef ++ [Tag.smallIntegerExt.byte, arity]))
      (.otpErlangFunction Tag.exportExt.byte.toNat (tm :: em ++ tf :: ef ++ [Tag.smallIntegerExt.byte, arity])) := by
  refine coded_of_tag fun depth _ data i bytes hr => ?_
  have hmodule : At data i (tm :: em ++ (tf :: ef ++ (Tag.smallIntegerExt.byte :: arity :: bytes))) := by
    rwa [List.append_assoc, List.append_assoc] at hr
  have hfunction := hmodule.append
  have harity := hfunction.append
  have hlen : (tm :: em ++ tf :: ef ++ [Tag.smallIntegerExt.byte, arity]).length =
      (tm :: em).length + ((tf :: ef).length + 2) := by
    rw [List.length_append, List.length_append, Nat.add_assoc]
    rfl
  rw [binaryToTermOf, binaryToExport, bind_ok (hm.reads hmodule)]
  simp only
  rw [bind_ok (hf.reads hfunction)]
  simp only
  rw [bind_ok (charAt_at harity), if_neg (not_not.mpr rfl)]
  simp only [Nat.add_assoc, Nat.add_sub_cancel_left]
  rw [bind_ok (sub_at hr hlen), hlen]
  rfl

/-! ## Terms in terms -/

/-- Terms one after another, and the values that are read of them. -/
def AllCoded (fos : FloatOfString) (es : List (List UInt8)) (ws : List Value) : Prop := List.Forall₂ (Coded fos) es ws

variable {es : List (List UInt8)}

theorem sequence_reads {ws : List Value} (h : AllCoded fos es ws) {depth : Nat} (hd : es.flatten.length ≤ depth) :
    Reads (fun i => binaryToTermSequence (binaryToTermAt fos depth) i ws.length) es.flatten ws := by
  induction h with
  | nil => exact fun _ _ _ _ => rfl
  | cons hw _ ih =>
    rw [List.flatten_cons, List.length_append] at hd
    intro data i bytes hr
    rw [List.flatten_cons, List.append_assoc] at hr
    rw [List.length_cons, List.flatten_cons, List.length_append]
    show binaryToTermSequence (binaryToTermAt fos depth) i (_ + 1) data = _
    rw [binaryToTermSequence, bind_ok (hw.2 depth (by omega) hr)]
    simp only
    rw [bind_ok (ih (by omega) hr.append), Nat.add_assoc]
    rfl

theorem tuple_coded {ws : List Value} {start : List UInt8} (h : AllCoded fos es ws)
    (hs : tupleToBinary ws.length = .ok start) : Coded fos (start ++ es.flatten) (.otpErlangTuple ws) := by
  unfold tupleToBinary at hs
  split at hs
  case isTrue hle =>
    rw [← Except.ok.inj hs, List.cons_append]
    refine coded_of_tag fun depth hd data i bytes hr => ?_
    rw [List.length_append] at hd
    have hlen : (UInt8.ofNat ws.length).toNat = ws.length := by
      rw [UInt8.toNat_ofNat']
      exact Nat.mod_eq_of_lt (by omega)
    rw [List.append_assoc] at hr
    have hseq := length_be 1 ws.length ▸ hr.append
    rw [binaryToTermOf, bind_ok (charAt_at hr)]
    simp only [hlen]
    rw [bind_ok (sequence_reads h (by omega) hseq), List.length_append, length_be, Nat.add_assoc]
    rfl
  case isFalse =>
    split at hs
    case isTrue hle =>
      rw [← Except.ok.inj hs, List.cons_append]
      refine coded_of_tag fun depth hd data i bytes hr => ?_
      rw [List.length_append] at hd
      rw [List.append_assoc] at hr
      have hseq := length_be 4 ws.length ▸ hr.append
      rw [binaryToTermOf, bind_ok (unpackLength_at hr (by omega))]
      simp only
      rw [bind_ok (sequence_reads h (by omega) hseq), List.length_append, length_be, Nat.add_assoc]
      rfl
    case isFalse => cases hs

theorem list_coded {ws : List Value} {tail : Value} (h : AllCoded fos es ws)
    (hlt : ws.length < 256 ^ 4) (ht : Coded fos e tail) :
    Coded fos (Tag.listExt.byte :: (be 4 ws.length ++ es.flatten ++ e)) (listWithTail ws tail) := by
  refine coded_of_tag fun depth hd data i bytes hr => ?_
  rw [List.length_append, List.length_append] at hd
  rw [List.append_assoc, List.append_assoc] at hr
  have hseq := length_be 4 ws.length ▸ hr.append
  rw [binaryToTermOf, binaryToList, unpackUint32, bind_ok (unpack_at hr hlt)]
  simp only
  rw [bind_ok (sequence_reads h (by omega) hseq)]
  simp only
  rw [bind_ok (ht.2 depth (by omega) hseq.append), List.length_append, List.length_append, length_be]
  simp only [Nat.add_assoc]
  rfl

/-- A long string is a list of its characters. -/
theorem characters_coded (s : List UInt8) :
    AllCoded fos (s.map fun c => [Tag.smallIntegerExt.byte, c]) (s.map fun c => .otpErlangInteger c.toNat) := by
  induction s with
  | nil => exact .nil
  | cons c s ih => exact .cons (smallInteger_coded c) ih

theorem denote_characters (s : List UInt8) :
    denote (.otpErlangList (s.map fun c => .otpErlangInteger c.toNat)) = .ofBytes s := by
  rw [denote, denoteList_proper]
  induction s with
  | nil => rfl
  | cons c s ih =>
    rw [List.map_cons, List.map_cons, List.foldr_cons, ih, denote]
    rfl

theorem string_coded {s e : List UInt8} (he : stringToBinary s = .ok e) :
    ∃ w, Coded fos e w ∧ denote w = .ofBytes s := by
  unfold stringToBinary at he
  split at he
  case isTrue h =>
    rw [← Except.ok.inj he, List.length_eq_zero_iff.mp h]
    exact ⟨_, nil_coded, by rw [denote, denoteList, Term.ofBytes]⟩
  case isFalse =>
    split at he
    case isTrue h =>
      rw [← Except.ok.inj he, List.cons_append]
      refine ⟨.otpErlangString s, coded_of_tag fun depth _ data i bytes hr => ?_, by rw [denote]⟩
      rw [List.append_assoc] at hr
      have hvalue := length_be 2 s.length ▸ hr.append
      rw [binaryToTermOf, unpackUint16, bind_ok (unpack_at hr (by omega))]
      simp only
      rw [bind_ok (sub_at hvalue rfl), List.length_append, length_be, Nat.add_assoc]
      rfl
    case isFalse =>
      split at he
      case isTrue h =>
        have hlist := list_coded (@characters_coded fos s) (by rw [List.length_map]; omega) nil_coded
        rw [List.length_map, ← List.flatMap_def] at hlist
        rw [← Except.ok.inj he]
        exact ⟨_, hlist, denote_characters s⟩
      case isFalse => cases he

/-- The start of a function with free variables: how many, its pid, module, index and unique number. -/
inductive FunStart : Nat → List UInt8 → Prop
  | mk {numfree : Nat} {nodeTag moduleTag creation : UInt8} {node module id serial ei eu : List UInt8} {wi wu : Value}
      (h : numfree < 256 ^ 4) (hn : AtomBytes nodeTag node) (hid : id.length = 4) (hs : serial.length = 4)
      (hm : AtomBytes moduleTag module) (hi : Reads binaryToInteger ei wi) (hu : Reads binaryToInteger eu wu) :
      FunStart numfree (be 4 numfree ++ (Tag.pidExt.byte :: (nodeTag :: node ++ id ++ serial ++ [creation])) ++
        (moduleTag :: module) ++ ei ++ eu)

theorem pid_reads {node id serial : List UInt8} (hn : AtomBytes nodeTag node)
    (hid : id.length = 4) (hs : serial.length = 4) :
    Reads binaryToPid (Tag.pidExt.byte :: (nodeTag :: node ++ id ++ serial ++ [creation]))
      (.otpErlangPid nodeTag.toNat node id serial creation.toNat) := by
  intro data i bytes hr
  rw [binaryToPid, bind_ok (charAt_at hr)]
  simp only [Tag.ofByte_byte]
  rw [pidFields_reads hn hid hs hr.tail, List.length_cons, Nat.add_assoc, Nat.add_comm 1]

theorem closure_coded {start : List UInt8} {ws : List Value}
    (hs : FunStart ws.length start) (h : AllCoded fos es ws) :
    Coded fos (Tag.funExt.byte :: (start ++ es.flatten))
      (.otpErlangFunction Tag.funExt.byte.toNat (start ++ es.flatten)) := by
  refine coded_of_tag fun depth hd data i bytes hr => ?_
  rw [List.length_append] at hd
  cases hs with
  | @mk nodeTag moduleTag creation node module id serial ei eu wi wu hlt hn hid hser hm hi hu =>
    have hpid := @pid_reads nodeTag creation node id serial hn hid hser
    generalize Tag.pidExt.byte :: (nodeTag :: node ++ id ++ serial ++ [creation]) = pid at hr hpid hd ⊢
    have hmodule := hm.reads
    generalize moduleTag :: module = em at hr hmodule hd ⊢
    have hfree : At data i (be 4 ws.length ++ (pid ++ (em ++ (ei ++ (eu ++ (es.flatten ++ bytes)))))) := by
      simpa only [List.append_assoc] using hr
    have hpidAt := length_be 4 ws.length ▸ hfree.append
    have hmoduleAt := hpidAt.append
    have hindexAt := hmoduleAt.append
    have huniqAt := hindexAt.append
    have hseqAt := huniqAt.append
    have hlen : (be 4 ws.length ++ pid ++ em ++ ei ++ eu ++ es.flatten).length =
        4 + (pid.length + (em.length + (ei.length + (eu.length + es.flatten.length)))) := by
      simp only [List.length_append, length_be, Nat.add_assoc]
    rw [binaryToTermOf, binaryToFun, unpackUint32, bind_ok (unpack_at hfree hlt)]
    simp only
    rw [bind_ok (hpid hpidAt)]
    simp only
    rw [bind_ok (hmodule hmoduleAt)]
    simp only
    rw [bind_ok (hi hindexAt)]
    simp only
    rw [bind_ok (hu huniqAt)]
    simp only
    rw [bind_ok (sequence_reads h (by omega) hseqAt)]
    simp only [Nat.add_assoc, Nat.add_sub_cancel_left]
    rw [bind_ok (sub_at hr hlen), hlen]
    rfl

/-! ## The values -/

/-- A value whose parts are what the two directions agree about. -/
inductive Fits (fos : FloatOfString) : Value → Prop
  | otpErlangInteger (value : Int) : Fits fos (.otpErlangInteger value)
  | otpErlangIntegerBig (value : Int) : Fits fos (.otpErlangIntegerBig value)
  | otpErlangFloat (value : BitVec 64) : Fits fos (.otpErlangFloat value)
  | otpErlangAtom (value : List UInt8) : Fits fos (.otpErlangAtom value)
  | otpErlangAtomUTF8 (value : List UInt8) : Fits fos (.otpErlangAtomUTF8 value)
  | otpErlangAtomCacheRef (value : Int) : Fits fos (.otpErlangAtomCacheRef value)
  | otpErlangAtomBool (value : Bool) : Fits fos (.otpErlangAtomBool value)
  | otpErlangString (value : List UInt8) : Fits fos (.otpErlangString value)
  | otpErlangBinary (value : List UInt8) : Fits fos (.otpErlangBinary value)
  | otpErlangBinaryBits (value : List UInt8) {bits : Int} (h : 1 ≤ bits ∧ bits ≤ 8) :
      Fits fos (.otpErlangBinaryBits value bits)
  | otpErlangList {value : List Value} (h : ∀ v ∈ value, Fits fos v) : Fits fos (.otpErlangList value)
  | otpErlangListImproper {value : List Value} (hl : value.length < 256 ^ 4) (h : ∀ v ∈ value, Fits fos v) :
      Fits fos (.otpErlangListImproper value)
  | otpErlangTuple {value : List Value} (h : ∀ v ∈ value, Fits fos v) : Fits fos (.otpErlangTuple value)
  | otpErlangPid {nodeTag : Int} {node id serial : List UInt8} (creation : Int)
      (hn : AtomBytes (charByte nodeTag) node) (hid : id.length = 4) (hs : serial.length = 4) :
      Fits fos (.otpErlangPid nodeTag node id serial creation)
  | otpErlangPort {nodeTag : Int} {node id : List UInt8} (creation : Int) (hn : AtomBytes (charByte nodeTag) node)
      (hid : id.length = 4) : Fits fos (.otpErlangPort nodeTag node id creation)
  | otpErlangReference {nodeTag : Int} {node id : List UInt8} {j : Nat} (creation : Int)
      (hn : AtomBytes (charByte nodeTag) node) (hid : id.length = 4 * j) (hj : 0 < j) :
      Fits fos (.otpErlangReference nodeTag node id creation)
  | exported {tm tf : UInt8} {em ef : List UInt8} (hm : AtomBytes tm em) (hf : AtomBytes tf ef) (arity : UInt8) :
      Fits fos (.otpErlangFunction Tag.exportExt.byte.toNat
        (tm :: em ++ tf :: ef ++ [Tag.smallIntegerExt.byte, arity]))
  | closure {start : List UInt8} {es : List (List UInt8)} {ws : List Value} (hs : FunStart ws.length start)
      (h : AllCoded fos es ws) : Fits fos (.otpErlangFunction Tag.funExt.byte.toNat (start ++ es.flatten))

/-- The bytes of a value, where it is encoded, are read as a value that denotes the same. -/
def Encoded (fos : FloatOfString) (v : Value) : Prop :=
  ∀ e, termToBinaryOf v = .ok e → ∃ w, Coded fos e w ∧ denote w = denote v

theorem writes : Writes termToBinaryOf sequenceToBinary :=
  ⟨by rw [sequenceToBinary], fun a l => by rw [sequenceToBinary]; rfl⟩

theorem sequence_coded {vs : List Value} (h : ∀ v ∈ vs, Encoded fos v) (he : sequenceToBinary vs = .ok e) :
    ∃ es ws, e = es.flatten ∧ AllCoded fos es ws ∧ ws.map denote = vs.map denote :=
  writes.read h he

/-- As many values are read as there are values with the same denotations. -/
theorem length_of_denote {ws vs : List Value} (h : ws.map denote = vs.map denote) : ws.length = vs.length := by
  simpa only [List.length_map] using congrArg List.length h

theorem list_encoded {vs : List Value} (h : ∀ v ∈ vs, Encoded fos v) : Encoded fos (.otpErlangList vs) := by
  intro e he
  rw [termToBinaryOf] at he
  split at he
  case isTrue hnil =>
    rw [← Except.ok.inj he, List.length_eq_zero_iff.mp hnil]
    exact ⟨_, nil_coded, rfl⟩
  case isFalse =>
    split at he
    case isTrue hle =>
      obtain ⟨elements, hes, he⟩ := bind_eq_ok he
      obtain ⟨es, ws, rfl, hws, hden⟩ := sequence_coded h hes
      have hlen := length_of_denote hden
      have hlist := list_coded hws (by omega) (@nil_coded fos)
      rw [hlen] at hlist
      refine ⟨_, by rw [← Except.ok.inj he]; exact hlist, ?_⟩
      rw [denote_listWithTail, denote, denote, denoteList, denoteList_proper, hden]
    case isFalse => cases he

theorem improper_encoded {vs : List Value} (h : ∀ v ∈ vs, Encoded fos v) : Encoded fos (.otpErlangListImproper vs) := by
  intro e he
  rw [termToBinaryOf] at he
  split at he
  case isTrue hnil =>
    rw [← Except.ok.inj he, List.length_eq_zero_iff.mp hnil]
    exact ⟨_, nil_coded, by rw [denote, denote, denoteList, denoteList]⟩
  case isFalse hne =>
    split at he
    case isTrue hle =>
      obtain ⟨elements, hes, he⟩ := bind_eq_ok he
      obtain rfl | ⟨init, tail, rfl⟩ := List.eq_nil_or_concat' vs
      · exact absurd rfl hne
      · obtain ⟨e₁, e₂, rfl, hinit, htail⟩ := writes.concat hes
        obtain ⟨es, ws, rfl, hws, hden⟩ := sequence_coded (fun v hv => h v (List.mem_append_left _ hv)) hinit
        obtain ⟨w, hw, hwden⟩ := h tail (List.mem_append_right _ (List.mem_singleton_self tail)) e₂ htail
        have hlen := length_of_denote hden
        rw [List.length_append, List.length_singleton] at hle he
        have hlist := list_coded hws (by omega) hw
        rw [hlen, List.append_assoc] at hlist
        refine ⟨_, by rw [← Except.ok.inj he]; exact hlist, ?_⟩
        rw [denote_listWithTail, denote, denoteList_improper, hden, hwden]
    case isFalse => cases he

theorem tuple_encoded {vs : List Value} (h : ∀ v ∈ vs, Encoded fos v) : Encoded fos (.otpErlangTuple vs) := by
  intro e he
  rw [termToBinaryOf] at he
  obtain ⟨start, hs, he⟩ := bind_eq_ok he
  obtain ⟨elements, hes, he⟩ := bind_eq_ok he
  obtain ⟨es, ws, rfl, hws, hden⟩ := sequence_coded h hes
  rw [← length_of_denote hden] at hs
  refine ⟨_, (Except.ok.inj he) ▸ tuple_coded hws hs, ?_⟩
  rw [denote, denote, denoteSequence_eq, denoteSequence_eq, hden]

theorem function_encoded {tag : UInt8} {value : List UInt8}
    (h : Coded fos (tag :: value) (.otpErlangFunction tag.toNat value)) :
    Encoded fos (.otpErlangFunction tag.toNat value) := by
  intro e he
  rw [termToBinaryOf] at he
  obtain ⟨t, ht, he⟩ := bind_eq_ok he
  have hlt := tag.toNat_lt
  obtain ⟨rfl, -⟩ := charOfInt_eq ht
  rw [charByte, Int.toNat_natCast, UInt8.ofNat_toNat] at he
  exact ⟨_, (Except.ok.inj he) ▸ h, rfl⟩

/-- The bytes of a value whose parts fit are read as a value that denotes the same Erlang term. -/
theorem fits_encoded {v : Value} (h : Fits fos v) : Encoded fos v := by
  induction h with
  | otpErlangInteger value =>
    intro e he
    rw [termToBinaryOf] at he
    obtain ⟨w, hw, hden⟩ := integer_coded he
    exact ⟨w, hw, by rw [hden, denote]⟩
  | otpErlangIntegerBig value =>
    intro e he
    rw [termToBinaryOf] at he
    exact ⟨_, bignum_coded he, rfl⟩
  | otpErlangFloat value =>
    intro e he
    rw [termToBinaryOf] at he
    exact ⟨_, (Except.ok.inj he) ▸ float_coded value, rfl⟩
  | otpErlangAtom value =>
    intro e he
    rw [termToBinaryOf] at he
    rw [denote]
    exact atom_coded he
  | otpErlangAtomUTF8 value =>
    intro e he
    rw [termToBinaryOf] at he
    exact ⟨_, atomUtf8_coded he, rfl⟩
  | otpErlangAtomCacheRef value => exact fun e he => ⟨_, cacheRef_coded he, rfl⟩
  | otpErlangAtomBool value =>
    intro e he
    rw [termToBinaryOf] at he
    rw [denote]
    exact atom_coded he
  | otpErlangString value =>
    intro e he
    rw [termToBinaryOf] at he
    rw [denote]
    exact string_coded he
  | otpErlangBinary value =>
    intro e he
    rw [termToBinaryOf] at he
    rw [denote]
    exact binaryBits_coded he
  | otpErlangBinaryBits value =>
    intro e he
    rw [termToBinaryOf] at he
    rw [denote]
    exact binaryBits_coded he
  | otpErlangList _ ih => exact list_encoded ih
  | otpErlangListImproper _ _ ih => exact improper_encoded ih
  | otpErlangTuple _ ih => exact tuple_encoded ih
  | otpErlangPid creation hn hid hs =>
    intro e he
    rw [termToBinaryOf] at he
    exact ⟨_, pid_coded hn hid hs he, rfl⟩
  | otpErlangPort creation hn hid =>
    intro e he
    rw [termToBinaryOf] at he
    exact ⟨_, port_coded hn hid he, rfl⟩
  | otpErlangReference creation hn hid hj =>
    intro e he
    rw [termToBinaryOf] at he
    exact ⟨_, reference_coded hn hid hj he, rfl⟩
  | exported hm hf arity => exact function_encoded (exported_coded hm hf arity)
  | closure hs h => exact function_encoded (closure_coded hs h)

/-! ## Whole data -/

theorem binaryToTerm_coded {w : Value} (h : Coded fos e w) {depth : Nat} (hd : e.length ≤ depth) :
    binaryToTerm fos depth (tagVersion :: e) = .ok w := by
  have hpos := h.1
  have hat : At (tagVersion :: e) 1 (e ++ []) := by
    rw [List.append_nil]
    exact (At.start (tagVersion :: e)).tail
  have hread := h.2 depth hd hat
  rw [binaryToTerm, List.length_cons, if_neg (by omega), List.head?_cons, if_neg (not_not.mpr rfl), hread]
  simp only
  rw [if_neg (not_not.mpr (Nat.add_comm 1 e.length))]

/-- What is encoded is decoded to a value that denotes the same Erlang term, however deep it is nested. -/
theorem decoded_of_encoded {v : Value} (h : Fits fos v) {data : List UInt8} (he : termToBinary v = .ok data) :
    ∃ w, (∀ depth, data.length ≤ depth → binaryToTerm fos depth data = .ok w) ∧ denote w = denote v := by
  obtain ⟨e, hterm, he⟩ := bind_eq_ok he
  obtain ⟨w, hw, hden⟩ := fits_encoded h e hterm
  rw [← Except.ok.inj he]
  refine ⟨w, fun depth hd => binaryToTerm_coded hw ?_, hden⟩
  rw [List.length_cons] at hd
  omega

end CloudI.Api.OCaml
