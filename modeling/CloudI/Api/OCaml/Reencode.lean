import CloudI.Api.OCaml.RoundTrip

/-!
# What the OCaml codec decodes is encoded again

The decoder only makes values that the format has room for (`Sized`,
`binaryToTermAt_sized`), and such a value is encoded if its parts fit
(`sized_encodes`). `term_codec_round_trips` is both directions of the codec, and
`map_tag_lost` what becomes of a map.
-/

namespace CloudI.Api.OCaml

open Slices

/-- A number that `char_of_int` takes. -/
def IsChar (n : Int) : Prop := 0 ≤ n ∧ n ≤ 255

/-- A value that the decoder can make. -/
inductive Sized : Value → Prop
  | otpErlangInteger {value : Int} (h : -2147483648 ≤ value ∧ value ≤ 2147483647) : Sized (.otpErlangInteger value)
  | otpErlangIntegerBig {value : Int} (h : (minimal value.natAbs).length < 256 ^ 4) : Sized (.otpErlangIntegerBig value)
  | otpErlangFloat (value : BitVec 64) : Sized (.otpErlangFloat value)
  | otpErlangAtom {value : List UInt8} (h : value.length < 256 ^ 2) : Sized (.otpErlangAtom value)
  | otpErlangAtomUTF8 {value : List UInt8} (h : value.length < 256 ^ 2) : Sized (.otpErlangAtomUTF8 value)
  | otpErlangAtomCacheRef {value : Int} (h : IsChar value) : Sized (.otpErlangAtomCacheRef value)
  | otpErlangAtomBool (value : Bool) : Sized (.otpErlangAtomBool value)
  | otpErlangString {value : List UInt8} (h : value.length < 256 ^ 2) : Sized (.otpErlangString value)
  | otpErlangBinary {value : List UInt8} (h : value.length < 256 ^ 4) : Sized (.otpErlangBinary value)
  | otpErlangBinaryBits {value : List UInt8} (bits : Int) (h : value.length < 256 ^ 4) :
      Sized (.otpErlangBinaryBits value bits)
  | otpErlangList {value : List Value} (hl : value.length < 256 ^ 4) (h : ∀ v ∈ value, Sized v) :
      Sized (.otpErlangList value)
  | otpErlangListImproper {value : List Value} (h : ∀ v ∈ value, Sized v) : Sized (.otpErlangListImproper value)
  | otpErlangTuple {value : List Value} (hl : value.length < 256 ^ 4) (h : ∀ v ∈ value, Sized v) :
      Sized (.otpErlangTuple value)
  | otpErlangMap (value : List (Value × Value)) : Sized (.otpErlangMap value)
  | otpErlangPid {nodeTag creation : Int} (node id serial : List UInt8) (ht : IsChar nodeTag) (hc : IsChar creation) :
      Sized (.otpErlangPid nodeTag node id serial creation)
  | otpErlangPort {nodeTag creation : Int} (node id : List UInt8) (ht : IsChar nodeTag) (hc : IsChar creation) :
      Sized (.otpErlangPort nodeTag node id creation)
  | otpErlangReference {nodeTag creation : Int} (node : List UInt8) {id : List UInt8} (hid : id.length ≤ 4 * 65535)
      (ht : IsChar nodeTag) (hc : IsChar creation) : Sized (.otpErlangReference nodeTag node id creation)
  | otpErlangFunction {tag : Int} (value : List UInt8) (h : IsChar tag) : Sized (.otpErlangFunction tag value)

/-! ## What the decoder reads -/

section Read

variable {data l : List UInt8} {i i' k n : Nat} {v : Value}

theorem isChar_toNat (c : UInt8) : IsChar c.toNat := by
  have := c.toNat_lt
  constructor <;> omega

theorem sub_length (h : sub i n data = .ok l) : l.length = n := by
  unfold sub at h
  split at h
  case isTrue => cases h
  case isFalse hle =>
    cases h
    rw [List.length_take, List.length_drop]
    omega

theorem unpack_lt (h : unpack k i data = .ok n) : n < 256 ^ k := by
  obtain ⟨bytes, hb, h⟩ := bind_eq_ok h
  cases h
  exact sub_length hb ▸ ofBe_lt bytes

theorem unpackLength_lt (h : unpackLength i data = .ok (i', n)) : n < 256 ^ 4 := by
  obtain ⟨j, hj, h⟩ := bind_eq_ok h
  split at h
  case isTrue => cases h
  case isFalse =>
    cases h
    exact unpack_lt hj

theorem char_lt (c : UInt8) : c.toNat < 256 ^ 2 := c.toNat_lt.trans (by decide)

theorem bignumLoop_lt {b m : Nat} (h : bignumLoop data i n b = .ok m) : m < (b + 1) * 256 ^ n := by
  induction n generalizing b with
  | zero =>
    rw [bignumLoop] at h
    rw [← Except.ok.inj h, Nat.pow_zero]
    omega
  | succ n ih =>
    obtain ⟨digit, -, h⟩ := bind_eq_ok h
    have hdigit := digit.toNat_lt
    have hle : digit.toNat + 256 * b + 1 ≤ (b + 1) * 256 := by omega
    calc m < (digit.toNat + 256 * b + 1) * 256 ^ n := ih h
      _ ≤ (b + 1) * 256 * 256 ^ n := Nat.mul_le_mul_right _ hle
      _ = (b + 1) * 256 ^ (n + 1) := by rw [Nat.pow_succ, Nat.mul_assoc, Nat.mul_comm 256]

theorem binaryToBignum_sized (hn : n < 256 ^ 4) (h : binaryToBignum i n data = .ok (i', v)) : Sized v := by
  unfold binaryToBignum at h
  split at h
  case isTrue => cases h
  case isFalse =>
    obtain ⟨sign, -, h⟩ := bind_eq_ok h
    obtain ⟨m, hm, h⟩ := bind_eq_ok h
    have hlt := bignumLoop_lt hm
    rw [Nat.zero_add, Nat.one_mul] at hlt
    have hlen := (minimal_length_le hlt).trans_lt hn
    cases h
    refine .otpErlangIntegerBig ?_
    split
    · rw [Int.natAbs_neg]
      exact hlen
    · exact hlen

theorem binaryToInt32_sized (h : binaryToInt32 i data = .ok (i', v)) : Sized v := by
  obtain ⟨value, hvalue, h⟩ := bind_eq_ok h
  obtain ⟨n, -, hvalue⟩ := bind_eq_ok hvalue
  cases hvalue
  cases h
  have hle := BitVec.le_toInt (BitVec.ofNat 32 n)
  have hlt := @BitVec.toInt_lt 32 (BitVec.ofNat 32 n)
  exact .otpErlangInteger ⟨by omega, by omega⟩

theorem binaryToSmallInteger_sized (h : binaryToSmallInteger i data = .ok (i', v)) : Sized v := by
  obtain ⟨n, -, h⟩ := bind_eq_ok h
  have hlt := n.toNat_lt
  cases h
  exact .otpErlangInteger ⟨by omega, by omega⟩

theorem binaryToNodeId_sized {make : Int → List UInt8 → List UInt8 → Int → Value}
    (hm : ∀ nodeTag node id creation, IsChar nodeTag → id.length ≤ 4 → IsChar creation →
      Sized (make nodeTag node id creation)) (h : binaryToNodeId make i data = .ok (i', v)) : Sized v := by
  obtain ⟨⟨i₁, nodeTag, node⟩, -, h⟩ := bind_eq_ok h
  obtain ⟨id, hid, h⟩ := bind_eq_ok h
  obtain ⟨creation, -, h⟩ := bind_eq_ok h
  cases h
  exact hm _ _ _ _ (isChar_toNat nodeTag) (sub_length hid).le (isChar_toNat creation)

theorem binaryToPidFields_sized (h : binaryToPidFields i data = .ok (i', v)) : Sized v := by
  obtain ⟨⟨i₁, nodeTag, node⟩, -, h⟩ := bind_eq_ok h
  obtain ⟨id, -, h⟩ := bind_eq_ok h
  obtain ⟨serial, -, h⟩ := bind_eq_ok h
  obtain ⟨creation, -, h⟩ := bind_eq_ok h
  cases h
  exact .otpErlangPid _ _ _ (isChar_toNat nodeTag) (isChar_toNat creation)

theorem binaryToExport_sized (h : binaryToExport i data = .ok (i', v)) : Sized v := by
  obtain ⟨_, -, h⟩ := bind_eq_ok h
  obtain ⟨_, -, h⟩ := bind_eq_ok h
  obtain ⟨_, -, h⟩ := bind_eq_ok h
  simp only at h
  split at h
  · cases h
  · obtain ⟨_, -, h⟩ := bind_eq_ok h
    cases h
    exact .otpErlangFunction _ (isChar_toNat _)

theorem binaryToNewReference_sized (h : binaryToNewReference i data = .ok (i', v)) : Sized v := by
  obtain ⟨j, hj, h⟩ := bind_eq_ok h
  obtain ⟨⟨i₁, nodeTag, node⟩, -, h⟩ := bind_eq_ok h
  obtain ⟨creation, -, h⟩ := bind_eq_ok h
  obtain ⟨id, hid, h⟩ := bind_eq_ok h
  have hlt : j < 256 ^ 2 := unpack_lt hj
  have hlen := sub_length hid
  cases h
  exact .otpErlangReference _ (by omega) (isChar_toNat nodeTag) (isChar_toNat creation)

theorem sized_smallAtom {name : List UInt8} (h : name.length < 256 ^ 2) : Sized (smallAtom name) := by
  unfold smallAtom
  split
  · exact .otpErlangAtomBool true
  · split
    · exact .otpErlangAtomBool false
    · exact .otpErlangAtom h

end Read

/-! ## What the decoder makes -/

section Terms

variable {terms : Nat → List UInt8 → Except Fault (Decoded Value)} {data : List UInt8} {i i' n : Nat} {v : Value}
  {vs : List Value} {fos : FloatOfString}

/-- The calls of the decoder to itself make values that it can make. -/
def AllSized (terms : Nat → List UInt8 → Except Fault (Decoded Value)) : Prop :=
  ∀ i data i' v, terms i data = .ok (i', v) → Sized v

theorem binaryToTermSequence_sized (ht : AllSized terms) (h : binaryToTermSequence terms i n data = .ok (i', vs)) :
    vs.length = n ∧ ∀ v ∈ vs, Sized v := by
  induction n generalizing i vs with
  | zero =>
    cases h
    exact ⟨rfl, fun v hv => absurd hv List.not_mem_nil⟩
  | succ n ih =>
    obtain ⟨⟨i₁, element⟩, he, h⟩ := bind_eq_ok h
    obtain ⟨⟨i₂, sequence⟩, hs, h⟩ := bind_eq_ok h
    cases h
    obtain ⟨hlen, hall⟩ := ih hs
    exact ⟨congrArg (· + 1) hlen, List.forall_mem_cons.mpr ⟨ht _ _ _ _ he, hall⟩⟩

theorem tuple_sized (ht : AllSized terms) (hn : n < 256 ^ 4)
    (h : binaryToTermSequence terms i n data = .ok (i', vs)) : Sized (.otpErlangTuple vs) := by
  obtain ⟨hlen, hall⟩ := binaryToTermSequence_sized ht h
  exact .otpErlangTuple (hlen ▸ hn) hall

theorem sized_listWithTail {tmp : List Value} {tail : Value} (hl : tmp.length < 256 ^ 4) (h : ∀ v ∈ tmp, Sized v)
    (ht : Sized tail) : Sized (listWithTail tmp tail) := by
  unfold listWithTail
  split
  · exact .otpErlangList hl h
  · exact .otpErlangListImproper (List.forall_mem_append.mpr ⟨h, List.forall_mem_singleton.mpr ht⟩)

theorem binaryToList_sized (ht : AllSized terms) (h : binaryToList terms i data = .ok (i', v)) : Sized v := by
  obtain ⟨length, hlength, h⟩ := bind_eq_ok h
  obtain ⟨⟨i₂, tmp⟩, hs, h⟩ := bind_eq_ok h
  obtain ⟨⟨i₃, tail⟩, htail, h⟩ := bind_eq_ok h
  cases h
  obtain ⟨hlen, hall⟩ := binaryToTermSequence_sized ht hs
  exact sized_listWithTail (hlen ▸ unpack_lt hlength) hall (ht _ _ _ _ htail)

theorem binaryToFun_sized (h : binaryToFun terms i data = .ok (i', v)) : Sized v := by
  obtain ⟨_, -, h⟩ := bind_eq_ok h
  obtain ⟨_, -, h⟩ := bind_eq_ok h
  obtain ⟨_, -, h⟩ := bind_eq_ok h
  obtain ⟨_, -, h⟩ := bind_eq_ok h
  obtain ⟨_, -, h⟩ := bind_eq_ok h
  obtain ⟨_, -, h⟩ := bind_eq_ok h
  obtain ⟨_, -, h⟩ := bind_eq_ok h
  cases h
  exact .otpErlangFunction _ (isChar_toNat _)

theorem binaryToTermOf_sized (ht : AllSized terms) {tag : Tag}
    (h : binaryToTermOf terms fos tag i data = .ok (i', v)) : Sized v := by
  cases tag with
  | newFloatExt =>
    obtain ⟨value, -, h⟩ := bind_eq_ok h
    cases h
    exact .otpErlangFloat _
  | bitBinaryExt =>
    obtain ⟨⟨i₁, j⟩, hj, h⟩ := bind_eq_ok h
    obtain ⟨bits, -, h⟩ := bind_eq_ok h
    obtain ⟨value, hvalue, h⟩ := bind_eq_ok h
    have hlen := sub_length hvalue
    have hlt := unpackLength_lt hj
    cases h
    split
    · exact .otpErlangBinary (hlen ▸ hlt)
    · exact .otpErlangBinaryBits _ (hlen ▸ hlt)
  | atomCacheRef =>
    obtain ⟨c, -, h⟩ := bind_eq_ok h
    cases h
    exact .otpErlangAtomCacheRef (isChar_toNat c)
  | smallIntegerExt => exact binaryToSmallInteger_sized h
  | integerExt => exact binaryToInt32_sized h
  | floatExt =>
    obtain ⟨value, -, h⟩ := bind_eq_ok h
    split at h
    · cases h
      exact .otpErlangFloat _
    · cases h
  | atomExt =>
    obtain ⟨j, hj, h⟩ := bind_eq_ok h
    obtain ⟨value, hvalue, h⟩ := bind_eq_ok h
    cases h
    exact .otpErlangAtom (sub_length hvalue ▸ unpack_lt hj)
  | referenceExt =>
    exact binaryToNodeId_sized (fun _ node _ _ ht hid hc => .otpErlangReference node (hid.trans (by decide)) ht hc) h
  | portExt => exact binaryToNodeId_sized (fun _ node id _ ht _ hc => .otpErlangPort node id ht hc) h
  | pidExt => exact binaryToPidFields_sized h
  | smallTupleExt =>
    obtain ⟨length, -, h⟩ := bind_eq_ok h
    obtain ⟨⟨i₂, tmp⟩, hs, h⟩ := bind_eq_ok h
    cases h
    exact tuple_sized ht (length.toNat_lt.trans (by decide)) hs
  | largeTupleExt =>
    obtain ⟨⟨i₁, length⟩, hlength, h⟩ := bind_eq_ok h
    obtain ⟨⟨i₂, tmp⟩, hs, h⟩ := bind_eq_ok h
    cases h
    exact tuple_sized ht (unpackLength_lt hlength) hs
  | nilExt =>
    cases h
    exact .otpErlangList (by decide) fun v hv => absurd hv List.not_mem_nil
  | stringExt =>
    obtain ⟨j, hj, h⟩ := bind_eq_ok h
    obtain ⟨value, hvalue, h⟩ := bind_eq_ok h
    cases h
    exact .otpErlangString (sub_length hvalue ▸ unpack_lt hj)
  | listExt => exact binaryToList_sized ht h
  | binaryExt =>
    obtain ⟨⟨i₁, j⟩, hj, h⟩ := bind_eq_ok h
    obtain ⟨value, hvalue, h⟩ := bind_eq_ok h
    cases h
    exact .otpErlangBinary (sub_length hvalue ▸ unpackLength_lt hj)
  | smallBigExt =>
    obtain ⟨j, -, h⟩ := bind_eq_ok h
    exact binaryToBignum_sized (j.toNat_lt.trans (by decide)) h
  | largeBigExt =>
    obtain ⟨j, hj, h⟩ := bind_eq_ok h
    exact binaryToBignum_sized (unpack_lt hj) h
  | newFunExt =>
    obtain ⟨length, -, h⟩ := bind_eq_ok h
    obtain ⟨value, -, h⟩ := bind_eq_ok h
    cases h
    exact .otpErlangFunction _ (isChar_toNat _)
  | exportExt => exact binaryToExport_sized h
  | newReferenceExt => exact binaryToNewReference_sized h
  | smallAtomExt =>
    obtain ⟨j, -, h⟩ := bind_eq_ok h
    obtain ⟨name, hname, h⟩ := bind_eq_ok h
    cases h
    exact sized_smallAtom (sub_length hname ▸ char_lt j)
  | mapExt =>
    obtain ⟨length, -, h⟩ := bind_eq_ok h
    obtain ⟨⟨i₁, pairs⟩, -, h⟩ := bind_eq_ok h
    cases h
    exact .otpErlangMap _
  | funExt => exact binaryToFun_sized h
  | atomUtf8Ext =>
    obtain ⟨j, hj, h⟩ := bind_eq_ok h
    obtain ⟨value, hvalue, h⟩ := bind_eq_ok h
    cases h
    exact .otpErlangAtomUTF8 (sub_length hvalue ▸ unpack_lt hj)
  | smallAtomUtf8Ext =>
    obtain ⟨j, -, h⟩ := bind_eq_ok h
    obtain ⟨value, hvalue, h⟩ := bind_eq_ok h
    cases h
    exact .otpErlangAtomUTF8 (sub_length hvalue ▸ char_lt j)
  | compressedZlib => cases h

theorem binaryToTermAt_sized (depth : Nat) : AllSized (binaryToTermAt fos depth) := by
  induction depth with
  | zero =>
    intro i data i' v h
    cases h
  | succ depth ih =>
    intro i data i' v h
    obtain ⟨tag, -, h⟩ := bind_eq_ok h
    simp only at h
    split at h
    · exact binaryToTermOf_sized ih h
    · cases h

theorem binaryToTerm_sized {depth : Nat} (h : binaryToTerm fos depth data = .ok v) : Sized v := by
  unfold binaryToTerm at h
  split at h
  · cases h
  · split at h
    · cases h
    · split at h
      · rename_i i term hterm
        split at h
        · cases h
        · cases h
          exact binaryToTermAt_sized depth _ _ _ _ hterm
      · cases h
      · cases h

end Terms

/-! ## Encoding again -/

/-- A value that is encoded. -/
def Encodes (v : Value) : Prop := ∃ e, termToBinaryOf v = .ok e

theorem charOfInt_ok {n : Int} (h : IsChar n) : charOfInt n = .ok (.ofNat n.toNat) := if_pos h

theorem nameToBinary_ok {small large : Tag} {name : List UInt8} (h : name.length < 256 ^ 2) :
    ∃ e, nameToBinary small large name = .ok e := by
  unfold nameToBinary
  split
  · exact ⟨_, rfl⟩
  · rw [if_pos (by omega)]
    exact ⟨_, rfl⟩

theorem bignumToBinary_ok {n : Int} (h : (minimal n.natAbs).length < 256 ^ 4) : ∃ e, bignumToBinary n = .ok e := by
  simp only [bignumToBinary]
  split
  · exact ⟨_, rfl⟩
  · rw [if_pos (by omega)]
    exact ⟨_, rfl⟩

theorem integerToBinary_ok {n : Int} (h : -2147483648 ≤ n ∧ n ≤ 2147483647) : ∃ e, integerToBinary n = .ok e := by
  unfold integerToBinary
  split
  · exact ⟨_, rfl⟩
  · exact ⟨_, rfl⟩

theorem binaryBitsToBinary_ok {value : List UInt8} {bits : Int} (hb : 1 ≤ bits ∧ bits ≤ 8)
    (h : value.length < 256 ^ 4) : ∃ e, binaryBitsToBinary value bits = .ok e := by
  rw [binaryBitsToBinary, if_neg (by omega), if_pos (by omega)]
  split <;> exact ⟨_, rfl⟩

theorem referenceToBinary_ok {nodeTag creation : Int} (node : List UInt8) {id : List UInt8}
    (hid : id.length ≤ 4 * 65535) (ht : IsChar nodeTag) (hc : IsChar creation) :
    ∃ e, referenceToBinary nodeTag node id creation = .ok e := by
  simp only [referenceToBinary, charOfInt_ok ht, charOfInt_ok hc]
  split
  · exact ⟨_, rfl⟩
  · rw [if_pos (by omega)]
    exact ⟨_, rfl⟩

theorem sequence_encodes {vs : List Value} (h : ∀ v ∈ vs, Encodes v) : ∃ e, sequenceToBinary vs = .ok e := by
  induction vs with
  | nil => exact ⟨[], by rw [sequenceToBinary]⟩
  | cons v vs ih =>
    obtain ⟨e, he⟩ := h v List.mem_cons_self
    obtain ⟨es, hes⟩ := ih fun u hu => h u (List.mem_cons_of_mem v hu)
    rw [sequenceToBinary, bind_ok he, bind_ok hes]
    exact ⟨_, rfl⟩

theorem tuple_encodes {vs : List Value} (hl : vs.length < 256 ^ 4) (h : ∀ v ∈ vs, Encodes v) :
    Encodes (.otpErlangTuple vs) := by
  obtain ⟨es, hes⟩ := sequence_encodes h
  rw [Encodes, termToBinaryOf, tupleToBinary]
  split
  · rw [bind_ok rfl, bind_ok hes]
    exact ⟨_, rfl⟩
  · rw [if_pos (by omega), bind_ok rfl, bind_ok hes]
    exact ⟨_, rfl⟩

theorem list_encodes {vs : List Value} (hl : vs.length < 256 ^ 4) (h : ∀ v ∈ vs, Encodes v) :
    Encodes (.otpErlangList vs) ∧ Encodes (.otpErlangListImproper vs) := by
  obtain ⟨es, hes⟩ := sequence_encodes h
  have hle : vs.length ≤ 4294967295 := by omega
  constructor
  all_goals
    rw [Encodes, termToBinaryOf]
    split
  · exact ⟨_, rfl⟩
  · rw [bind_ok hes]
    exact ⟨_, rfl⟩
  · exact ⟨_, rfl⟩
  · rw [bind_ok hes]
    exact ⟨_, rfl⟩

/-- What the decoder makes is encoded, if its parts fit. -/
theorem sized_encodes {fos : FloatOfString} {v : Value} (h : Fits fos v) (hs : Sized v) : Encodes v := by
  induction h with
  | otpErlangInteger value =>
    cases hs with
    | otpErlangInteger h =>
      rw [Encodes, termToBinaryOf]
      exact integerToBinary_ok h
  | otpErlangIntegerBig value =>
    cases hs with
    | otpErlangIntegerBig h =>
      rw [Encodes, termToBinaryOf]
      exact bignumToBinary_ok h
  | otpErlangFloat value => exact ⟨_, by rw [termToBinaryOf]⟩
  | otpErlangAtom value =>
    cases hs with
    | otpErlangAtom h =>
      rw [Encodes, termToBinaryOf]
      exact nameToBinary_ok h
  | otpErlangAtomUTF8 value =>
    cases hs with
    | otpErlangAtomUTF8 h =>
      rw [Encodes, termToBinaryOf]
      exact nameToBinary_ok h
  | otpErlangAtomCacheRef value =>
    cases hs with
    | otpErlangAtomCacheRef h =>
      rw [Encodes, termToBinaryOf, charOfInt_ok h]
      exact ⟨_, rfl⟩
  | otpErlangAtomBool value =>
    rw [Encodes, termToBinaryOf]
    exact nameToBinary_ok (by cases value <;> decide)
  | otpErlangString value =>
    cases hs with
    | otpErlangString h =>
      rw [Encodes, termToBinaryOf, stringToBinary]
      split
      · exact ⟨_, rfl⟩
      · rw [if_pos (by omega)]
        exact ⟨_, rfl⟩
  | otpErlangBinary value =>
    cases hs with
    | otpErlangBinary h =>
      rw [Encodes, termToBinaryOf]
      exact binaryBitsToBinary_ok (by omega) h
  | otpErlangBinaryBits value hb =>
    cases hs with
    | otpErlangBinaryBits _ h =>
      rw [Encodes, termToBinaryOf]
      exact binaryBitsToBinary_ok hb h
  | otpErlangList _ ih =>
    cases hs with
    | otpErlangList hl hall => exact (list_encodes hl fun v hv => ih v hv (hall v hv)).1
  | otpErlangListImproper hl _ ih =>
    cases hs with
    | otpErlangListImproper hall => exact (list_encodes hl fun v hv => ih v hv (hall v hv)).2
  | otpErlangTuple _ ih =>
    cases hs with
    | otpErlangTuple hl hall => exact tuple_encodes hl fun v hv => ih v hv (hall v hv)
  | otpErlangPid creation hn hid hser =>
    cases hs with
    | otpErlangPid node id serial ht hc =>
      rw [Encodes, termToBinaryOf, pidToBinary, charOfInt_ok ht, charOfInt_ok hc]
      exact ⟨_, rfl⟩
  | otpErlangPort creation hn hid =>
    cases hs with
    | otpErlangPort node id ht hc =>
      rw [Encodes, termToBinaryOf, portToBinary, charOfInt_ok ht, charOfInt_ok hc]
      exact ⟨_, rfl⟩
  | otpErlangReference creation hn hid hj =>
    cases hs with
    | otpErlangReference _ hlen ht hc =>
      rw [Encodes, termToBinaryOf]
      exact referenceToBinary_ok _ hlen ht hc
  | exported hm hf arity =>
    rw [Encodes, termToBinaryOf, functionToBinary, charOfInt_ok (isChar_toNat _)]
    exact ⟨_, rfl⟩
  | closure hstart h =>
    rw [Encodes, termToBinaryOf, functionToBinary, charOfInt_ok (isChar_toNat _)]
    exact ⟨_, rfl⟩

/-- Both directions of the codec, for values whose parts fit: what is encoded
is decoded to a value that denotes the same Erlang term, and what is decoded
is encoded, and decoded to such a value again. -/
theorem term_codec_round_trips (fos : FloatOfString) :
    (∀ v data, Fits fos v → termToBinary v = .ok data →
      ∃ w, (∀ depth, data.length ≤ depth → binaryToTerm fos depth data = .ok w) ∧ denote w = denote v) ∧
    ∀ depth data t, binaryToTerm fos depth data = .ok t → Fits fos t → ∃ encoded, termToBinary t = .ok encoded ∧
      ∃ w, (∀ depth, encoded.length ≤ depth → binaryToTerm fos depth encoded = .ok w) ∧ denote w = denote t := by
  refine ⟨fun v data h he => decoded_of_encoded h he, fun depth data t hdecode h => ?_⟩
  obtain ⟨e, he⟩ := sized_encodes h (binaryToTerm_sized hdecode)
  have hdata : termToBinary t = .ok (tagVersion :: e) := by
    rw [termToBinary, bind_ok he]
    rfl
  exact ⟨_, hdata, decoded_of_encoded h hdata⟩

set_option maxRecDepth 4000 in
/-- A tuple of an improper list, a pid and an exported function, and the bytes
of an atom of the longer kind. -/
theorem term_codec_round_trips_tuple :
    (∃ w, (∀ depth, 50 ≤ depth → binaryToTerm (fun _ => none) depth
        [131, 104, 3, 108, 0, 0, 0, 1, 107, 0, 1, 97, 115, 1, 98, 103, 100, 0, 1, 110, 0, 0, 0, 1, 0, 0, 0, 2, 3,
          113, 100, 0, 1, 109, 100, 0, 1, 102, 97, 0] = .ok w) ∧
      denote w = .tuple [.cons (.cons (.int 97) .nil) (.atom [98]), .pid 100 [0, 1, 110] [0, 0, 0, 1] [0, 0, 0, 2] 3,
        .function 113 [100, 0, 1, 109, 100, 0, 1, 102, 97, 0]]) ∧
    ∃ w, (∀ depth, 4 ≤ depth → binaryToTerm (fun _ => none) depth [131, 115, 1, 98] = .ok w) ∧
      denote w = .atom [98] := by
  obtain ⟨hencode, hdecode⟩ := term_codec_round_trips fun _ => none
  constructor
  · have hname : ∀ b : UInt8, AtomBytes 100 [0, 1, b] := fun b => by
      have hb : [b].length < 256 ^ 2 := show 1 < 256 ^ 2 by decide
      have hlen : be 2 [b].length = [0, 1] := show be 2 1 = [0, 1] by decide
      have h := @AtomBytes.large .atomExt [b] (.inl rfl) hb
      rw [hlen] at h
      exact h
    have hlist : Fits (fun _ => none) (.otpErlangListImproper [.otpErlangString [97], .otpErlangAtom [98]]) := by
      refine .otpErlangListImproper (by decide) fun v hv => ?_
      simp only [List.mem_cons, List.not_mem_nil, or_false] at hv
      rcases hv with rfl | rfl
      · exact .otpErlangString [97]
      · exact .otpErlangAtom [98]
    have hpid : Fits (fun _ => none) (.otpErlangPid 100 [0, 1, 110] [0, 0, 0, 1] [0, 0, 0, 2] 3) :=
      .otpErlangPid 3 (hname 110) rfl rfl
    have hfun : Fits (fun _ => none) (.otpErlangFunction 113 [100, 0, 1, 109, 100, 0, 1, 102, 97, 0]) :=
      .exported (hname 109) (hname 102) 0
    have h : Fits (fun _ => none) (.otpErlangTuple [
        .otpErlangListImproper [.otpErlangString [97], .otpErlangAtom [98]],
        .otpErlangPid 100 [0, 1, 110] [0, 0, 0, 1] [0, 0, 0, 2] 3,
        .otpErlangFunction 113 [100, 0, 1, 109, 100, 0, 1, 102, 97, 0]]) := by
      refine .otpErlangTuple fun v hv => ?_
      simp only [List.mem_cons, List.not_mem_nil, or_false] at hv
      rcases hv with rfl | rfl | rfl
      · exact hlist
      · exact hpid
      · exact hfun
    obtain ⟨w, hw, hden⟩ := hencode _ _ h rfl
    exact ⟨w, fun depth hd => hw depth (Nat.le_trans (by decide) hd), hden⟩
  · have hread : binaryToTerm (fun _ => none) 1 [131, 100, 0, 1, 98] = .ok (.otpErlangAtom [98]) := rfl
    obtain ⟨encoded, he, w, hw, hden⟩ := hdecode 1 _ _ hread (.otpErlangAtom [98])
    rw [← Except.ok.inj he] at hw
    exact ⟨w, fun depth hd => hw depth (Nat.le_trans (by decide) hd), hden⟩

/-! ## What is lost -/

/-- The map of 1 to 2 is encoded to bytes that are not decoded. -/
theorem map_tag_lost : ∃ data, termToBinary (.otpErlangMap [(.otpErlangInteger 1, .otpErlangInteger 2)]) = .ok data ∧
    ∀ fos depth w, binaryToTerm fos depth data ≠ .ok w := by
  refine ⟨[131, 0, 0, 0, 1, 97, 1, 97, 2], rfl, fun fos depth w h => ?_⟩
  cases depth with
  | zero => cases h
  | succ depth => cases h

end CloudI.Api.OCaml
