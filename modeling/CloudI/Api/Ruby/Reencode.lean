import CloudI.Api.Ruby.RoundTrip

/-!
# What the Ruby codec decodes is encoded again

The decoder only makes values whose lengths the format has room for (`Sized`,
`binaryToTermAt_sized`), and such a value is encoded if its parts fit
(`sized_encodes`). `codec_round_trips` is both directions of the codec.
-/

namespace CloudI.Api.Ruby

open Slices

/-- A value that the decoder can make. -/
inductive Sized : Value → Prop
  | string {s : List UInt8} (h : s.length < 256 ^ 2) : Sized (.string s)
  | array {vs : List Value} (hl : vs.length < 256 ^ 4) (h : ∀ v ∈ vs, Sized v) : Sized (.array vs)
  | float (bits : BitVec 64) : Sized (.float bits)
  | integer {n : Int} (h : (minimal n.natAbs).length < 256 ^ 4) : Sized (.integer n)
  | hash {pairs : List (Value × Value)} (hl : pairs.length < 256 ^ 4) (hk : ∀ p ∈ pairs, Sized p.1)
      (hv : ∀ p ∈ pairs, Sized p.2) : Sized (.hash pairs)
  | symbol {name : AtomValue} (h : name.bytes.length < 256 ^ 2) : Sized (.symbol name)
  | bool (b : Bool) : Sized (.bool b)
  | otpErlangAtom {value : AtomValue} (h : value.bytes.length < 256 ^ 2) : Sized (.otpErlangAtom value)
  | otpErlangList {vs : List Value} (improper : Bool) (h : ∀ v ∈ vs, Sized v) : Sized (.otpErlangList vs improper)
  | otpErlangBinary {value : List UInt8} (bits : UInt8) (h : value.length < 256 ^ 4) :
      Sized (.otpErlangBinary value bits)
  | otpErlangFunction (tag : UInt8) (value : List UInt8) : Sized (.otpErlangFunction tag value)
  | otpErlangReference {node : AtomValue} {id : List UInt8} (creation : List UInt8) (hn : node.bytes.length < 256 ^ 2)
      (hid : id.length ≤ 4 * 65535) : Sized (.otpErlangReference node id creation)
  | otpErlangPort {node : AtomValue} (id creation : List UInt8) (hn : node.bytes.length < 256 ^ 2) :
      Sized (.otpErlangPort node id creation)
  | otpErlangPid {node : AtomValue} (id serial creation : List UInt8) (hn : node.bytes.length < 256 ^ 2) :
      Sized (.otpErlangPid node id serial creation)
  | nil : Sized .nil

/-! ## What the decoder reads -/

section Read

variable {data l : List UInt8} {i i' k n : Nat} {v : Value}

theorem slice_length_le (i n : Nat) (data : List UInt8) : (slice i n data).length ≤ n := List.length_take_le _ _

theorem unpack_lt (h : unpack k i data = .ok n) : n < 256 ^ k := by
  unfold unpack at h
  split at h
  · cases h
  · rw [← Except.ok.inj h]
    exact (ofBe_lt _).trans_le (Nat.pow_le_pow_right (by decide) (slice_length_le _ _ _))

theorem binaryToBytes_length (h : binaryToBytes k i data = .ok (i', l)) : l.length < 256 ^ k := by
  obtain ⟨j, hj, h⟩ := bind_eq_ok h
  cases h
  exact (slice_length_le _ _ _).trans_lt (unpack_lt hj)

theorem name_lt {name : List UInt8} (h : name.length < 256 ^ 1) : name.length < 256 ^ 2 :=
  h.trans_le (Nat.pow_le_pow_right (by decide) (by decide))

variable {lib : Library} {a : AtomValue}

theorem binaryToUtf8_length (h : binaryToUtf8 lib k i data = .ok (i', a)) : a.bytes.length < 256 ^ k := by
  obtain ⟨⟨j, name⟩, hname, h⟩ := bind_eq_ok h
  simp only at h
  split at h
  · cases h
    exact binaryToBytes_length hname
  · cases h

theorem binaryToAtom_length (h : binaryToAtom lib i data = .ok (i', a)) : a.bytes.length < 256 ^ 2 := by
  obtain ⟨tag, -, h⟩ := bind_eq_ok h
  simp only at h
  split at h
  · obtain ⟨⟨j, name⟩, hname, h⟩ := bind_eq_ok h
    cases h
    exact binaryToBytes_length hname
  · obtain ⟨n, -, h⟩ := bind_eq_ok h
    cases h
    exact (by decide : 1 < 256 ^ 2)
  · obtain ⟨⟨j, name⟩, hname, h⟩ := bind_eq_ok h
    cases h
    exact name_lt (binaryToBytes_length hname)
  · exact binaryToUtf8_length h
  · exact name_lt (binaryToUtf8_length h)
  · cases h

theorem bignumLoop_lt {b m : Nat} (h : bignumLoop data i n b = .ok m) : m < (b + 1) * 256 ^ n := by
  induction n generalizing b with
  | zero =>
    rw [bignumLoop] at h
    rw [← Except.ok.inj h, Nat.pow_zero]
    omega
  | succ n ih =>
    obtain ⟨digit, -, h⟩ := bind_eq_ok h
    have hdigit := digit.toNat_lt
    have hle : b * 256 + digit.toNat + 1 ≤ (b + 1) * 256 := by omega
    calc m < (b * 256 + digit.toNat + 1) * 256 ^ n := ih h
      _ ≤ (b + 1) * 256 * 256 ^ n := Nat.mul_le_mul_right _ hle
      _ = (b + 1) * 256 ^ (n + 1) := by rw [Nat.pow_succ, Nat.mul_assoc, Nat.mul_comm 256]

theorem binaryToBignum_sized (hk : k ≤ 4) (h : binaryToBignum k i data = .ok (i', v)) : Sized v := by
  obtain ⟨j, hj, h⟩ := bind_eq_ok h
  obtain ⟨sign, -, h⟩ := bind_eq_ok h
  obtain ⟨m, hm, h⟩ := bind_eq_ok h
  have hlt := bignumLoop_lt hm
  rw [Nat.zero_add, Nat.one_mul] at hlt
  have hlen := (minimal_length_le hlt).trans_lt ((unpack_lt hj).trans_le (Nat.pow_le_pow_right (by decide) hk))
  cases h
  refine .integer ?_
  split
  · rw [Int.natAbs_neg]
    exact hlen
  · exact hlen

/-- A number of 32 bits is small. -/
theorem sized_of_natAbs {n : Int} (h : n.natAbs < 256 ^ 4) : Sized (.integer n) :=
  .integer ((minimal_length_le h).trans_lt (by decide))

theorem binaryToInt32_sized (h : binaryToInt32 i data = .ok (i', v)) : Sized v := by
  obtain ⟨value, hvalue, h⟩ := bind_eq_ok h
  have hlt := unpack_lt hvalue
  cases h
  refine sized_of_natAbs ?_
  split <;> omega

theorem binaryToSmallInteger_sized (h : binaryToSmallInteger i data = .ok (i', v)) : Sized v := by
  obtain ⟨n, -, h⟩ := bind_eq_ok h
  have hlt := n.toNat_lt
  cases h
  exact sized_of_natAbs (by omega)

theorem binaryToNodeId_sized {make : AtomValue → List UInt8 → List UInt8 → Value}
    (hm : ∀ node id creation, node.bytes.length < 256 ^ 2 → id.length ≤ 4 → Sized (make node id creation))
    (h : binaryToNodeId lib make i data = .ok (i', v)) : Sized v := by
  obtain ⟨⟨j, node⟩, hnode, h⟩ := bind_eq_ok h
  cases h
  exact hm _ _ _ (binaryToAtom_length hnode) (slice_length_le _ _ _)

theorem binaryToPidFields_sized (h : binaryToPidFields lib i data = .ok (i', v)) : Sized v := by
  obtain ⟨⟨j, node⟩, hnode, h⟩ := bind_eq_ok h
  cases h
  exact .otpErlangPid _ _ _ (binaryToAtom_length hnode)

theorem binaryToExport_sized (h : binaryToExport lib i data = .ok (i', v)) : Sized v := by
  obtain ⟨_, -, h⟩ := bind_eq_ok h
  obtain ⟨_, -, h⟩ := bind_eq_ok h
  obtain ⟨_, -, h⟩ := bind_eq_ok h
  simp only at h
  split at h
  · cases h
  · obtain ⟨_, -, h⟩ := bind_eq_ok h
    cases h
    exact .otpErlangFunction _ _

theorem binaryToNewReference_sized (h : binaryToNewReference lib i data = .ok (i', v)) : Sized v := by
  obtain ⟨j, hj, h⟩ := bind_eq_ok h
  obtain ⟨⟨j', node⟩, hnode, h⟩ := bind_eq_ok h
  have hlt := unpack_lt hj
  cases h
  exact .otpErlangReference _ (binaryToAtom_length hnode) ((slice_length_le _ _ _).trans (by omega))

theorem sized_smallAtom {name : List UInt8} (h : name.length < 256 ^ 1) : Sized (smallAtom name) := by
  unfold smallAtom
  split
  · exact .bool true
  · split
    · exact .bool false
    · exact .symbol (name_lt h)

end Read

/-! ## What the decoder makes -/

section Terms

variable {lib : Library} {terms : Nat → List UInt8 → Except Fault (Decoded Value)} {data : List UInt8} {i i' k n : Nat}
  {v : Value} {vs : List Value}

/-- The calls of the decoder to itself make values that it can make. -/
def AllSized (terms : Nat → List UInt8 → Except Fault (Decoded Value)) : Prop :=
  ∀ i data i' v, terms i data = .ok (i', v) → Sized v

theorem binaryToTermSequence_sized (ht : AllSized terms) (h : binaryToTermSequence terms i n data = .ok (i', vs)) :
    vs.length = n ∧ ∀ v ∈ vs, Sized v := by
  induction n generalizing i vs with
  | zero =>
    cases h
    exact ⟨rfl, fun v hv => absurd hv List.not_mem_nil⟩
  | succ n ih =>
    obtain ⟨⟨i₁, element⟩, he, h⟩ := bind_eq_ok h
    obtain ⟨⟨i₂, sequence⟩, hs, h⟩ := bind_eq_ok h
    cases h
    obtain ⟨hlen, hall⟩ := ih hs
    refine ⟨congrArg (· + 1) hlen, fun v hv => ?_⟩
    rcases List.mem_cons.mp hv with rfl | hv
    · exact ht _ _ _ _ he
    · exact hall v hv

theorem binaryToTuple_sized (ht : AllSized terms) (hk : k ≤ 4) (h : binaryToTuple terms k i data = .ok (i', v)) :
    Sized v := by
  obtain ⟨length, hlen, h⟩ := bind_eq_ok h
  obtain ⟨⟨i₂, tmp⟩, hs, h⟩ := bind_eq_ok h
  obtain ⟨htmp, hall⟩ := binaryToTermSequence_sized ht hs
  cases h
  exact .array (htmp ▸ (unpack_lt hlen).trans_le (Nat.pow_le_pow_right (by decide) hk)) hall

theorem sized_listWithTail {tmp : List Value} {tail : Value} (h : ∀ v ∈ tmp, Sized v) (ht : Sized tail) :
    Sized (listWithTail tmp tail) := by
  unfold listWithTail
  split
  · exact .otpErlangList false h
  · refine .otpErlangList true fun v hv => ?_
    rcases List.mem_append.mp hv with hv | hv
    · exact h v hv
    · exact List.mem_singleton.mp hv ▸ ht

theorem binaryToList_sized (ht : AllSized terms) (h : binaryToList terms i data = .ok (i', v)) : Sized v := by
  obtain ⟨length, -, h⟩ := bind_eq_ok h
  obtain ⟨⟨i₂, tmp⟩, hs, h⟩ := bind_eq_ok h
  obtain ⟨⟨i₃, tail⟩, htail, h⟩ := bind_eq_ok h
  cases h
  exact sized_listWithTail (binaryToTermSequence_sized ht hs).2 (ht _ _ _ _ htail)

/-- What `store` keeps of what was there and of the new pair. -/
theorem store_all (lib : Library) {P Q : Value → Prop} {key value : Value} {pairs : List (Value × Value)}
    (hp : ∀ p ∈ pairs, P p.1 ∧ Q p.2) (hk : P key) (hv : Q value) :
    (store lib key value pairs).length ≤ pairs.length + 1 ∧ ∀ p ∈ store lib key value pairs, P p.1 ∧ Q p.2 := by
  induction pairs with
  | nil =>
    refine ⟨Nat.le_refl _, fun p h => ?_⟩
    rw [List.mem_singleton.mp h]
    exact ⟨hk, hv⟩
  | cons q pairs ih =>
    obtain ⟨hlen, hall⟩ := ih fun p h => hp p (List.mem_cons_of_mem q h)
    rw [store]
    split
    · refine ⟨Nat.le_succ _, fun p h => ?_⟩
      rcases List.mem_cons.mp h with hfirst | h
      · rw [hfirst]
        exact ⟨(hp q List.mem_cons_self).1, hv⟩
      · exact hp p (List.mem_cons_of_mem q h)
    · refine ⟨Nat.succ_le_succ hlen, fun p h => ?_⟩
      rcases List.mem_cons.mp h with hfirst | h
      · exact hfirst ▸ hp q List.mem_cons_self
      · exact hall p h

theorem binaryToPairs_sized (ht : AllSized terms) {acc pairs : List (Value × Value)}
    (hacc : ∀ p ∈ acc, Sized p.1 ∧ Sized p.2) (h : binaryToPairs lib terms i n acc data = .ok (i', pairs)) :
    pairs.length ≤ acc.length + n ∧ ∀ p ∈ pairs, Sized p.1 ∧ Sized p.2 := by
  induction n generalizing i acc with
  | zero =>
    cases h
    exact ⟨Nat.le_refl _, hacc⟩
  | succ n ih =>
    obtain ⟨⟨i₁, key⟩, hkey, h⟩ := bind_eq_ok h
    obtain ⟨⟨i₂, value⟩, hvalue, h⟩ := bind_eq_ok h
    obtain ⟨hlen, hall⟩ := store_all lib hacc (ht _ _ _ _ hkey) (ht _ _ _ _ hvalue)
    obtain ⟨hrest, hpairs⟩ := ih hall h
    exact ⟨by omega, hpairs⟩

theorem binaryToMap_sized (ht : AllSized terms) (h : binaryToMap lib terms i data = .ok (i', v)) : Sized v := by
  obtain ⟨length, hlen, h⟩ := bind_eq_ok h
  obtain ⟨⟨i₁, pairs⟩, hpairs, h⟩ := bind_eq_ok h
  obtain ⟨hle, hall⟩ := binaryToPairs_sized ht (fun p hp => absurd hp List.not_mem_nil) hpairs
  rw [List.length_nil, Nat.zero_add] at hle
  cases h
  exact .hash (hle.trans_lt (unpack_lt hlen)) (fun p hp => (hall p hp).1) fun p hp => (hall p hp).2

theorem binaryToFun_sized (h : binaryToFun lib terms i data = .ok (i', v)) : Sized v := by
  obtain ⟨_, -, h⟩ := bind_eq_ok h
  obtain ⟨_, -, h⟩ := bind_eq_ok h
  obtain ⟨_, -, h⟩ := bind_eq_ok h
  obtain ⟨_, -, h⟩ := bind_eq_ok h
  obtain ⟨_, -, h⟩ := bind_eq_ok h
  obtain ⟨_, -, h⟩ := bind_eq_ok h
  cases h
  exact .otpErlangFunction _ _

theorem binaryToCompressed_sized (ht : AllSized terms) (h : binaryToCompressed lib terms i data = .ok (i', v)) :
    Sized v := by
  obtain ⟨size, -, h⟩ := bind_eq_ok h
  simp only at h
  split at h
  · cases h
  · split at h
    · cases h
    · split at h
      · cases h
      · obtain ⟨⟨iNew, term⟩, hterm, h⟩ := bind_eq_ok h
        simp only at h
        split at h
        · cases h
        · cases h
          exact ht _ _ _ _ hterm

theorem binaryToTermOf_sized (ht : AllSized terms) {tag : Tag}
    (h : binaryToTermOf lib terms tag i data = .ok (i', v)) : Sized v := by
  cases tag with
  | newFloatExt =>
    cases h
    split
    · exact .nil
    · exact .float _
  | bitBinaryExt =>
    obtain ⟨j, hj, h⟩ := bind_eq_ok h
    obtain ⟨bits, -, h⟩ := bind_eq_ok h
    cases h
    exact .otpErlangBinary _ ((slice_length_le _ _ _).trans_lt (unpack_lt hj))
  | atomCacheRef => cases h
  | smallIntegerExt => exact binaryToSmallInteger_sized h
  | integerExt => exact binaryToInt32_sized h
  | floatExt =>
    rw [binaryToTermOf] at h
    split at h
    · cases h
    · cases h
      exact .float _
  | atomExt =>
    obtain ⟨⟨j, name⟩, hname, h⟩ := bind_eq_ok h
    cases h
    exact .symbol (binaryToBytes_length hname)
  | referenceExt =>
    exact binaryToNodeId_sized (fun node id creation hn hid =>
      .otpErlangReference creation hn (hid.trans (by decide))) h
  | portExt => exact binaryToNodeId_sized (fun node id creation hn _ => .otpErlangPort id creation hn) h
  | pidExt => exact binaryToPidFields_sized h
  | smallTupleExt => exact binaryToTuple_sized ht (by decide) h
  | largeTupleExt => exact binaryToTuple_sized ht (by decide) h
  | nilExt =>
    cases h
    exact .otpErlangList false fun v hv => absurd hv List.not_mem_nil
  | stringExt =>
    obtain ⟨⟨j, s⟩, hs, h⟩ := bind_eq_ok h
    cases h
    exact .string (binaryToBytes_length hs)
  | listExt => exact binaryToList_sized ht h
  | binaryExt =>
    obtain ⟨⟨j, value⟩, hvalue, h⟩ := bind_eq_ok h
    cases h
    exact .otpErlangBinary 8 (binaryToBytes_length hvalue)
  | smallBigExt => exact binaryToBignum_sized (by decide) h
  | largeBigExt => exact binaryToBignum_sized (by decide) h
  | newFunExt =>
    obtain ⟨length, -, h⟩ := bind_eq_ok h
    cases h
    exact .otpErlangFunction _ _
  | exportExt => exact binaryToExport_sized h
  | newReferenceExt => exact binaryToNewReference_sized h
  | smallAtomExt =>
    obtain ⟨⟨j, name⟩, hname, h⟩ := bind_eq_ok h
    cases h
    exact sized_smallAtom (binaryToBytes_length hname)
  | mapExt => exact binaryToMap_sized ht h
  | funExt => exact binaryToFun_sized h
  | atomUtf8Ext =>
    obtain ⟨⟨j, a⟩, ha, h⟩ := bind_eq_ok h
    cases h
    exact .otpErlangAtom (binaryToUtf8_length ha)
  | smallAtomUtf8Ext =>
    obtain ⟨⟨j, a⟩, ha, h⟩ := bind_eq_ok h
    cases h
    exact .otpErlangAtom (name_lt (binaryToUtf8_length ha))
  | compressedZlib => exact binaryToCompressed_sized ht h

theorem binaryToTermAt_sized (depth : Nat) : AllSized (binaryToTermAt lib depth) := by
  induction depth with
  | zero =>
    intro i data i' v h
    cases h
  | succ depth ih =>
    intro i data i' v h
    obtain ⟨tag, -, h⟩ := bind_eq_ok h
    split at h
    · exact binaryToTermOf_sized ih h
    · cases h

theorem binaryToTerm_sized {depth : Nat} (h : binaryToTerm lib depth data = .ok v) : Sized v := by
  unfold binaryToTerm at h
  split at h
  · cases h
  · obtain ⟨_, -, h⟩ := bind_eq_ok h
    split at h
    · cases h
    · obtain ⟨⟨j, term⟩, hterm, h⟩ := bind_eq_ok h
      simp only at h
      split at h
      · cases h
      · cases h
        exact binaryToTermAt_sized depth _ _ _ _ hterm

end Terms

/-! ## Encoding again -/

/-- A value that is encoded. -/
def Encodes (v : Value) : Prop := ∃ e, termToBinaryOf v = .ok e

theorem name_encodes {small large : Tag} {name : List UInt8} (h : name.length < 256 ^ 2) :
    ∃ e, AtomValue.encode small large name = .ok e := by
  unfold AtomValue.encode
  split
  · exact ⟨_, rfl⟩
  · rw [if_pos (by omega)]
    exact ⟨_, rfl⟩

theorem binary_encodes {a : AtomValue} (h : a.bytes.length < 256 ^ 2) : ∃ e, a.binary = .ok e := by
  cases a with
  | latin1 name => exact name_encodes h
  | utf8 name => exact name_encodes h
  | cacheRef n => exact ⟨_, rfl⟩

theorem integer_encodes {n : Int} (h : (minimal n.natAbs).length < 256 ^ 4) : Encodes (.integer n) := by
  rw [Encodes, termToBinaryOf, integerToBinary]
  split
  · exact ⟨_, rfl⟩
  · split
    · exact ⟨_, rfl⟩
    · simp only [bignumToBinary]
      split
      · exact ⟨_, rfl⟩
      · rw [if_pos (by omega)]
        exact ⟨_, rfl⟩

theorem sequence_encodes {vs : List Value} (h : ∀ v ∈ vs, Encodes v) : ∃ e, sequenceToBinary vs = .ok e := by
  induction vs with
  | nil => exact ⟨[], by rw [sequenceToBinary]⟩
  | cons v vs ih =>
    obtain ⟨e, he⟩ := h v List.mem_cons_self
    obtain ⟨es, hes⟩ := ih fun u hu => h u (List.mem_cons_of_mem v hu)
    rw [sequenceToBinary, bind_ok he, bind_ok hes]
    exact ⟨_, rfl⟩

theorem pairs_encode {pairs : List (Value × Value)} (hk : ∀ p ∈ pairs, Encodes p.1) (hv : ∀ p ∈ pairs, Encodes p.2) :
    ∃ e, pairsToBinary pairs = .ok e := by
  induction pairs with
  | nil => exact ⟨[], by rw [pairsToBinary]⟩
  | cons p pairs ih =>
    obtain ⟨k, hke⟩ := hk p List.mem_cons_self
    obtain ⟨v, hve⟩ := hv p List.mem_cons_self
    obtain ⟨es, hes⟩ := ih (fun q hq => hk q (List.mem_cons_of_mem p hq)) fun q hq => hv q (List.mem_cons_of_mem p hq)
    rw [pairsToBinary, bind_ok hke, bind_ok hve, bind_ok hes]
    exact ⟨_, rfl⟩

theorem array_encodes {vs : List Value} (hl : vs.length < 256 ^ 4) (h : ∀ v ∈ vs, Encodes v) : Encodes (.array vs) := by
  obtain ⟨es, hes⟩ := sequence_encodes h
  rw [Encodes, termToBinaryOf, bind_ok hes, tupleToBinary]
  split
  · exact ⟨_, rfl⟩
  · rw [if_pos (by omega)]
    exact ⟨_, rfl⟩

theorem list_encodes {vs : List Value} (improper : Bool) (hl : vs.length < 256 ^ 4) (h : ∀ v ∈ vs, Encodes v) :
    Encodes (.otpErlangList vs improper) := by
  obtain ⟨es, hes⟩ := sequence_encodes h
  rw [Encodes, termToBinaryOf]
  split
  · exact ⟨_, rfl⟩
  · rw [if_neg (by omega), bind_ok hes]
    cases improper <;> exact ⟨_, rfl⟩

theorem reference_encodes {node : AtomValue} {id creation : List UInt8} (hn : node.bytes.length < 256 ^ 2)
    (hid : id.length ≤ 4 * 65535) : Encodes (.otpErlangReference node id creation) := by
  obtain ⟨e, he⟩ := binary_encodes hn
  rw [Encodes, termToBinaryOf]
  simp only [referenceBinary]
  split
  · rw [bind_ok he]
    exact ⟨_, rfl⟩
  · rw [if_pos (by omega), bind_ok he]
    exact ⟨_, rfl⟩

/-- What the decoder makes is encoded, if its parts fit. -/
theorem sized_encodes {lib : Library} {v : Value} (h : Fits lib v) (hs : Sized v) : Encodes v := by
  induction h with
  | string h =>
    rw [Encodes, termToBinaryOf, stringToBinary]
    split
    · exact ⟨_, rfl⟩
    · exact ⟨_, rfl⟩
  | array _ ih =>
    cases hs with
    | array hl hall => exact array_encodes hl fun v hv => ih v hv (hall v hv)
  | float bits => exact ⟨_, by rw [termToBinaryOf]⟩
  | integer n =>
    cases hs with
    | integer h => exact integer_encodes h
  | hash _ _ _ ihk ihv =>
    cases hs with
    | hash hl hk hv =>
      obtain ⟨es, hes⟩ := pairs_encode (fun p hp => ihk p hp (hk p hp)) fun p hp => ihv p hp (hv p hp)
      rw [Encodes, termToBinaryOf, if_pos (by omega), bind_ok hes]
      exact ⟨_, rfl⟩
  | symbol h =>
    cases hs with
    | symbol hn =>
      rw [Encodes, termToBinaryOf]
      exact binary_encodes hn
  | bool b =>
    rw [Encodes, termToBinaryOf]
    exact binary_encodes (by cases b <;> decide)
  | otpErlangAtom h =>
    cases hs with
    | otpErlangAtom hn =>
      rw [Encodes, termToBinaryOf]
      exact binary_encodes hn
  | otpErlangList improper hl _ ih =>
    cases hs with
    | otpErlangList _ hall => exact list_encodes improper hl fun v hv => ih v hv (hall v hv)
  | otpErlangBinary value bits =>
    cases hs with
    | otpErlangBinary _ h =>
      rw [Encodes, termToBinaryOf, binaryBinary, if_neg (by omega)]
      split <;> exact ⟨_, rfl⟩
  | newFun h hl => exact ⟨_, by rw [termToBinaryOf]⟩
  | exported hm hf arity => exact ⟨_, by rw [termToBinaryOf]⟩
  | closure hstart h => exact ⟨_, by rw [termToBinaryOf]⟩
  | otpErlangReference hn hid hj hc =>
    cases hs with
    | otpErlangReference _ hnode hlen => exact reference_encodes hnode hlen
  | otpErlangPort hn hid hc =>
    cases hs with
    | otpErlangPort _ _ hnode =>
      obtain ⟨e, he⟩ := binary_encodes hnode
      rw [Encodes, termToBinaryOf, portBinary, bind_ok he]
      exact ⟨_, rfl⟩
  | otpErlangPid hn hid hser hc =>
    cases hs with
    | otpErlangPid _ _ _ hnode =>
      obtain ⟨e, he⟩ := binary_encodes hnode
      rw [Encodes, termToBinaryOf, pidBinary, bind_ok he]
      exact ⟨_, rfl⟩

/-- Both directions of the codec, for values whose parts fit: what is encoded
is decoded to a value that denotes the same Erlang term, and what is decoded
is encoded, and decoded to such a value again. -/
theorem codec_round_trips {lib : Library} (hlib : lib.SameKeySound) :
    (∀ v data, Fits lib v → termToBinary v = .ok data →
      ∃ w, (∀ depth, data.length ≤ depth → binaryToTerm lib depth data = .ok w) ∧ denote w = denote v) ∧
    ∀ depth data t, binaryToTerm lib depth data = .ok t → Fits lib t → ∃ encoded, termToBinary t = .ok encoded ∧
      ∃ w, (∀ depth, encoded.length ≤ depth → binaryToTerm lib depth encoded = .ok w) ∧ denote w = denote t := by
  refine ⟨fun v data h he => decoded_of_encoded hlib h he, fun depth data t hdecode h => ?_⟩
  obtain ⟨e, he⟩ := sized_encodes h (binaryToTerm_sized hdecode)
  have hdata : termToBinary t = .ok (tagVersion :: e) := by
    rw [termToBinary, bind_ok he]
    rfl
  exact ⟨_, hdata, decoded_of_encoded hlib h hdata⟩

/-- A library for ASCII names and maps of one pair. -/
def asciiLibrary : Library := ⟨fun _ => true, fun _ => 0, fun _ => none, fun _ _ => false⟩

set_option maxRecDepth 4000 in
/-- A tuple of an improper list, a pid, a map and an exported function, and
the bytes of an atom of the longer kind. -/
theorem codec_round_trips_tuple :
    (∃ w, (∀ depth, 50 ≤ depth → binaryToTerm asciiLibrary depth
        [131, 104, 4, 108, 0, 0, 0, 1, 107, 0, 1, 97, 115, 1, 98, 103, 115, 1, 110, 0, 0, 0, 1, 0, 0, 0, 2, 3,
          116, 0, 0, 0, 1, 97, 1, 115, 4, 116, 114, 117, 101, 113, 115, 1, 109, 115, 1, 102, 97, 0] = .ok w) ∧
      denote w = .tuple [.cons (.cons (.int 97) .nil) (.atom [98]), .pid 100 [110] [0, 0, 0, 1] [0, 0, 0, 2] 3,
        .map [(.int 1, .atom [116, 114, 117, 101])], .function 113 [115, 1, 109, 115, 1, 102, 97, 0]]) ∧
    ∃ w, (∀ depth, 4 ≤ depth → binaryToTerm asciiLibrary depth [131, 115, 1, 98] = .ok w) ∧
      denote w = .atom [98] := by
  obtain ⟨hencode, hdecode⟩ := @codec_round_trips asciiLibrary fun _ _ h => absurd h Bool.false_ne_true
  constructor
  · have hname : ∀ b : UInt8, AtomBytes asciiLibrary (115 :: [1, b]) (.latin1 [b]) := fun b =>
      @AtomBytes.latin1 asciiLibrary .smallAtomExt 1 [b] (.inr ⟨rfl, rfl⟩) (show 1 < 256 ^ 1 by decide)
    have hlist : Fits asciiLibrary (.otpErlangList [.string [97], .symbol (.latin1 [98])] true) := by
      refine .otpErlangList true (by decide) fun v hv => ?_
      simp only [List.mem_cons, List.not_mem_nil, or_false] at hv
      rcases hv with rfl | rfl
      · exact .string (by decide)
      · exact .symbol trivial
    have hpid : Fits asciiLibrary (.otpErlangPid (.latin1 [110]) [0, 0, 0, 1] [0, 0, 0, 2] [3]) :=
      .otpErlangPid trivial rfl rfl rfl
    have hhash : Fits asciiLibrary (.hash [(.integer 1, .bool true)]) := by
      refine .hash (fun p hp => ?_) (fun p hp => ?_) (List.nodup_singleton _)
      · rw [List.mem_singleton.mp hp]
        exact .integer 1
      · rw [List.mem_singleton.mp hp]
        exact .bool true
    have hfun : Fits asciiLibrary (.otpErlangFunction 113 [115, 1, 109, 115, 1, 102, 97, 0]) :=
      .exported (hname 109) (hname 102) 0
    have h : Fits asciiLibrary (.array [.otpErlangList [.string [97], .symbol (.latin1 [98])] true,
        .otpErlangPid (.latin1 [110]) [0, 0, 0, 1] [0, 0, 0, 2] [3], .hash [(.integer 1, .bool true)],
        .otpErlangFunction 113 [115, 1, 109, 115, 1, 102, 97, 0]]) := by
      refine .array fun v hv => ?_
      simp only [List.mem_cons, List.not_mem_nil, or_false] at hv
      rcases hv with rfl | rfl | rfl | rfl
      · exact hlist
      · exact hpid
      · exact hhash
      · exact hfun
    obtain ⟨w, hw, hden⟩ := hencode _ _ h rfl
    exact ⟨w, fun depth hd => hw depth (Nat.le_trans (by decide) hd), hden⟩
  · have hread : binaryToTerm asciiLibrary 1 [131, 100, 0, 1, 98] = .ok (.symbol (.latin1 [98])) := rfl
    obtain ⟨encoded, he, w, hw, hden⟩ := hdecode 1 _ _ hread (.symbol trivial)
    rw [← Except.ok.inj he] at hw
    exact ⟨w, fun depth hd => hw depth (Nat.le_trans (by decide) hd), hden⟩

/-! ## What is lost -/

/-- A list of two elements or more whose first is the character of a digit, and
whose second starts with one. -/
theorem digits_not_decoded {lib : Library} {n : Nat} {rest : List UInt8} (h : n + 2 < 256 ^ 4) (depth : Nat)
    (w : Value) : binaryToTerm lib depth (tagVersion :: Tag.listExt.byte ::
      (be 4 (n + 2) ++ Tag.smallIntegerExt.byte :: 57 :: 55 :: rest)) ≠ .ok w := by
  intro hok
  have hat : At (tagVersion :: Tag.listExt.byte :: (be 4 (n + 2) ++ Tag.smallIntegerExt.byte :: 57 :: 55 :: rest)) 0
    (tagVersion :: Tag.listExt.byte :: (be 4 (n + 2) ++ Tag.smallIntegerExt.byte :: 57 :: 55 :: rest)) := At.start _
  unfold binaryToTerm at hok
  rw [if_neg (by simp only [List.length_cons]; omega), bind_ok (ord_at hat), if_neg (not_not.mpr rfl)] at hok
  obtain ⟨⟨i, term⟩, hterm, -⟩ := bind_eq_ok hok
  cases depth with
  | zero => cases hterm
  | succ depth =>
    rw [binaryToTermAt, bind_ok (ord_at hat.tail)] at hterm
    simp only [Tag.ofByte_byte] at hterm
    have helements := length_be 4 (n + 2) ▸ hat.tail.tail.append
    rw [binaryToTermOf, binaryToList, bind_ok (unpack_at hat.tail.tail h)] at hterm
    obtain ⟨⟨i, tmp⟩, hseq, -⟩ := bind_eq_ok hterm
    rw [binaryToTermSequence] at hseq
    obtain ⟨⟨i, first⟩, hfirst, hseq⟩ := bind_eq_ok hseq
    cases depth with
    | zero => cases hfirst
    | succ depth =>
      rw [binaryToTermAt, bind_ok (ord_at helements)] at hfirst
      simp only [Tag.ofByte_byte] at hfirst
      rw [binaryToTermOf, binaryToSmallInteger, bind_ok (ord_at helements.tail)] at hfirst
      cases hfirst
      simp only at hseq
      rw [binaryToTermSequence] at hseq
      obtain ⟨⟨i, second⟩, hsecond, -⟩ := bind_eq_ok hseq
      rw [binaryToTermAt, bind_ok (ord_at helements.tail.tail)] at hsecond
      cases hsecond

/-- A string of 65536 letters is encoded as a list of the digits of its bytes,
which is not decoded. -/
theorem long_string_lost :
    ∃ data, termToBinary (.string (List.replicate 65536 97)) = .ok data ∧
      ∀ (lib : Library) (depth : Nat) (w : Value), binaryToTerm lib depth data ≠ .ok w := by
  have hdigits : decimal (97 : UInt8).toNat = [57, 55] := by decide
  have hlen : (List.replicate 65536 (97 : UInt8)).length = 65534 + 2 := List.length_replicate
  have hlist : (List.replicate 65536 (97 : UInt8)).flatMap
      (fun c => Tag.smallIntegerExt.byte :: decimal c.toNat) = Tag.smallIntegerExt.byte :: 57 :: 55 ::
        (List.replicate 65535 (97 : UInt8)).flatMap fun c => Tag.smallIntegerExt.byte :: decimal c.toNat := by
    rw [List.replicate_succ, List.flatMap_cons, hdigits]
    rfl
  have hdata : termToBinary (.string (List.replicate 65536 97)) = .ok (tagVersion :: Tag.listExt.byte ::
      (be 4 (65534 + 2) ++ Tag.smallIntegerExt.byte :: 57 :: 55 :: ((List.replicate 65535 (97 : UInt8)).flatMap
        (fun c => Tag.smallIntegerExt.byte :: decimal c.toNat) ++ [Tag.nilExt.byte]))) := by
    rw [termToBinary, termToBinaryOf, stringToBinary, hlen, if_neg (by decide), if_neg (by decide),
      if_pos (by decide), hlist, List.append_assoc]
    rfl
  exact ⟨_, hdata, fun lib depth w => digits_not_decoded (by decide) depth w⟩

end CloudI.Api.Ruby
