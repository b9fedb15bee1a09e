import CloudI.Api.Go.RoundTrip

/-!
# What the Go codec decodes is encoded again

The decoder only makes values whose lengths the format has room for (`Sized`, `binaryToTerms_sized`). Such a value is
encoded, and what it is encoded to is decoded to the same value, if its parts are `Fits` and `Kept`
(`encode_decode`).
-/

namespace CloudI.Api.Go

variable {lib : Library}

mutual

/-- A value that the decoder can make. -/
def Sized : Value → Prop
  | .uint8 _ | .int32 _ | .float64 _ | .otpErlangAtomCacheRef _ | .otpErlangFunction _ _ | .otpErlangPid _ _ _ _ _
  | .otpErlangPort _ _ _ _ => True
  | .otpErlangReference _ _ id _ => id.length < 65536
  | .bigInt n => (minimal n.natAbs).length < 256 ^ 4
  | .otpErlangAtom s | .otpErlangAtomUTF8 s | .string s => s.length < 256 ^ 2
  | .otpErlangBinary value _ => value.length < 256 ^ 4
  | .otpErlangTuple vs => vs.length < 256 ^ 4 ∧ AllSized vs
  | .otpErlangMap pairs => pairs = []
  | .otpErlangList vs improper => AllSized vs ∧ (improper = true →
      ∃ init tail, vs = init ++ [tail] ∧ ∀ improper, tail ≠ .otpErlangList [] improper)
  | _ => False

def AllSized : List Value → Prop
  | [] => True
  | v :: vs => Sized v ∧ AllSized vs

end

mutual

/-- A value without an empty string, a bit string that the encoder refuses, and a list that is too long for it. -/
def Kept : Value → Prop
  | .otpErlangBinary _ bits => 1 ≤ bits ∧ bits ≤ 8
  | .string s => s ≠ []
  | .otpErlangTuple vs => AllKept vs
  | .otpErlangList vs _ => vs.length < 256 ^ 4 ∧ AllKept vs
  | _ => True

def AllKept : List Value → Prop
  | [] => True
  | v :: vs => Kept v ∧ AllKept vs

end

attribute [grind =] Sized AllSized Kept AllKept

theorem AllSized.append {us vs : List Value} (hu : AllSized us) (hv : AllSized vs) : AllSized (us ++ vs) := by
  induction us with
  | nil => exact hv
  | cons u us ih =>
    rw [AllSized] at hu
    rw [List.cons_append, AllSized]
    exact ⟨hu.1, ih hu.2⟩

/-! ## What the decoder reads -/

section Read

variable {r r' : Reader} {i i' k n : Nat} {l : List UInt8}

theorem binaryRead_lt (h : binaryRead r k = .ok (n, r')) : n < 256 ^ k := by
  unfold binaryRead at h
  split at h
  · simp only [reduceCtorEq] at h
  · split at h
    · simp only [reduceCtorEq] at h
    · obtain ⟨rfl, -⟩ := Prod.mk.inj (Except.ok.inj h)
      exact (ofBe_lt _).trans_le (Nat.pow_le_pow_right (by decide) (List.length_take_le _ _))

theorem read_length (h : read r n = .ok (l, r')) : l.length = n := by
  unfold read at h
  split at h
  · simp only [reduceCtorEq] at h
  · obtain ⟨rfl, -⟩ := Prod.mk.inj (Except.ok.inj h)
    have hle : ((r.data.drop r.pos).take n).length ≤ n := List.length_take_le _ _
    rw [List.length_append, List.length_replicate]
    omega

theorem readAt_length (h : readAt r n i = .ok l) : l.length = n := by
  unfold readAt at h
  split at h
  · simp only [reduceCtorEq] at h
  · have hle : ((r.data.drop i).take n).length ≤ n := List.length_take_le _ _
    simp only at h
    split at h
    · simp only [reduceCtorEq] at h
    · rw [← Except.ok.inj h]
      omega

theorem binaryToBytes_length (h : binaryToBytes k i r = .ok (i', l, r')) : l.length < 256 ^ k := by
  obtain ⟨⟨j, r₁⟩, hj, h⟩ := bind_eq_ok h
  have hlt := binaryRead_lt hj
  simp only at h
  split at h
  · obtain ⟨⟨value, r₂⟩, hread, h⟩ := bind_eq_ok h
    cases h
    exact read_length hread ▸ hlt
  · cases h
    exact Nat.lt_of_le_of_lt (Nat.zero_le j) hlt

theorem bignumLoop_lt {b m : Nat} (h : bignumLoop r i n b = .ok m) : m < (b + 1) * 256 ^ n := by
  induction n generalizing b with
  | zero =>
    rw [bignumLoop] at h
    rw [← Except.ok.inj h, Nat.pow_zero]
    omega
  | succ n ih =>
    obtain ⟨digit, hd, h⟩ := bind_eq_ok h
    have hdigit := ofBe_lt digit
    rw [readAt_length hd, Nat.pow_one] at hdigit
    have hle : b * 256 + ofBe digit + 1 ≤ (b + 1) * 256 := by omega
    calc m < (b * 256 + ofBe digit + 1) * 256 ^ n := ih h
      _ ≤ (b + 1) * 256 * 256 ^ n := Nat.mul_le_mul_right _ hle
      _ = (b + 1) * 256 ^ (n + 1) := by rw [Nat.pow_succ, Nat.mul_assoc, Nat.mul_comm 256]

variable {v : Value}

theorem binaryToBignum_sized (hk : k ≤ 4) (h : binaryToBignum k i r = .ok (i', v, r')) : Sized v := by
  obtain ⟨⟨j, r₁⟩, hj, h⟩ := bind_eq_ok h
  obtain ⟨⟨sign, r₂⟩, -, h⟩ := bind_eq_ok h
  obtain ⟨m, hm, h⟩ := bind_eq_ok h
  have hlt := bignumLoop_lt hm
  rw [Nat.zero_add, Nat.one_mul] at hlt
  have hlen := (minimal_length_le hlt).trans_lt
    ((binaryRead_lt hj).trans_le (Nat.pow_le_pow_right (by decide) hk))
  cases h
  rw [Sized]
  split
  · rw [Int.natAbs_neg]
    exact hlen
  · exact hlen

theorem binaryToInt32_sized (h : binaryToInt32 i r = .ok (i', v, r')) : Sized v := by
  obtain ⟨_, -, h⟩ := bind_eq_ok h
  cases h
  rw [Sized]
  trivial

theorem binaryToPidFields_sized (h : binaryToPidFields i r = .ok (i', v, r')) : Sized v := by
  obtain ⟨_, -, h⟩ := bind_eq_ok h
  obtain ⟨_, -, h⟩ := bind_eq_ok h
  obtain ⟨_, -, h⟩ := bind_eq_ok h
  obtain ⟨_, -, h⟩ := bind_eq_ok h
  cases h
  rw [Sized]
  trivial

theorem binaryToNodeId_sized {make : UInt8 → List UInt8 → List UInt8 → UInt8 → Value}
    (hm : ∀ nodeTag node id creation, id.length = 4 → Sized (make nodeTag node id creation))
    (h : binaryToNodeId make i r = .ok (i', v, r')) : Sized v := by
  obtain ⟨_, -, h⟩ := bind_eq_ok h
  obtain ⟨_, hid, h⟩ := bind_eq_ok h
  obtain ⟨_, -, h⟩ := bind_eq_ok h
  cases h
  exact hm _ _ _ _ (read_length hid)

theorem binaryToExport_sized (h : binaryToExport i r = .ok (i', v, r')) : Sized v := by
  obtain ⟨_, -, h⟩ := bind_eq_ok h
  obtain ⟨_, -, h⟩ := bind_eq_ok h
  obtain ⟨_, -, h⟩ := bind_eq_ok h
  simp only at h
  split at h
  · simp only [reduceCtorEq] at h
  · obtain ⟨_, -, h⟩ := bind_eq_ok h
    obtain ⟨_, -, h⟩ := bind_eq_ok h
    cases h
    rw [Sized]
    trivial

theorem binaryToNewReference_sized (h : binaryToNewReference i r = .ok (i', v, r')) : Sized v := by
  obtain ⟨⟨j, r₁⟩, -, h⟩ := bind_eq_ok h
  obtain ⟨_, -, h⟩ := bind_eq_ok h
  obtain ⟨_, -, h⟩ := bind_eq_ok h
  simp only at h
  split at h
  · obtain ⟨_, hid, h⟩ := bind_eq_ok h
    cases h
    rw [Sized, read_length hid]
    exact Nat.mod_lt _ (by decide)
  · cases h
    rw [Sized]
    exact Nat.zero_lt_of_lt (by decide : 0 < 65536)

end Read

/-! ## What the decoder makes -/

section Terms

variable {terms : Nat → Reader → Except Fault (Decoded Value)} {r r' : Reader} {i i' k n : Nat} {v : Value}
  {vs : List Value}

theorem binaryToTermSequence_sized (ht : ∀ {i r i' v r'}, terms i r = .ok (i', v, r') → Sized v)
    (h : binaryToTermSequence terms i n r = .ok (i', vs, r')) : vs.length = n ∧ AllSized vs := by
  induction n generalizing i r vs with
  | zero =>
    cases h
    rw [AllSized]
    exact ⟨rfl, trivial⟩
  | succ n ih =>
    obtain ⟨⟨i₁, element, r₁⟩, he, h⟩ := bind_eq_ok h
    obtain ⟨⟨i₂, sequence, r₂⟩, hs, h⟩ := bind_eq_ok h
    cases h
    rw [List.length_cons, AllSized, (ih hs).1]
    exact ⟨rfl, ht he, (ih hs).2⟩

theorem binaryToTuple_sized (ht : ∀ {i r i' v r'}, terms i r = .ok (i', v, r') → Sized v) (hk : k ≤ 4)
    (h : binaryToTuple terms k i r = .ok (i', v, r')) : Sized v := by
  obtain ⟨⟨length, r₁⟩, hlen, h⟩ := bind_eq_ok h
  obtain ⟨⟨i₂, tmp, r₂⟩, hs, h⟩ := bind_eq_ok h
  have htmp := binaryToTermSequence_sized ht hs
  cases h
  rw [Sized, htmp.1]
  exact ⟨(binaryRead_lt hlen).trans_le (Nat.pow_le_pow_right (by decide) hk), htmp.2⟩

theorem binaryToList_sized (ht : ∀ {i r i' v r'}, terms i r = .ok (i', v, r') → Sized v)
    (h : binaryToList terms i r = .ok (i', v, r')) : Sized v := by
  obtain ⟨⟨length, r₁⟩, -, h⟩ := bind_eq_ok h
  obtain ⟨⟨i₂, tmp, r₂⟩, hs, h⟩ := bind_eq_ok h
  obtain ⟨⟨i₃, tail, r₃⟩, htail, h⟩ := bind_eq_ok h
  have htmp := (binaryToTermSequence_sized ht hs).2
  cases h
  by_cases hnil : ∃ improper, tail = .otpErlangList [] improper
  · obtain ⟨improper, rfl⟩ := hnil
    rw [listWithTail_nil, Sized]
    exact ⟨htmp, fun hfalse => by cases hfalse⟩
  · have hne : ∀ improper, tail ≠ .otpErlangList [] improper := fun improper heq => hnil ⟨improper, heq⟩
    rw [listWithTail_of_ne tmp hne, Sized]
    refine ⟨htmp.append ?_, fun _ => ⟨tmp, tail, rfl, hne⟩⟩
    rw [AllSized, AllSized]
    exact ⟨ht htail, trivial⟩

theorem binaryToMap_sized (h : binaryToMap terms i r = .ok (i', v, r')) : Sized v := by
  obtain ⟨⟨length, r₁⟩, -, h⟩ := bind_eq_ok h
  cases length with
  | zero =>
    cases h
    rw [Sized]
  | succ length => exact absurd h (binaryToPairs_ne_ok (Nat.succ_pos length) _)

theorem binaryToFun_sized (h : binaryToFun terms i r = .ok (i', v, r')) : Sized v := by
  obtain ⟨_, -, h⟩ := bind_eq_ok h
  obtain ⟨_, -, h⟩ := bind_eq_ok h
  obtain ⟨_, -, h⟩ := bind_eq_ok h
  obtain ⟨_, -, h⟩ := bind_eq_ok h
  obtain ⟨_, -, h⟩ := bind_eq_ok h
  obtain ⟨_, -, h⟩ := bind_eq_ok h
  obtain ⟨_, -, h⟩ := bind_eq_ok h
  cases h
  rw [Sized]
  trivial

theorem binaryToCompressed_sized (ht : ∀ {i r i' v r'}, terms i r = .ok (i', v, r') → Sized v)
    (h : binaryToCompressed terms lib i r = .ok (i', v, r')) : Sized v := by
  obtain ⟨⟨sizeUncompressed, r₁⟩, -, h⟩ := bind_eq_ok h
  simp only at h
  split at h
  · simp only [reduceCtorEq] at h
  · obtain ⟨⟨dataUncompressed, taken⟩, -, h⟩ := bind_eq_ok h
    simp only at h
    split at h
    · simp only [reduceCtorEq] at h
    · obtain ⟨⟨iNew, term, r₁⟩, hterm, h⟩ := bind_eq_ok h
      simp only at h
      split at h
      · simp only [reduceCtorEq] at h
      · cases h
        exact ht hterm

/-- A tag whose length and bytes are the value. -/
theorem prefixed_sized {make : List UInt8 → Value} (hm : ∀ l : List UInt8, l.length < 256 ^ k → Sized (make l))
    (h : (do
      let (i, value, reader) ← binaryToBytes k i r
      return (i, make value, reader) : Except Fault (Decoded Value)) = .ok (i', v, r')) : Sized v := by
  obtain ⟨⟨i₁, value, r₁⟩, hb, h⟩ := bind_eq_ok h
  cases h
  exact hm _ (binaryToBytes_length hb)

theorem binaryToTermsOf_sized (ht : ∀ {i r i' v r'}, terms i r = .ok (i', v, r') → Sized v) {tag : Tag}
    (h : binaryToTermsOf terms lib tag i r = .ok (i', v, r')) : Sized v := by
  have hname : ∀ l : List UInt8, l.length < 256 ^ 1 → l.length < 256 ^ 2 := fun l hl =>
    hl.trans_le (Nat.pow_le_pow_right (by decide) (by decide))
  cases tag with
  | newFloatExt =>
    obtain ⟨_, -, h⟩ := bind_eq_ok h
    cases h
    rw [Sized]
    trivial
  | bitBinaryExt =>
    obtain ⟨⟨j, r₁⟩, hj, h⟩ := bind_eq_ok h
    obtain ⟨_, -, h⟩ := bind_eq_ok h
    simp only at h
    split at h
    · obtain ⟨_, hread, h⟩ := bind_eq_ok h
      cases h
      rw [Sized, read_length hread]
      exact binaryRead_lt hj
    · cases h
      rw [Sized]
      exact Nat.lt_of_le_of_lt (Nat.zero_le j) (binaryRead_lt hj)
  | atomCacheRef =>
    obtain ⟨_, -, h⟩ := bind_eq_ok h
    cases h
    rw [Sized]
    trivial
  | smallIntegerExt =>
    obtain ⟨_, -, h⟩ := bind_eq_ok h
    cases h
    rw [Sized]
    trivial
  | integerExt => exact binaryToInt32_sized h
  | floatExt =>
    obtain ⟨_, -, h⟩ := bind_eq_ok h
    obtain ⟨_, -, h⟩ := bind_eq_ok h
    cases h
    rw [Sized]
    trivial
  | atomExt => exact prefixed_sized (fun l hl => by rwa [Sized]) h
  | referenceExt =>
    refine binaryToNodeId_sized (fun _ _ id _ hid => ?_) h
    rw [Sized]
    omega
  | portExt =>
    refine binaryToNodeId_sized (fun _ _ _ _ _ => ?_) h
    rw [Sized]
    trivial
  | pidExt => exact binaryToPidFields_sized h
  | smallTupleExt => exact binaryToTuple_sized ht (by decide) h
  | largeTupleExt => exact binaryToTuple_sized ht (by decide) h
  | nilExt =>
    cases h
    rw [Sized, AllSized]
    exact ⟨trivial, fun hfalse => by cases hfalse⟩
  | stringExt => exact prefixed_sized (fun l hl => by rwa [Sized]) h
  | listExt => exact binaryToList_sized ht h
  | binaryExt =>
    have hm : ∀ l : List UInt8, l.length < 256 ^ 4 → Sized (.otpErlangBinary l 8) := fun l hl => by rwa [Sized]
    exact prefixed_sized hm h
  | smallBigExt => exact binaryToBignum_sized (by decide) h
  | largeBigExt => exact binaryToBignum_sized (by decide) h
  | newFunExt =>
    refine prefixed_sized (fun l _ => ?_) h
    rw [Sized]
    trivial
  | exportExt => exact binaryToExport_sized h
  | newReferenceExt => exact binaryToNewReference_sized h
  | smallAtomExt => exact prefixed_sized (fun l hl => by rw [Sized]; exact hname l hl) h
  | mapExt => exact binaryToMap_sized h
  | funExt => exact binaryToFun_sized h
  | atomUtf8Ext => exact prefixed_sized (fun l hl => by rwa [Sized]) h
  | smallAtomUtf8Ext => exact prefixed_sized (fun l hl => by rw [Sized]; exact hname l hl) h
  | compressedZlib =>
    refine binaryToCompressed_sized ?_ h
    exact ht

theorem binaryToTerms_sized {depth : Nat} (h : binaryToTerms lib depth i r = .ok (i', v, r')) : Sized v := by
  induction depth generalizing i r i' v r' with
  | zero => simp only [binaryToTerms, reduceCtorEq] at h
  | succ depth ih =>
    obtain ⟨⟨tag, r₁⟩, -, h⟩ := bind_eq_ok h
    simp only at h
    split at h
    · exact binaryToTermsOf_sized ih h
    · simp only [reduceCtorEq] at h

theorem binaryToTerm_sized {depth : Nat} {data : List UInt8} (h : binaryToTerm lib depth data = .ok v) : Sized v := by
  unfold binaryToTerm at h
  split at h
  · simp only [reduceCtorEq] at h
  · obtain ⟨_, -, h⟩ := bind_eq_ok h
    simp only at h
    split at h
    · simp only [reduceCtorEq] at h
    · obtain ⟨⟨j, term, r₁⟩, hterms, h⟩ := bind_eq_ok h
      simp only at h
      split at h
      · simp only [reduceCtorEq] at h
      · cases h
        exact binaryToTerms_sized hterms

end Terms

/-! ## Encoding again -/

mutual

/-- A value that the decoder made and that is kept is one that `terms_external` gives back. -/
theorem made_of_sized : (v : Value) → Sized v → Kept v → Made v
  | .uint8 _, _, _ | .int32 _, _, _ | .bigInt _, _, _ | .float64 _, _, _ | .otpErlangAtom _, _, _
  | .otpErlangAtomUTF8 _, _, _ | .otpErlangAtomCacheRef _, _, _ | .otpErlangBinary _ _, _, _
  | .otpErlangFunction _ _, _, _ | .otpErlangPid _ _ _ _ _, _, _ | .otpErlangPort _ _ _ _, _, _
  | .otpErlangReference _ _ _ _, _, _ => by
    rw [Made]
    trivial
  | .string s, hs, hk => by
    rw [Sized] at hs
    rw [Kept] at hk
    rw [Made]
    exact ⟨hk, by omega⟩
  | .otpErlangTuple vs, hs, hk => by
    rw [Sized] at hs
    rw [Kept] at hk
    rw [Made]
    exact allMade_of_sized vs hs.2 hk
  | .otpErlangMap pairs, hs, _ => by
    rw [Sized] at hs
    rwa [Made]
  | .otpErlangList vs improper, hs, hk => by
    rw [Sized] at hs
    rw [Kept] at hk
    rw [Made]
    exact ⟨allMade_of_sized vs hs.1 hk.2, hs.2⟩
  | .uint16 _, hs, _ | .uint32 _, hs, _ | .uint64 _, hs, _ | .int8 _, hs, _ | .int16 _, hs, _ | .int64 _, hs, _
  | .int _, hs, _ | .float32 _, hs, _ | .bool _, hs, _ | .bytes _, hs, _ | .slice _, hs, _ | .mapInterface _, hs, _
  | .other, hs, _ => by simp only [Sized] at hs

theorem allMade_of_sized : (vs : List Value) → AllSized vs → AllKept vs → AllMade vs
  | [], _, _ => by
    rw [AllMade]
    trivial
  | v :: vs, hs, hk => by
    rw [AllSized] at hs
    rw [AllKept] at hk
    rw [AllMade]
    exact ⟨made_of_sized v hs.1 hk.1, allMade_of_sized vs hs.2 hk.2⟩

end

section Written

variable {s value : List UInt8} {v : Value} {vs : List Value}

theorem nameToBinary_ok (small large : Tag) (h : s.length < 256 ^ 2) : ∃ e, nameToBinary small large s = .ok e := by
  unfold nameToBinary
  split
  · exact ⟨_, rfl⟩
  · exact ⟨_, if_pos (by omega)⟩

theorem bignumToBinary_ok {n : Int} (h : (minimal n.natAbs).length < 256 ^ 4) : ∃ e, bignumToBinary n = .ok e := by
  simp only [bignumToBinary, List.length_reverse]
  split
  · exact ⟨_, rfl⟩
  · exact ⟨_, if_pos (by omega)⟩

theorem binaryObjectToBinary_ok {bits : UInt8} (h : value.length < 256 ^ 4) (hb : 1 ≤ bits ∧ bits ≤ 8) :
    ∃ e, binaryObjectToBinary value bits = .ok e := by
  unfold binaryObjectToBinary
  rw [if_neg (not_or.mpr ⟨UInt8.not_lt.mpr hb.1, UInt8.not_lt.mpr hb.2⟩),
      if_pos (show value.length ≤ 4294967295 by omega)]
  split
  · exact ⟨_, rfl⟩
  · exact ⟨_, rfl⟩

theorem referenceToBinary_ok (nodeTag : UInt8) (node : List UInt8) (creation : UInt8) (h : value.length < 65536) :
    ∃ e, referenceToBinary nodeTag node value creation = .ok e := by
  simp only [referenceToBinary]
  split
  · exact ⟨_, rfl⟩
  · exact ⟨_, if_pos (by omega)⟩

theorem stringToBinary_ok (h : s.length < 256 ^ 2) : ∃ e, stringToBinary s = .ok e := by
  unfold stringToBinary
  split
  · exact ⟨_, rfl⟩
  · exact ⟨_, if_pos (by omega)⟩

theorem tupleToBinary_ok {n : Nat} (h : n < 256 ^ 4) : ∃ e, tupleToBinary n = .ok e := by
  unfold tupleToBinary
  split
  · exact ⟨_, rfl⟩
  · exact ⟨_, if_pos (by omega)⟩

theorem listToBinary_ok {n : Nat} (improper : Bool) (h : n < 256 ^ 4) : ∃ e, listToBinary n improper = .ok e :=
  ⟨_, if_pos (by omega)⟩

end Written

mutual

/-- A value that the decoder made and that is kept is encoded. -/
theorem termsToBinary_ok : (v : Value) → Sized v → Kept v → ∃ e, termsToBinary lib v = .ok e
  | .uint8 _, _, _ | .int32 _, _, _ | .float64 _, _, _ | .otpErlangAtomCacheRef _, _, _ | .otpErlangFunction _ _, _, _
  | .otpErlangPid _ _ _ _ _, _, _ | .otpErlangPort _ _ _ _, _, _ => by
    rw [termsToBinary]
    exact ⟨_, rfl⟩
  | .otpErlangReference nodeTag node id creation, hs, _ => by
    rw [Sized] at hs
    rw [termsToBinary]
    exact referenceToBinary_ok nodeTag node creation hs
  | .bigInt n, hs, _ => by
    rw [Sized] at hs
    rw [termsToBinary]
    exact bignumToBinary_ok hs
  | .otpErlangAtom s, hs, _ => by
    rw [Sized] at hs
    rw [termsToBinary]
    exact nameToBinary_ok _ _ hs
  | .otpErlangAtomUTF8 s, hs, _ => by
    rw [Sized] at hs
    rw [termsToBinary]
    exact nameToBinary_ok _ _ hs
  | .otpErlangBinary value bits, hs, hk => by
    rw [Sized] at hs
    rw [Kept] at hk
    rw [termsToBinary]
    exact binaryObjectToBinary_ok hs hk
  | .string s, hs, _ => by
    rw [Sized] at hs
    rw [termsToBinary]
    exact stringToBinary_ok hs
  | .otpErlangTuple vs, hs, hk => by
    rw [Sized] at hs
    rw [Kept] at hk
    obtain ⟨start, hstart⟩ := tupleToBinary_ok hs.1
    obtain ⟨elements, helements⟩ := sequenceToBinary_ok vs hs.2 hk
    rw [termsToBinary, bind_ok hstart, bind_ok helements]
    exact ⟨_, rfl⟩
  | .otpErlangMap pairs, hs, _ => by
    rw [Sized] at hs
    rw [hs, termsToBinary, mapToBinary, pairsToBinary]
    exact ⟨_, rfl⟩
  | .otpErlangList vs improper, hs, hk => by
    rw [Sized] at hs
    rw [Kept] at hk
    rw [termsToBinary]
    split
    · exact ⟨_, rfl⟩
    · obtain ⟨start, hstart⟩ := listToBinary_ok improper hk.1
      obtain ⟨elements, helements⟩ := sequenceToBinary_ok vs hs.1 hk.2
      rw [bind_ok hstart, bind_ok helements]
      exact ⟨_, rfl⟩
  | .uint16 _, hs, _ | .uint32 _, hs, _ | .uint64 _, hs, _ | .int8 _, hs, _ | .int16 _, hs, _ | .int64 _, hs, _
  | .int _, hs, _ | .float32 _, hs, _ | .bool _, hs, _ | .bytes _, hs, _ | .slice _, hs, _ | .mapInterface _, hs, _
  | .other, hs, _ => by simp only [Sized] at hs

theorem sequenceToBinary_ok : (vs : List Value) → AllSized vs → AllKept vs → ∃ e, sequenceToBinary lib vs = .ok e
  | [], _, _ => ⟨_, by rw [sequenceToBinary]⟩
  | v :: vs, hs, hk => by
    rw [AllSized] at hs
    rw [AllKept] at hk
    obtain ⟨e, he⟩ := termsToBinary_ok v hs.1 hk.1
    obtain ⟨es, hes⟩ := sequenceToBinary_ok vs hs.2 hk.2
    rw [sequenceToBinary, bind_ok he, bind_ok hes]
    exact ⟨_, rfl⟩

end

/-- What is decoded is encoded again, to bytes that are decoded to the same value. -/
theorem encode_decode {depth : Nat} {data : List UInt8} {v : Value} (hd : binaryToTerm lib depth data = .ok v)
    (hf : Fits lib v) (hk : Kept v) :
    ∃ encoded, termToBinary lib v (-1) = .ok encoded ∧
      ∀ depth, encoded.length ≤ depth → binaryToTerm lib depth encoded = .ok v := by
  have hs := binaryToTerm_sized hd
  obtain ⟨e, he⟩ : ∃ e, termsToBinary lib v = .ok e := termsToBinary_ok v hs hk
  obtain ⟨w, hw, -, hmade⟩ := terms_external v hf he
  obtain rfl := hmade (made_of_sized v hs hk)
  refine ⟨tagVersion :: e, ?_, fun depth hdepth => binaryToTerm_external hw ?_⟩
  · rw [termToBinary, if_neg (by decide), bind_ok he]
    rfl
  · rw [List.length_cons] at hdepth
    omega

/-- A tuple of a pid and a string. -/
theorem encode_decode_pid :
    ∃ encoded, termToBinary noLibrary (.otpErlangTuple [.otpErlangPid 115 [1, 110] [0, 0, 0, 1] [0, 0, 0, 2] 3,
        .string [97]]) (-1) = .ok encoded ∧
      ∀ depth, encoded.length ≤ depth → binaryToTerm noLibrary depth encoded =
        .ok (.otpErlangTuple [.otpErlangPid 115 [1, 110] [0, 0, 0, 1] [0, 0, 0, 2] 3, .string [97]]) := by
  have hd : binaryToTerm noLibrary 2 [131, 105, 0, 0, 0, 2, 103, 115, 1, 110, 0, 0, 0, 1, 0, 0, 0, 2, 3, 107, 0, 1,
      97] =
      .ok (.otpErlangTuple [.otpErlangPid 115 [1, 110] [0, 0, 0, 1] [0, 0, 0, 2] 3, .string [97]]) := rfl
  refine encode_decode hd ?_ ?_
  · simp only [Fits, AllFit, and_true]
    exact ⟨@Node.small .smallAtomExt [110] (.inl rfl) (show 1 < 256 ^ 1 by decide), by decide, rfl, rfl⟩
  · simp [Kept, AllKept]

/-- The size of a function is not encoded again, and what is encoded is not decoded. -/
theorem function_not_encoded : ∃ data v encoded, binaryToTerm noLibrary 1 data = .ok v ∧
    termToBinary noLibrary v (-1) = .ok encoded ∧ ∀ depth w, binaryToTerm noLibrary depth encoded ≠ .ok w := by
  refine ⟨[131, 112, 0, 0, 0, 1, 9], .otpErlangFunction 112 [9], [131, 112, 9], rfl, rfl, fun depth w hok => ?_⟩
  cases depth with
  | zero => cases hok
  | succ depth => cases hok

end CloudI.Api.Go
