import CloudI.Api.Format
import CloudI.Api.Ruby.RoundTrip

/-!
# The Ruby codec and the external term format

What the Ruby encoder writes of data without long strings (`Short`) is bytes of its term (`terms_written`), and the
Ruby decoder reads all of the format whose names in UTF-8 are valid, as values without long strings (`decoding`).
-/

namespace CloudI.Api.Ruby

open Format Slices

variable {lib : Library} {utf8 : List UInt8 → Prop} {e : List UInt8}

/-! ## The values -/

mutual

/-- A value whose strings have a length that a string has: the bytes of a longer one are not a list. -/
def Short : Value → Prop
  | .string s => s.length ≤ 65535
  | .array vs | .otpErlangList vs _ => AllShort vs
  | _ => True

def AllShort : List Value → Prop
  | [] => True
  | v :: vs => Short v ∧ AllShort vs

end

attribute [grind =] Short AllShort

theorem allShort_iff (vs : List Value) : AllShort vs ↔ ∀ v ∈ vs, Short v := by
  induction vs with
  | nil => simp only [AllShort, List.not_mem_nil, false_imp_iff, implies_true]
  | cons v vs ih => rw [AllShort, ih, List.forall_mem_cons]

/-! ## Writing -/

theorem bignum_written {n : Int} (he : bignumToBinary n = .ok e) : Written utf8 e [.int n] := by
  obtain ⟨h, rfl⟩ := eq_of_guard ((bignum_guard n).symm.trans he)
  exact .scalar (.bignum h)

theorem integer_written {n : Int} (he : integerToBinary n = .ok e) : Written utf8 e [.int n] := by
  unfold integerToBinary at he
  split at he
  · rename_i h
    exact Except.ok.inj he ▸ .small h
  · split at he
    · rename_i h
      exact Except.ok.inj he ▸ .int32 h
    · exact bignum_written he

theorem float_written (bits : BitVec 64) : Written utf8 (floatToBinary bits) [denoteFloat bits] := by
  refine ⟨[.float bits], .one (.float bits), ?_⟩
  rw [List.map_singleton, List.map_singleton, denoteFloat, plain, plain]
  split <;> rfl

theorem atom_written {a : AtomValue} (hd : Data utf8 a.denote) (he : a.binary = .ok e) :
    Written utf8 e [a.denote] := by
  cases a with
  | cacheRef n => cases hd
  | latin1 name =>
    obtain ⟨h, rfl⟩ := eq_of_guard ((named_guard _ _ name).symm.trans he)
    exact .scalar (.atom h)
  | utf8 name =>
    obtain ⟨h, rfl⟩ := eq_of_guard ((named_guard _ _ name).symm.trans he)
    cases hd with
    | atomUtf8 hu => exact .scalar (.atomUtf8 h hu)

theorem binaryBinary_eq (value : List UInt8) (bits : UInt8) :
    binaryBinary value bits =
      if value.length > 4294967295 then .error (.outputException "uint32 overflow")
      else .ok (bitstring value bits) := by
  unfold binaryBinary bitstring
  split
  · rfl
  · by_cases h : bits = 8
    · rw [if_neg (not_not.mpr h), if_pos h]
    · rw [if_pos h, if_neg h]

theorem binary_written {value : List UInt8} {bits : UInt8} (he : binaryBinary value bits = .ok e) :
    Written utf8 e [.bitstring value bits] := by
  rw [binaryBinary_eq] at he
  split at he
  · cases he
  · rename_i h
    exact Except.ok.inj he ▸ .scalar (.bitstring bits (by omega))

theorem string_written {s : List UInt8} (hs : s.length ≤ 65535) (he : stringToBinary s = .ok e) :
    Written utf8 e [.ofBytes s] := by
  unfold stringToBinary at he
  rw [if_pos hs] at he
  split at he
  · rename_i h
    rw [List.length_eq_zero_iff.mp h]
    exact Except.ok.inj he ▸ .scalar .nil
  · rename_i hne
    exact Except.ok.inj he ▸ .scalar (.string (fun h => hne (List.length_eq_zero_iff.mpr h)) hs)

theorem listOf_denote {vs : List Value} (improper : Bool) (hne : ¬ vs.length = 0) :
    ListOf improper (vs.map denote) (denoteList vs improper) :=
  .of_denote denoteList_proper denoteList_improper improper hne

theorem array_written {vs : List Value} {start elements : List UInt8} (hs : tupleToBinary vs.length = .ok start)
    (h : Written utf8 elements (vs.map denote)) : Written utf8 (start ++ elements) [.tuple (vs.map denote)] := by
  obtain ⟨hk, rfl⟩ := eq_of_guard ((tupleStart_guard vs.length).symm.trans hs)
  exact .tuple_map hk h

mutual

/-- What is written of data is bytes of the term that it denotes. -/
theorem terms_written {e : List UInt8} : (v : Value) → Short v → Data utf8 (denote v) → termToBinaryOf v = .ok e →
    Written utf8 e [denote v]
  | .string s, hs, _, he => by
    rw [termToBinaryOf] at he
    rw [Short] at hs
    rw [denote]
    exact string_written hs he
  | .array vs, hs, hd, he => by
    rw [termToBinaryOf] at he
    rw [Short] at hs
    rw [denote, denoteSequence_eq] at hd ⊢
    cases hd with
    | tuple hd =>
      obtain ⟨elements, hes, he⟩ := bind_eq_ok he
      obtain ⟨start, hstart, he⟩ := bind_eq_ok he
      exact Except.ok.inj he ▸ array_written hstart (sequence_written vs hs hd hes)
  | .float bits, _, _, he => by
    rw [termToBinaryOf] at he
    rw [denote]
    exact Except.ok.inj he ▸ float_written bits
  | .integer n, _, _, he => by
    rw [termToBinaryOf] at he
    rw [denote]
    exact integer_written he
  | .symbol name, _, hd, he | .otpErlangAtom value, _, hd, he => by
    rw [termToBinaryOf] at he
    rw [denote] at hd ⊢
    exact atom_written hd he
  | .bool b, _, _, he => by
    rw [termToBinaryOf] at he
    rw [denote]
    exact @atom_written utf8 e (.latin1 (boolName b)) (.atom _) he
  | .otpErlangList vs improper, hs, hd, he => by
    rw [termToBinaryOf] at he
    rw [Short] at hs
    rw [denote] at hd ⊢
    split at he
    · rename_i hnil
      rw [List.length_eq_zero_iff.mp hnil, denoteList]
      exact Except.ok.inj he ▸ .scalar .nil
    · split at he
      · cases he
      · rename_i hne hk
        obtain ⟨elements, hes, he⟩ := bind_eq_ok he
        have hlist := Written.listed (listOf_denote improper hne) (by rw [List.length_map]; omega)
          (sequence_written vs hs ((listOf_denote improper hne).elements hd) hes)
        rw [List.length_map] at hlist
        cases improper <;> exact Except.ok.inj he ▸ hlist
  | .otpErlangBinary value bits, _, _, he => by
    rw [termToBinaryOf] at he
    rw [denote]
    exact binary_written he
  | .hash pairs, _, hd, _ | .otpErlangFunction tag value, _, hd, _
  | .otpErlangReference node id creation, _, hd, _ | .otpErlangPort node id creation, _, hd, _
  | .otpErlangPid node id serial creation, _, hd, _ => by
    rw [denote] at hd
    cases hd
  | .nil, _, _, he | .other, _, _, he => by
    rw [termToBinaryOf] at he
    cases he

theorem sequence_written {e : List UInt8} : (vs : List Value) → AllShort vs → (∀ t ∈ vs.map denote, Data utf8 t) →
    sequenceToBinary vs = .ok e → Written utf8 e (vs.map denote)
  | [], _, _, he => by
    rw [sequenceToBinary] at he
    exact Except.ok.inj he ▸ .nil
  | v :: vs, hs, hd, he => by
    rw [sequenceToBinary] at he
    rw [AllShort] at hs
    rw [List.map_cons] at hd ⊢
    obtain ⟨hv, hvs⟩ := List.forall_mem_cons.mp hd
    obtain ⟨e₁, he₁, he⟩ := bind_eq_ok he
    obtain ⟨e₂, he₂, he⟩ := bind_eq_ok he
    exact Except.ok.inj he ▸ (terms_written v hs.1 hv he₁).append (sequence_written vs hs.2 hvs he₂)

end

/-! ## Reading -/

/-- What a value is read for: the same term, as a value that is written again as it is. -/
def Means (w : Value) (t : Term) : Prop := Same (denote w) t ∧ Short w

theorem means_of_eq {w : Value} {t : Term} (h : denote w = t) (hs : Short w) : Means w t := ⟨congrArg plain h, hs⟩

theorem int32_coded (n : BitVec 32) : Coded lib (Tag.integerExt.byte :: be 4 n.toNat) (.integer n.toInt) := by
  refine coded_of_tag fun depth _ data i bytes hr => ?_
  have hlt : n.toNat < 256 ^ 4 := lt_of_lt_of_eq n.isLt (by decide)
  have hvalue := int32_value (n := n.toInt) ⟨by have := n.le_toInt; omega, by have := n.toInt_lt; omega⟩
  rw [BitVec.ofInt_toInt] at hvalue
  rw [binaryToTermOf, binaryToInt32, bind_ok (unpack_at hr hlt), hvalue, length_be]
  rfl

theorem short_smallAtom (name : List UInt8) : Short (smallAtom name) := by
  unfold smallAtom
  split
  · rw [Short] <;> simp
  · split <;> (rw [Short] <;> simp)

theorem scalar_coded {t : Term} (h : Scalar (fun name => lib.validEncoding name = true) e t) :
    ∃ w, Coded lib e w ∧ Means w t := by
  cases h with
  | smallInteger n =>
    have hcoded := @integer_coded lib n.toNat [Tag.smallIntegerExt.byte, n] (by
      have hlt : n.toNat < 256 := n.toNat_lt
      rw [integerToBinary, if_pos (by omega), Int.toNat_natCast, UInt8.ofNat_toNat])
    exact ⟨_, hcoded, means_of_eq (by rw [denote]) trivial⟩
  | integer n => exact ⟨_, int32_coded n, means_of_eq (by rw [denote]) trivial⟩
  | bignum h =>
    exact ⟨_, bignum_coded ((bignum_guard _).trans (if_pos h)), means_of_eq (by rw [denote]) trivial⟩
  | float bits =>
    refine ⟨_, float_coded bits, ?_, trivial⟩
    rw [Same, denote, denoteFloat, plain, plain]
    split <;> rfl
  | @atom name h =>
    obtain ⟨hs, hbytes⟩ | ⟨hs, hbytes⟩ := encode_eq ((named_guard .smallAtomExt .atomExt name).trans (if_pos h))
    · rw [hbytes]
      refine ⟨smallAtom name, coded_of_tag fun depth _ data i bytes hr => ?_,
        means_of_eq (denote_smallAtom name) (short_smallAtom name)⟩
      rw [binaryToTermOf, bind_ok (binaryToBytes_reads hs hr)]
      rfl
    · rw [hbytes]
      refine ⟨.symbol (.latin1 name), coded_of_tag fun depth _ data i bytes hr => ?_,
        means_of_eq (by rw [denote]; rfl) trivial⟩
      rw [binaryToTermOf, bind_ok (binaryToBytes_reads hs hr)]
      rfl
  | @atomUtf8 name h hu =>
    refine ⟨.otpErlangAtom (.utf8 name), ?_, means_of_eq (by rw [denote]; rfl) trivial⟩
    obtain ⟨hs, hbytes⟩ | ⟨hs, hbytes⟩ := encode_eq ((named_guard .smallAtomUtf8Ext .atomUtf8Ext name).trans (if_pos h))
    all_goals
      rw [hbytes]
      refine coded_of_tag fun depth _ data i bytes hr => ?_
      rw [binaryToTermOf, bind_ok (binaryToUtf8_reads hs hu hr)]
      rfl
  | @string s hs h =>
    refine ⟨.string s, coded_of_tag fun depth _ data i bytes hr => ?_, means_of_eq (by rw [denote]) h⟩
    rw [binaryToTermOf, bind_ok (binaryToBytes_reads (by omega) hr)]
    rfl
  | @bitstring value bits h =>
    have hcoded := @binary_coded lib value (bitstring value bits) bits (by rw [binaryBinary_eq, if_neg (by omega)])
    exact ⟨_, hcoded, means_of_eq (by rw [denote]) trivial⟩
  | nil => exact ⟨_, nil_coded, means_of_eq (by rw [denote, denoteList]) trivial⟩

theorem means_all {ws : List Value} {ts : List Term} (h : List.Forall₂ Means ws ts) :
    (ws.map denote).map plain = ts.map plain ∧ AllShort ws := by
  induction h with
  | nil => exact ⟨rfl, trivial⟩
  | cons hw _ ih => exact ⟨by rw [List.map_cons, List.map_cons, List.map_cons, hw.1, ih.1], hw.2, ih.2⟩

theorem short_listWithTail {ws : List Value} {tail : Value} (h : AllShort ws) (ht : Short tail) :
    Short (listWithTail ws tail) := by
  unfold listWithTail
  split
  · exact h
  · rw [Short, allShort_iff, List.forall_mem_append, List.forall_mem_singleton]
    exact ⟨(allShort_iff ws).mp h, ht⟩

theorem array_read {es : List (List UInt8)} {ws : List Value} {ts : List Term} (h : List.Forall₂ (Coded lib) es ws)
    (hm : List.Forall₂ Means ws ts) (hk : ws.length ≤ 4294967295) :
    ∃ w, Coded lib (tupleStart ws.length ++ es.flatten) w ∧ Means w (.tuple ts) := by
  obtain ⟨hsame, hs⟩ := means_all hm
  refine ⟨_, array_coded h ((tupleStart_guard _).trans (if_pos hk)), ?_, hs⟩
  rw [Same, denote, denoteSequence_eq, plain_tuple, plain_tuple, hsame]

theorem list_read {es : List (List UInt8)} {ws : List Value} {ts : List Term} {w : Value} {t : Term}
    (h : List.Forall₂ (Coded lib) es ws) (hm : List.Forall₂ Means ws ts) (hk : ws.length ≤ 4294967295)
    (hw : Coded lib e w) (ht : Means w t) :
    ∃ w', Coded lib (Tag.listExt.byte :: be 4 ws.length ++ es.flatten ++ e) w' ∧ Means w' (ts.foldr .cons t) := by
  obtain ⟨hsame, hs⟩ := means_all hm
  refine ⟨listWithTail ws w, list_coded h (by omega) hw, ?_, short_listWithTail hs ht.2⟩
  rw [Same, denote_listWithTail, plain_foldr, plain_foldr, hsame, ht.1]

/-- The decoder reads all of the format. -/
def decoding (lib : Library) : Decoding (fun name => lib.validEncoding name = true) Value where
  Coded := Coded lib
  Means := Means
  scalar := scalar_coded
  tuple h hm hk := array_read h hm hk
  list h hm hk hw ht := list_read h hm hk hw ht

/-- What the encoder makes is in the format. -/
theorem termToBinary_written {v : Value} {data : List UInt8} (hs : Short v) (hw : termToBinary v = .ok data)
    (hd : Data utf8 (denote v)) : ∃ e, data = tagVersion :: e ∧ Written utf8 e [denote v] := by
  obtain ⟨e, hterm, he⟩ := bind_eq_ok hw
  exact ⟨e, (Except.ok.inj he).symm, terms_written _ hs hd hterm⟩

/-- What is in the format is decoded, however deep the decoder has to call itself. -/
theorem binaryToTerm_reads {t : Term} (h : Ext (fun name => lib.validEncoding name = true) e [t]) :
    ∃ w, (∀ depth, (tagVersion :: e).length ≤ depth → binaryToTerm lib depth (tagVersion :: e) = .ok w) ∧
      Means w t := by
  obtain ⟨w, hw, hm⟩ := (decoding lib).reads_one h
  refine ⟨w, fun depth hd => binaryToTerm_coded hw ?_, hm⟩
  rw [List.length_cons] at hd
  omega

/-- The Ruby codec. -/
def codec (lib : Library) : Codec where
  Value := Value
  utf8 name := lib.validEncoding name = true
  Sends := Short
  denote := denote
  Writes v data := termToBinary v = .ok data
  Reads data w := ∀ depth, data.length ≤ depth → binaryToTerm lib depth data = .ok w
  written hs hw hd := termToBinary_written hs hw hd
  read h := binaryToTerm_reads h
  unique hv hw := Except.ok.inj ((hv _ (Nat.le_refl _)).symm.trans (hw _ (Nat.le_refl _)))

end CloudI.Api.Ruby
