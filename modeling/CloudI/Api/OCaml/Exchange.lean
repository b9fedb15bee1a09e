import CloudI.Api.Format
import CloudI.Api.OCaml.RoundTrip

/-!
# The OCaml codec and the external term format

What the OCaml encoder writes of data is bytes of its term (`terms_written`), and the OCaml decoder reads all of the
format (`decoding`).
-/

namespace CloudI.Api.OCaml

open Format Slices

variable {fos : FloatOfString} {utf8 : List UInt8 → Prop} {e : List UInt8}

/-! ## Writing -/

theorem bignum_written {n : Int} (he : bignumToBinary n = .ok e) : Written utf8 e [.int n] := by
  obtain ⟨h, rfl⟩ := eq_of_guard ((bignum_guard n).symm.trans he)
  exact .scalar (.bignum h)

theorem integer_written {n : Int} (he : integerToBinary n = .ok e) : Written utf8 e [.int n] := by
  unfold integerToBinary at he
  split at he
  case isTrue h => exact Except.ok.inj he ▸ .small h
  case isFalse =>
    split at he
    case isTrue h => exact Except.ok.inj he ▸ .int32 h
    case isFalse => exact bignum_written he

theorem atom_written {name : List UInt8} (he : atomToBinary name = .ok e) : Written utf8 e [.atom name] := by
  obtain ⟨h, rfl⟩ := eq_of_guard ((named_guard _ _ name).symm.trans he)
  exact .scalar (.atom h)

theorem atomUtf8_written {name : List UInt8} (hu : utf8 name) (he : atomUtf8ToBinary name = .ok e) :
    Written utf8 e [.atomUtf8 name] := by
  obtain ⟨h, rfl⟩ := eq_of_guard ((named_guard _ _ name).symm.trans he)
  exact .scalar (.atomUtf8 h hu)

theorem binaryBits_written {value : List UInt8} {bits : Int} (he : binaryBitsToBinary value bits = .ok e) :
    Written utf8 e [.bitstring value (charByte bits)] := by
  unfold binaryBitsToBinary at he
  split at he
  case isTrue => cases he
  case isFalse hb =>
    obtain ⟨hl, hbytes⟩ : value.length ≤ 4294967295 ∧ e = bitstring value (charByte bits) := by
      split at he
      case isFalse => cases he
      case isTrue hl =>
        refine ⟨hl, ?_⟩
        have hn : (charByte bits).toNat = bits.toNat := by
          rw [charByte, UInt8.toNat_ofNat']
          exact Nat.mod_eq_of_lt (by omega)
        unfold bitstring
        split at he
        case isTrue h8 =>
          rw [if_neg]
          · exact (Except.ok.inj he).symm
          · intro height
            rw [height] at hn
            have h8' : (8 : UInt8).toNat = 8 := rfl
            omega
        case isFalse h8 =>
          rw [not_not.mp h8]
          exact (Except.ok.inj he).symm
    exact hbytes ▸ .scalar (.bitstring _ hl)

theorem string_written {s : List UInt8} (he : stringToBinary s = .ok e) : Written utf8 e [.ofBytes s] := by
  refine .string (fun hlong => ?_) he
  obtain ⟨h, rfl⟩ := eq_of_guard hlong
  exact .characters h

theorem listOf_denote {vs : List Value} (improper : Bool) (hne : ¬ vs.length = 0) :
    ListOf improper (vs.map denote) (denoteList vs improper) :=
  .of_denote denoteList_proper denoteList_improper improper hne

theorem list_written {vs : List Value} {improper : Bool} {elements : List UInt8} (hne : ¬ vs.length = 0)
    (hk : vs.length ≤ 4294967295) (h : Written utf8 elements (vs.map denote)) :
    Written utf8 (listToBinary vs.length improper elements) [denoteList vs improper] := by
  have hlist := Written.listed (listOf_denote improper hne) (by rw [List.length_map]; omega) h
  rw [List.length_map] at hlist
  exact hlist

theorem tuple_written {vs : List Value} {start elements : List UInt8} (hs : tupleToBinary vs.length = .ok start)
    (h : Written utf8 elements (vs.map denote)) : Written utf8 (start ++ elements) [.tuple (vs.map denote)] := by
  obtain ⟨hk, rfl⟩ := eq_of_guard ((tupleStart_guard vs.length).symm.trans hs)
  exact .tuple_map hk h

mutual

/-- What is written of data is bytes of the term that it denotes. -/
theorem terms_written {e : List UInt8} : (v : Value) → Data utf8 (denote v) → termToBinaryOf v = .ok e →
    Written utf8 e [denote v]
  | .otpErlangInteger n, _, he => by
    rw [termToBinaryOf] at he
    rw [denote]
    exact integer_written he
  | .otpErlangIntegerBig n, _, he => by
    rw [termToBinaryOf] at he
    rw [denote]
    exact bignum_written he
  | .otpErlangFloat bits, _, he => by
    rw [termToBinaryOf] at he
    rw [denote]
    exact Except.ok.inj he ▸ .scalar (.float bits)
  | .otpErlangAtom name, _, he | .otpErlangAtomBool b, _, he => by
    rw [termToBinaryOf] at he
    rw [denote]
    exact atom_written he
  | .otpErlangAtomUTF8 name, hd, he => by
    rw [termToBinaryOf] at he
    rw [denote] at hd ⊢
    cases hd with
    | atomUtf8 hu => exact atomUtf8_written hu he
  | .otpErlangString s, _, he => by
    rw [termToBinaryOf] at he
    rw [denote]
    exact string_written he
  | .otpErlangBinary value, _, he | .otpErlangBinaryBits value bits, _, he => by
    rw [termToBinaryOf] at he
    rw [denote]
    exact binaryBits_written he
  | .otpErlangList vs, hd, he | .otpErlangListImproper vs, hd, he => by
    rw [termToBinaryOf] at he
    rw [denote] at hd ⊢
    split at he
    case isTrue hnil =>
      rw [List.length_eq_zero_iff.mp hnil, denoteList]
      exact Except.ok.inj he ▸ .scalar .nil
    case isFalse hne =>
      split at he
      case isTrue hk =>
        obtain ⟨elements, hes, he⟩ := bind_eq_ok he
        exact Except.ok.inj he ▸ list_written hne hk (sequence_written vs ((listOf_denote _ hne).elements hd) hes)
      case isFalse => cases he
  | .otpErlangTuple vs, hd, he => by
    rw [termToBinaryOf] at he
    rw [denote, denoteSequence_eq] at hd ⊢
    cases hd with
    | tuple hd =>
      obtain ⟨start, hs, he⟩ := bind_eq_ok he
      obtain ⟨elements, hes, he⟩ := bind_eq_ok he
      exact Except.ok.inj he ▸ tuple_written hs (sequence_written vs hd hes)
  | .otpErlangAtomCacheRef n, hd, _ | .otpErlangMap pairs, hd, _
  | .otpErlangPid nodeTag node id serial creation, hd, _ | .otpErlangPort nodeTag node id creation, hd, _
  | .otpErlangReference nodeTag node id creation, hd, _ | .otpErlangFunction tag value, hd, _ => by
    rw [denote] at hd
    cases hd

theorem sequence_written {e : List UInt8} : (vs : List Value) → (∀ t ∈ vs.map denote, Data utf8 t) →
    sequenceToBinary vs = .ok e → Written utf8 e (vs.map denote)
  | [], _, he => by
    rw [sequenceToBinary] at he
    exact Except.ok.inj he ▸ .nil
  | v :: vs, hd, he => by
    rw [sequenceToBinary] at he
    rw [List.map_cons] at hd ⊢
    obtain ⟨hv, hvs⟩ := List.forall_mem_cons.mp hd
    obtain ⟨e₁, he₁, he⟩ := bind_eq_ok he
    obtain ⟨e₂, he₂, he⟩ := bind_eq_ok he
    exact Except.ok.inj he ▸ (terms_written v hv he₁).append (sequence_written vs hvs he₂)

end

/-! ## Reading -/

theorem int32_coded (n : BitVec 32) :
    Coded fos (Tag.integerExt.byte :: be 4 n.toNat) (.otpErlangInteger n.toInt) := by
  refine coded_of_tag fun depth _ data i bytes hr => ?_
  rw [binaryToTermOf, binaryToInt32, bind_ok (unpackInteger_at hr), length_be]
  rfl

theorem bitstring_coded {value : List UInt8} (bits : UInt8) (h : value.length ≤ 4294967295) :
    ∃ w, Coded fos (bitstring value bits) w ∧ denote w = .bitstring value bits := by
  unfold bitstring
  split
  case isTrue h8 =>
    subst h8
    exact @binaryBits_coded fos value _ 8 (by
      rw [binaryBitsToBinary, if_neg (by decide), if_pos h]
      rfl)
  case isFalse h8 =>
    rw [List.cons_append]
    refine ⟨.otpErlangBinaryBits value bits.toNat, coded_of_tag fun depth _ data i bytes hr => ?_, ?_⟩
    · rw [List.append_assoc] at hr
      have hbits := length_be 4 value.length ▸ hr.append
      rw [binaryToTermOf, bind_ok (unpackLength_at hr (by omega))]
      simp only
      rw [bind_ok (charAt_at hbits), bind_ok (sub_at hbits.tail rfl), if_neg h8, List.length_append, length_be,
        List.length_cons]
      refine congrArg Except.ok (Prod.ext ?_ rfl)
      simp only
      omega
    · rw [denote, charByte, Int.toNat_natCast, UInt8.ofNat_toNat]

theorem scalar_coded {t : Term} (h : Scalar utf8 e t) : ∃ w, Coded fos e w ∧ denote w = t := by
  cases h with
  | smallInteger n => exact ⟨_, smallInteger_coded n, by rw [denote]⟩
  | integer n => exact ⟨_, int32_coded n, by rw [denote]⟩
  | bignum h => exact ⟨_, bignum_coded ((bignum_guard _).trans (if_pos h)), by rw [denote]⟩
  | float bits => exact ⟨_, float_coded bits, by rw [denote]⟩
  | @atom name h => exact atom_coded ((named_guard _ _ name).trans (if_pos h))
  | @atomUtf8 name h _ =>
    exact ⟨_, atomUtf8_coded ((named_guard _ _ name).trans (if_pos h)), by rw [denote]⟩
  | @string s hs h =>
    refine string_coded ?_
    rw [stringToBinary, if_neg (fun hz => hs (List.length_eq_zero_iff.mp hz)), if_pos h]
  | bitstring bits h => exact bitstring_coded bits h
  | nil => exact ⟨_, nil_coded, by rw [denote, denoteList]⟩

theorem tuple_read {es : List (List UInt8)} {ws : List Value} {ts : List Term} (h : List.Forall₂ (Coded fos) es ws)
    (hm : List.Forall₂ (fun w t => denote w = t) ws ts) (hk : ws.length ≤ 4294967295) :
    ∃ w, Coded fos (tupleStart ws.length ++ es.flatten) w ∧ denote w = .tuple ts := by
  refine ⟨_, tuple_coded h ((tupleStart_guard _).trans (if_pos hk)), ?_⟩
  rw [denote, denoteSequence_eq, map_of_means hm]

theorem list_read {es : List (List UInt8)} {ws : List Value} {ts : List Term} {w : Value} {t : Term}
    (h : List.Forall₂ (Coded fos) es ws) (hm : List.Forall₂ (fun w t => denote w = t) ws ts)
    (hk : ws.length ≤ 4294967295) (hw : Coded fos e w) (ht : denote w = t) :
    ∃ w', Coded fos (Tag.listExt.byte :: be 4 ws.length ++ es.flatten ++ e) w' ∧ denote w' = ts.foldr .cons t := by
  refine ⟨listWithTail ws w, list_coded h (by omega) hw, ?_⟩
  rw [denote_listWithTail, map_of_means hm, ht]

/-- The decoder reads all of the format. -/
def decoding (fos : FloatOfString) (utf8 : List UInt8 → Prop) : Decoding utf8 Value where
  Coded := Coded fos
  Means w t := denote w = t
  scalar := scalar_coded
  tuple h hm hk := tuple_read h hm hk
  list h hm hk hw ht := list_read h hm hk hw ht

/-- What the encoder makes is in the format. -/
theorem termToBinary_written {v : Value} {data : List UInt8} (hw : termToBinary v = .ok data)
    (hd : Data utf8 (denote v)) : ∃ e, data = tagVersion :: e ∧ Written utf8 e [denote v] := by
  obtain ⟨e, hterm, he⟩ := bind_eq_ok hw
  exact ⟨e, (Except.ok.inj he).symm, terms_written _ hd hterm⟩

/-- What is in the format is decoded, however deep the decoder has to call itself. -/
theorem binaryToTerm_reads {t : Term} (h : Ext utf8 e [t]) :
    ∃ w, (∀ depth, (tagVersion :: e).length ≤ depth → binaryToTerm fos depth (tagVersion :: e) = .ok w) ∧
      denote w = t := by
  obtain ⟨w, hw, hm⟩ := (decoding fos utf8).reads_one h
  refine ⟨w, fun depth hd => binaryToTerm_coded hw ?_, hm⟩
  rw [List.length_cons] at hd
  omega

/-- The OCaml codec. -/
def codec (fos : FloatOfString) : Codec where
  Value := Value
  utf8 _ := True
  Sends _ := True
  denote := denote
  Writes v data := termToBinary v = .ok data
  Reads data w := ∀ depth, data.length ≤ depth → binaryToTerm fos depth data = .ok w
  written _ hw hd := termToBinary_written hw hd
  read h := (binaryToTerm_reads h).imp fun _ hw => ⟨hw.1, congrArg plain hw.2, trivial⟩
  unique hv hw := Except.ok.inj ((hv _ (Nat.le_refl _)).symm.trans (hw _ (Nat.le_refl _)))

end CloudI.Api.OCaml
