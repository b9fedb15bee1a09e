import CloudI.Api.Format
import CloudI.Api.Go.RoundTrip

/-!
# The Go codec and the external term format

What the Go encoder writes of data is bytes of its term (`terms_written`), and the Go decoder reads all of the
format (`decoding`).
-/

namespace CloudI.Api.Go

open Format

variable {lib : Library} {utf8 : List UInt8 → Prop} {e : List UInt8}

/-! ## The bytes of the encoder -/

theorem bignumToBinary_eq (n : Int) :
    bignumToBinary n =
      if (minimal n.natAbs).length ≤ 4294967295 then .ok (bignum n) else .error (.outputError "uint32 overflow") := by
  simp only [bignumToBinary, List.length_reverse, List.reverse_reverse]
  exact bignum_guard n

theorem nameToBinary_eq (small large : Tag) (name : List UInt8) :
    nameToBinary small large name =
      if name.length ≤ 65535 then .ok (named small large name) else .error (.outputError "uint16 overflow") :=
  named_guard small large name

theorem tupleToBinary_eq (length : Nat) :
    tupleToBinary length =
      if length ≤ 4294967295 then .ok (tupleStart length) else .error (.outputError "uint32 overflow") :=
  tupleStart_guard length

/-! ## Writing -/

theorem bignum_written {n : Int} (he : bignumToBinary n = .ok e) : Written utf8 e [.int n] := by
  rw [bignumToBinary_eq] at he
  obtain ⟨h, rfl⟩ := eq_of_guard he
  exact .scalar (.bignum h)

theorem integer_written {n : Int} (h : -2147483648 ≤ n ∧ n ≤ 2147483647) :
    Written utf8 (integerToBinary (.ofInt n)) [.int n] := .int32 h

theorem int_written {n : Int64} (he : intToBinary n = .ok e) : Written utf8 e [.int n.toInt] := by
  unfold intToBinary at he
  split at he
  · rename_i h
    exact Except.ok.inj he ▸ .small h
  · split at he
    · rename_i h
      exact Except.ok.inj he ▸ integer_written h
    · exact bignum_written he

theorem atom_written {name : List UInt8} (he : atomToBinary name = .ok e) : Written utf8 e [.atom name] := by
  rw [atomToBinary, nameToBinary_eq] at he
  obtain ⟨h, rfl⟩ := eq_of_guard he
  exact .scalar (.atom h)

theorem atomUtf8_written {name : List UInt8} (hu : utf8 name) (he : atomUtf8ToBinary name = .ok e) :
    Written utf8 e [.atomUtf8 name] := by
  rw [atomUtf8ToBinary, nameToBinary_eq] at he
  obtain ⟨h, rfl⟩ := eq_of_guard he
  exact .scalar (.atomUtf8 h hu)

theorem binary_written {value : List UInt8} {bits : UInt8} (he : binaryObjectToBinary value bits = .ok e) :
    Written utf8 e [.bitstring value bits] := by
  unfold binaryObjectToBinary at he
  split at he
  · cases he
  · split at he
    · rename_i h
      have hscalar := Written.scalar (@Scalar.bitstring utf8 value bits h)
      unfold bitstring at hscalar
      split at he
      · rename_i hbits
        rw [if_neg hbits] at hscalar
        exact Except.ok.inj he ▸ hscalar
      · rename_i hbits
        rw [if_pos (not_not.mp hbits)] at hscalar
        exact Except.ok.inj he ▸ hscalar
    · cases he

theorem string_written {s : List UInt8} (he : stringToBinary s = .ok e) : Written utf8 e [.ofBytes s] := by
  refine .string (fun hlong => ?_) he
  obtain ⟨h, rfl⟩ := eq_of_guard hlong
  exact .characters h

theorem tuple_written {vs : List Value} {start elements : List UInt8} (hs : tupleToBinary vs.length = .ok start)
    (h : Written utf8 elements (denoteSequence lib vs)) :
    Written utf8 (start ++ elements) [.tuple (denoteSequence lib vs)] := by
  rw [tupleToBinary_eq] at hs
  obtain ⟨hk, rfl⟩ := eq_of_guard hs
  rw [← @denoteSequence_length lib vs] at hk ⊢
  exact .tuple hk h

theorem denoteSequence_eq (vs : List Value) : denoteSequence lib vs = vs.map (denote lib) := by
  induction vs with
  | nil => rfl
  | cons v vs ih => rw [denoteSequence, ih, List.map_cons]

theorem listOf_denote {vs : List Value} (improper : Bool) (hne : ¬ vs.length = 0) :
    ListOf improper (denoteSequence lib vs) (denoteList lib vs improper) := by
  rw [denoteSequence_eq]
  refine .of_denote (fun vs => ?_) (fun init tail => ?_) improper hne
  · rw [denoteList_proper, consAll, denoteSequence_eq]
  · rw [denoteList_improper, consAll, denoteSequence_eq]

theorem list_written {vs : List Value} {improper : Bool} {start elements : List UInt8} (hne : ¬ vs.length = 0)
    (hs : listToBinary vs.length improper = .ok start) (h : Written utf8 elements (denoteSequence lib vs)) :
    Written utf8 (start ++ elements ++ if improper then [] else [Tag.nilExt.byte]) [denoteList lib vs improper] := by
  obtain ⟨hk, rfl⟩ := eq_of_guard hs
  cases improper with
  | false =>
    have hlist := Written.listed (listOf_denote false hne) (by rw [denoteSequence_length]; exact hk) h
    rw [denoteSequence_length] at hlist
    exact hlist
  | true =>
    have hlist := Written.listed (listOf_denote true hne) (by rw [denoteSequence_length]; omega) h
    rw [denoteSequence_length] at hlist
    simpa only [if_true, List.append_nil] using hlist

mutual

/-- What is written of data is bytes of the term that it denotes. -/
theorem terms_written {e : List UInt8} : (v : Value) → Data utf8 (denote lib v) → termsToBinary lib v = .ok e →
    Written utf8 e [denote lib v]
  | .uint8 n, _, he => by
    rw [termsToBinary] at he
    rw [denote]
    exact Except.ok.inj he ▸ .scalar (.smallInteger n)
  | .uint16 n, _, he => by
    have hlt : n.toNat < 65536 := n.toNat_lt
    rw [termsToBinary] at he
    rw [denote]
    exact Except.ok.inj he ▸ integer_written ⟨by omega, by omega⟩
  | .uint32 n, _, he | .uint64 n, _, he | .int64 n, _, he | .bigInt n, _, he => by
    rw [termsToBinary] at he
    rw [denote]
    exact bignum_written he
  | .int8 n, _, he => by
    have hle : n.toInt ≤ 127 := n.toInt_le
    have hge : -128 ≤ n.toInt := n.le_toInt
    rw [termsToBinary] at he
    rw [denote]
    exact Except.ok.inj he ▸ integer_written ⟨by omega, by omega⟩
  | .int16 n, _, he => by
    have hle : n.toInt ≤ 32767 := n.toInt_le
    have hge : -32768 ≤ n.toInt := n.le_toInt
    rw [termsToBinary] at he
    rw [denote]
    exact Except.ok.inj he ▸ integer_written ⟨by omega, by omega⟩
  | .int32 n, _, he => by
    rw [termsToBinary] at he
    rw [denote]
    exact Except.ok.inj he ▸ .scalar (.integer n.toBitVec)
  | .int n, _, he => by
    rw [termsToBinary] at he
    rw [denote]
    exact int_written he
  | .float32 bits, _, he => by
    rw [termsToBinary] at he
    rw [denote]
    exact Except.ok.inj he ▸ .scalar (.float _)
  | .float64 bits, _, he => by
    rw [termsToBinary] at he
    rw [denote]
    exact Except.ok.inj he ▸ .scalar (.float bits)
  | .bool b, _, he | .otpErlangAtom s, _, he => by
    rw [termsToBinary] at he
    rw [denote]
    exact atom_written he
  | .otpErlangAtomUTF8 s, hd, he => by
    rw [termsToBinary] at he
    rw [denote] at hd ⊢
    cases hd with
    | atomUtf8 hu => exact atomUtf8_written hu he
  | .bytes value, _, he | .otpErlangBinary value bits, _, he => by
    rw [termsToBinary] at he
    rw [denote]
    exact binary_written he
  | .string s, _, he => by
    rw [termsToBinary] at he
    rw [denote]
    exact string_written he
  | .otpErlangTuple vs, hd, he | .slice vs, hd, he => by
    rw [termsToBinary] at he
    rw [denote] at hd ⊢
    cases hd with
    | tuple hd =>
      obtain ⟨start, hs, he⟩ := bind_eq_ok he
      obtain ⟨elements, hes, he⟩ := bind_eq_ok he
      exact Except.ok.inj he ▸ tuple_written hs (sequence_written vs hd hes)
  | .otpErlangList vs improper, hd, he => by
    rw [termsToBinary] at he
    rw [denote] at hd ⊢
    split at he
    · rename_i hnil
      rw [List.length_eq_zero_iff.mp hnil, denoteList]
      exact Except.ok.inj he ▸ .scalar .nil
    · rename_i hne
      obtain ⟨start, hs, he⟩ := bind_eq_ok he
      obtain ⟨elements, hes, he⟩ := bind_eq_ok he
      exact Except.ok.inj he ▸ list_written hne hs (sequence_written vs ((listOf_denote _ hne).elements hd) hes)
  | .otpErlangAtomCacheRef n, hd, _ | .otpErlangFunction tag value, hd, _
  | .otpErlangPid nodeTag node id serial creation, hd, _ | .otpErlangPort nodeTag node id creation, hd, _
  | .otpErlangReference nodeTag node id creation, hd, _ | .otpErlangMap pairs, hd, _
  | .mapInterface pairs, hd, _ => by
    rw [denote] at hd
    cases hd
  | .other, _, he => by
    rw [termsToBinary] at he
    cases he

theorem sequence_written {e : List UInt8} : (vs : List Value) → (∀ t ∈ denoteSequence lib vs, Data utf8 t) →
    sequenceToBinary lib vs = .ok e → Written utf8 e (denoteSequence lib vs)
  | [], _, he => by
    rw [sequenceToBinary] at he
    exact Except.ok.inj he ▸ .nil
  | v :: vs, hd, he => by
    rw [sequenceToBinary] at he
    rw [denoteSequence] at hd ⊢
    obtain ⟨hv, hvs⟩ := List.forall_mem_cons.mp hd
    obtain ⟨e₁, he₁, he⟩ := bind_eq_ok he
    obtain ⟨e₂, he₂, he⟩ := bind_eq_ok he
    exact Except.ok.inj he ▸ (terms_written v hv he₁).append (sequence_written vs hvs he₂)

end

/-! ## Reading -/

/-- The bytes of values one after another. -/
theorem External.flatten {es : List (List UInt8)} {ws : List Value}
    (h : List.Forall₂ (fun e w => External lib e [w]) es ws) : External lib es.flatten ws := by
  induction h with
  | nil => exact .nil
  | cons hw _ ih => exact hw.append ih

theorem scalar_external {t : Term} (h : Scalar utf8 e t) : ∃ w, External lib e [w] ∧ denote lib w = t := by
  cases h with
  | smallInteger n => exact ⟨_, (Leaf.smallInteger n).external, by rw [denote]⟩
  | integer n => exact ⟨_, (Leaf.integer (.ofBitVec n)).external, by rw [denote]; rfl⟩
  | bignum h => exact ⟨_, bignumToBinary_external (by rw [bignumToBinary_eq, if_pos h]), by rw [denote]⟩
  | float bits => exact ⟨_, (Leaf.newFloat bits).external, by rw [denote]⟩
  | atom h => exact ⟨_, nameToBinary_external .smallAtom .atom (by rw [nameToBinary_eq, if_pos h]), by rw [denote]⟩
  | atomUtf8 h _ =>
    exact ⟨_, nameToBinary_external .smallAtomUtf8 .atomUtf8 (by rw [nameToBinary_eq, if_pos h]), by rw [denote]⟩
  | string _ h => exact ⟨_, (Leaf.bytes .string (by omega)).external, by rw [denote]⟩
  | @bitstring value bits h =>
    unfold bitstring
    split
    · rename_i hbits
      exact ⟨_, (Leaf.bytes .binary (by omega)).external, by rw [denote, hbits]⟩
    · exact ⟨_, (Leaf.bitBinary bits (by omega)).external, by rw [denote]⟩
  | nil => exact ⟨_, Leaf.nil.external, by rw [denote, denoteList]⟩

theorem tuple_external {es : List (List UInt8)} {ws : List Value} {ts : List Term}
    (h : List.Forall₂ (fun e w => External lib e [w]) es ws) (hm : List.Forall₂ (fun w t => denote lib w = t) ws ts)
    (hk : ws.length ≤ 4294967295) :
    ∃ w, External lib (tupleStart ws.length ++ es.flatten) [w] ∧ denote lib w = .tuple ts := by
  refine ⟨.otpErlangTuple _, ?_, by rw [denote, denoteSequence_eq, map_of_means hm]⟩
  unfold tupleStart
  split
  · exact .tupled (.inl ⟨rfl, rfl⟩) (by omega) (.flatten h)
  · exact .tupled (.inr ⟨rfl, rfl⟩) (by omega) (.flatten h)

theorem list_external {es : List (List UInt8)} {ws : List Value} {ts : List Term} {w : Value} {t : Term}
    (h : List.Forall₂ (fun e w => External lib e [w]) es ws) (hm : List.Forall₂ (fun w t => denote lib w = t) ws ts)
    (hk : ws.length ≤ 4294967295) (hw : External lib e [w]) (ht : denote lib w = t) :
    ∃ w', External lib (Tag.listExt.byte :: be 4 ws.length ++ es.flatten ++ e) [w'] ∧
      denote lib w' = ts.foldr .cons t :=
  ⟨_, .listed (by omega) (.flatten h) hw, by rw [denote_listWithTail, denoteSequence_eq, map_of_means hm, ht, consAll]⟩

/-- The decoder reads all of the format. -/
def decoding (lib : Library) (utf8 : List UInt8 → Prop) : Decoding utf8 Value where
  Coded e w := External lib e [w]
  Means w t := denote lib w = t
  scalar := scalar_external
  tuple h hm hk := tuple_external h hm hk
  list h hm hk hw ht := list_external h hm hk hw ht

/-- What the encoder makes is in the format. -/
theorem termToBinary_written {v : Value} {data : List UInt8} (hw : termToBinary lib v (-1) = .ok data)
    (hd : Data utf8 (denote lib v)) : ∃ e, data = tagVersion :: e ∧ Written utf8 e [denote lib v] := by
  obtain ⟨e, rfl, hterms⟩ := termToBinary_external hw
  exact ⟨e, rfl, terms_written _ hd hterms⟩

/-- What is in the format is decoded, however deep the decoder has to call itself. -/
theorem binaryToTerm_reads {t : Term} (h : Ext utf8 e [t]) :
    ∃ w, (∀ depth, (tagVersion :: e).length ≤ depth → binaryToTerm lib depth (tagVersion :: e) = .ok w) ∧
      denote lib w = t := by
  obtain ⟨w, hw, hm⟩ := (decoding lib utf8).reads_one h
  refine ⟨w, fun depth hd => binaryToTerm_external hw ?_, hm⟩
  rw [List.length_cons] at hd
  omega

/-- The Go codec, without compression. -/
def codec (lib : Library) : Codec where
  Value := Value
  utf8 _ := True
  Sends _ := True
  denote := denote lib
  Writes v data := termToBinary lib v (-1) = .ok data
  Reads data w := ∀ depth, data.length ≤ depth → binaryToTerm lib depth data = .ok w
  written _ hw hd := termToBinary_written hw hd
  read h := (binaryToTerm_reads h).imp fun _ hw => ⟨hw.1, congrArg plain hw.2, trivial⟩
  unique hv hw := Except.ok.inj ((hv _ (Nat.le_refl _)).symm.trans (hw _ (Nat.le_refl _)))

end CloudI.Api.Go
