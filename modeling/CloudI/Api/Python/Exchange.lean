import CloudI.Api.Format
import CloudI.Api.Python.RoundTrip

/-!
# The Python codec and the external term format

What the Python encoder writes of data is bytes of its term (`terms_written`), and the Python decoder reads all of
the format whose names in UTF-8 it takes (`decoding`): valid ones, and in Python 3 only those of more than 255
bytes.
-/

namespace CloudI.Api.Python.Erlang

open Format Slices

variable {py3 : Bool} {lib : Library} {utf8 : List UInt8 → Prop} {e : List UInt8}

/-! ## Writing -/

theorem bignum_written {n : Int} (he : bignumToBinary n = .ok e) : Written utf8 e [.int n] := by
  obtain ⟨h, rfl⟩ := eq_of_guard ((bignum_guard n).symm.trans he)
  exact .scalar (.bignum h)

theorem long_written {n : Int} (he : longToBinary n = .ok e) : Written utf8 e [.int n] := by
  unfold longToBinary integerToBinary at he
  split at he
  · rename_i h
    rw [← Except.ok.inj he]
    split
    · rename_i hsmall
      exact .small hsmall
    · exact .int32 h
  · exact bignum_written he

theorem atom_written {a : AtomValue} (hd : Data utf8 a.denote) (he : a.binary = .ok e) :
    Written utf8 e [a.denote] := by
  cases a with
  | int n => cases hd
  | bytes name =>
    obtain ⟨h, rfl⟩ := eq_of_guard ((named_guard _ _ name).symm.trans he)
    exact .scalar (.atom h)
  | unicode name =>
    obtain ⟨h, rfl⟩ := eq_of_guard ((named_guard _ _ name).symm.trans he)
    cases hd with
    | atomUtf8 hu => exact .scalar (.atomUtf8 h hu)

theorem binary_written {value : List UInt8} {bits : Int} (he : binaryBinary value bits = .ok e) :
    Written utf8 e [.bitstring value (.ofNat bits.toNat)] := by
  unfold binaryBinary at he
  split at he
  · cases he
  · rename_i h
    have hscalar := Written.scalar (@Scalar.bitstring utf8 value (.ofNat bits.toNat) (by omega))
    unfold bitstring at hscalar
    split at he
    · rename_i hbits
      obtain ⟨c, hc, he⟩ := bind_eq_ok he
      obtain ⟨rfl, hn⟩ := bChr_eq hc
      rw [if_neg] at hscalar
      · exact Except.ok.inj he ▸ hscalar
      · intro height
        rw [height] at hn
        exact hbits hn.symm
    · rename_i hbits
      rw [not_not.mp hbits] at hscalar ⊢
      exact Except.ok.inj he ▸ hscalar

theorem string_written {s : List UInt8} (he : stringToBinary s = .ok e) : Written utf8 e [.ofBytes s] := by
  refine .string (fun hlong => ?_) he
  obtain ⟨h, rfl⟩ := eq_of_guard hlong
  exact .characters h

theorem listOf_denote {vs : List Value} (improper : Bool) (hne : ¬ vs.length = 0) :
    ListOf improper (vs.map denote) (denoteList vs improper) :=
  .of_denote denoteList_proper denoteList_improper improper hne

theorem list_written {vs : List Value} {improper : Bool} {elements : List UInt8} (hne : ¬ vs.length = 0)
    (hk : ¬ vs.length > 4294967295) (h : Written utf8 elements (vs.map denote)) :
    Written utf8 (listBinary vs.length improper elements) [denoteList vs improper] := by
  have hlist := Written.listed (listOf_denote improper hne) (by rw [List.length_map]; omega) h
  rw [List.length_map] at hlist
  exact hlist

theorem tuple_written {vs : List Value} {start elements : List UInt8} (hs : tupleToBinary vs.length = .ok start)
    (h : Written utf8 elements (vs.map denote)) : Written utf8 (start ++ elements) [.tuple (vs.map denote)] := by
  obtain ⟨hk, rfl⟩ := eq_of_guard ((tupleStart_guard vs.length).symm.trans hs)
  exact .tuple_map hk h

mutual

/-- What is written of data is bytes of the term that it denotes. -/
theorem terms_written {e : List UInt8} : (v : Value) → Data utf8 (denote v) → termToBinaryOf py3 v = .ok e →
    Written utf8 e [denote v]
  | .bytes s, _, he | .unicode s, _, he => by
    rw [termToBinaryOf] at he
    rw [denote]
    exact string_written he
  | .list vs, hd, he | .otpErlangList vs improper, hd, he => by
    rw [termToBinaryOf] at he
    rw [denote] at hd ⊢
    split at he
    · rename_i hnil
      rw [List.length_eq_zero_iff.mp hnil, denoteList]
      exact Except.ok.inj he ▸ .scalar .nil
    · split at he
      · cases he
      · rename_i hne hk
        obtain ⟨elements, hes, he⟩ := bind_eq_ok he
        exact Except.ok.inj he ▸ list_written hne hk (sequence_written vs ((listOf_denote _ hne).elements hd) hes)
  | .tuple vs, hd, he => by
    rw [termToBinaryOf] at he
    rw [denote, denoteSequence_eq] at hd ⊢
    cases hd with
    | tuple hd =>
      obtain ⟨start, hs, he⟩ := bind_eq_ok he
      obtain ⟨elements, hes, he⟩ := bind_eq_ok he
      exact Except.ok.inj he ▸ tuple_written hs (sequence_written vs hd hes)
  | .int n, _, he => by
    rw [termToBinaryOf] at he
    rw [denote]
    exact long_written he
  | .float bits, _, he => by
    rw [termToBinaryOf] at he
    rw [denote]
    exact Except.ok.inj he ▸ .scalar (.float bits)
  | .bool b, _, he => by
    rw [termToBinaryOf] at he
    rw [denote]
    exact @atom_written utf8 e (.bytes (boolName b)) (.atom _) he
  | .otpErlangAtom value, hd, he => by
    rw [termToBinaryOf] at he
    rw [denote] at hd ⊢
    exact atom_written hd he
  | .otpErlangBinary value bits, _, he => by
    rw [termToBinaryOf] at he
    rw [denote]
    exact binary_written he
  | .dict pairs, hd, _ | .frozendict pairs, hd, _ | .otpErlangFunction tag value, hd, _
  | .otpErlangReference node id creation, hd, _ | .otpErlangPort node id creation, hd, _
  | .otpErlangPid node id serial creation, hd, _ => by
    rw [denote] at hd
    cases hd
  | .other, _, he => by
    rw [termToBinaryOf] at he
    cases he

theorem sequence_written {e : List UInt8} : (vs : List Value) → (∀ t ∈ vs.map denote, Data utf8 t) →
    sequenceToBinary py3 vs = .ok e → Written utf8 e (vs.map denote)
  | [], _, he => by
    rw [sequenceToBinary] at he
    exact Except.ok.inj he ▸ .nil
  | v :: vs, hd, he => by
    rw [sequenceToBinary] at he
    rw [List.map_cons] at hd ⊢
    obtain ⟨hv, hvs⟩ := List.forall_mem_cons.mp hd
    obtain ⟨e₁, he₁, he⟩ := bind_eq_ok he
    obtain ⟨e₂, he₂, he⟩ := bind_eq_ok he
    exact Except.ok.inj he ▸ (terms_written v hv he₁).append (sequence_written vs hvs he₂)

end

/-! ## Reading -/

/-- The names in UTF-8 that are read as the name of an atom. -/
def ReadsName (py3 : Bool) (lib : Library) (name : List UInt8) : Prop :=
  lib.validUtf8 name = true ∧ (py3 = true → 255 < name.length)

theorem int32_coded (n : BitVec 32) : Coded py3 lib (Tag.integerExt.byte :: be 4 n.toNat) (.int n.toInt) := by
  refine coded_of_tag fun depth _ data i bytes hr => ?_
  have hlt : n.toNat < 256 ^ 4 := lt_of_lt_of_eq n.isLt (by decide)
  rw [binaryToTermOf, binaryToInt32, bind_ok (unpack_at hr hlt), BitVec.ofNat_toNat, BitVec.setWidth_eq, length_be]
  rfl

theorem bChr_toNat (c : UInt8) : bChr c.toNat = .ok c := by
  have hlt : c.toNat < 256 := c.toNat_lt
  rw [bChr, if_pos (by omega), Int.toNat_natCast, UInt8.ofNat_toNat]

theorem bitstring_coded {value : List UInt8} (bits : UInt8) (h : value.length ≤ 4294967295) :
    Coded py3 lib (bitstring value bits) (.otpErlangBinary value bits.toNat) := by
  refine binary_coded ?_
  unfold binaryBinary bitstring
  rw [if_neg (by omega)]
  by_cases hbits : bits = 8
  · rw [hbits, if_pos rfl]
    rfl
  · have hne : (bits.toNat : Int) ≠ 8 := by
      intro height
      exact hbits (UInt8.toNat_inj.mp (by exact_mod_cast height))
    rw [if_pos hne, if_neg hbits, bind_ok (bChr_toNat bits)]
    rfl

theorem scalar_coded {t : Term} (h : Scalar (ReadsName py3 lib) e t) : ∃ w, Coded py3 lib e w ∧ denote w = t := by
  cases h with
  | smallInteger n => exact ⟨_, smallInteger_coded n, by rw [denote]⟩
  | integer n => exact ⟨_, int32_coded n, by rw [denote]⟩
  | bignum h => exact ⟨_, bignum_coded ((bignum_guard _).trans (if_pos h)), by rw [denote]⟩
  | float bits => exact ⟨_, float_coded bits, by rw [denote]⟩
  | @atom name h =>
    refine ⟨_, @atom_coded py3 lib (.bytes name) _ trivial ((named_guard _ _ name).trans (if_pos h)), ?_⟩
    rw [restored, denote_smallAtom]
  | @atomUtf8 name h hu =>
    exact ⟨_, @atom_coded py3 lib (.unicode name) _ hu ((named_guard _ _ name).trans (if_pos h)), rfl⟩
  | @string s hs h =>
    refine ⟨_, @string_coded py3 lib s _ ?_, denote_restoredString s⟩
    rw [stringToBinary, if_neg (fun hz => hs (List.length_eq_zero_iff.mp hz)), if_pos h]
  | @bitstring value bits h =>
    refine ⟨_, bitstring_coded bits h, ?_⟩
    rw [denote, Int.toNat_natCast, UInt8.ofNat_toNat]
  | nil => exact ⟨_, nil_coded, by rw [denote, denoteList]⟩

theorem tuple_read {es : List (List UInt8)} {ws : List Value} {ts : List Term} (h : List.Forall₂ (Coded py3 lib) es ws)
    (hm : List.Forall₂ (fun w t => denote w = t) ws ts) (hk : ws.length ≤ 4294967295) :
    ∃ w, Coded py3 lib (tupleStart ws.length ++ es.flatten) w ∧ denote w = .tuple ts := by
  refine ⟨_, tuple_coded h ((tupleStart_guard _).trans (if_pos hk)), ?_⟩
  rw [denote, denoteSequence_eq, map_of_means hm]

theorem list_read {es : List (List UInt8)} {ws : List Value} {ts : List Term} {w : Value} {t : Term}
    (h : List.Forall₂ (Coded py3 lib) es ws) (hm : List.Forall₂ (fun w t => denote w = t) ws ts)
    (hk : ws.length ≤ 4294967295) (hw : Coded py3 lib e w) (ht : denote w = t) :
    ∃ w', Coded py3 lib (Tag.listExt.byte :: be 4 ws.length ++ es.flatten ++ e) w' ∧ denote w' = ts.foldr .cons t := by
  refine ⟨listWithTail ws w, list_coded h (by omega) hw, ?_⟩
  rw [denote_listWithTail, map_of_means hm, ht]

/-- The decoder reads all of the format. -/
def decoding (py3 : Bool) (lib : Library) : Decoding (ReadsName py3 lib) Value where
  Coded := Coded py3 lib
  Means w t := denote w = t
  scalar := scalar_coded
  tuple h hm hk := tuple_read h hm hk
  list h hm hk hw ht := list_read h hm hk hw ht

/-- What the encoder makes is in the format. -/
theorem termToBinary_written {v : Value} {data : List UInt8} (hw : termToBinary py3 v = .ok data)
    (hd : Data utf8 (denote v)) : ∃ e, data = tagVersion :: e ∧ Written utf8 e [denote v] := by
  obtain ⟨e, hterm, he⟩ := bind_eq_ok hw
  exact ⟨e, (Except.ok.inj he).symm, terms_written _ hd hterm⟩

/-- What is in the format is decoded, however deep the decoder has to call itself. -/
theorem binaryToTerm_reads {t : Term} (h : Ext (ReadsName py3 lib) e [t]) :
    ∃ w, (∀ depth, (tagVersion :: e).length ≤ depth → binaryToTerm py3 lib depth (tagVersion :: e) = .ok w) ∧
      denote w = t := by
  obtain ⟨w, hw, hm⟩ := (decoding py3 lib).reads_one h
  refine ⟨w, fun depth hd => binaryToTerm_coded hw ?_, hm⟩
  rw [List.length_cons] at hd
  omega

/-- The Python codec, in one of the two versions. -/
def codec (py3 : Bool) (lib : Library) : Codec where
  Value := Value
  utf8 := ReadsName py3 lib
  Sends _ := True
  denote := denote
  Writes v data := termToBinary py3 v = .ok data
  Reads data w := ∀ depth, data.length ≤ depth → binaryToTerm py3 lib depth data = .ok w
  written _ hw hd := termToBinary_written hw hd
  read h := (binaryToTerm_reads h).imp fun _ hw => ⟨hw.1, congrArg plain hw.2, trivial⟩
  unique hv hw := Except.ok.inj ((hv _ (Nat.le_refl _)).symm.trans (hw _ (Nat.le_refl _)))

end CloudI.Api.Python.Erlang
