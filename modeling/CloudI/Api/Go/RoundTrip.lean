import CloudI.Api.Go.External
import CloudI.Framework.Exn

/-!
# What the Go codec encodes is decoded again

The bytes of a value that meets `Fits` are an external term (`terms_external`), for a value that denotes the same
Erlang term, and is the same value if it is one that the decoder makes (`Made`). `decode_encode` is what the
decoder does with them.
-/

namespace CloudI.Api.Go

variable (lib : Library)

/-! ## The values -/

mutual

/-- A value whose parts are what the decoder can keep. -/
def Fits : Value → Prop
  | .otpErlangFunction tag value => External lib (tag :: value) [.otpErlangFunction tag value]
  | .otpErlangPid nodeTag node id serial _ =>
    Node nodeTag node ∧ node.length < nodeLimit nodeTag ∧ id.length = 4 ∧ serial.length = 4
  | .otpErlangPort nodeTag node id _ => Node nodeTag node ∧ node.length < nodeLimit nodeTag ∧ id.length = 4
  | .otpErlangReference nodeTag node id _ =>
    Node nodeTag node ∧ node.length < nodeLimit nodeTag ∧ ∃ j, id.length = 4 * j ∧ 0 < j ∧ j < 16384
  | .otpErlangTuple vs | .slice vs | .otpErlangList vs _ => AllFit vs
  | .otpErlangMap pairs | .mapInterface pairs => pairs = []
  | _ => True

def AllFit : List Value → Prop
  | [] => True
  | v :: vs => Fits v ∧ AllFit vs

end

attribute [grind =] Fits AllFit

mutual

/-- A value of the kinds that the decoder makes. A string is not empty, and an improper list not one that ends. -/
def Made : Value → Prop
  | .uint8 _ | .int32 _ | .bigInt _ | .float64 _ | .otpErlangAtom _ | .otpErlangAtomUTF8 _ | .otpErlangAtomCacheRef _
  | .otpErlangBinary _ _ | .otpErlangFunction _ _ | .otpErlangPid _ _ _ _ _ | .otpErlangPort _ _ _ _
  | .otpErlangReference _ _ _ _ => True
  | .string s => s ≠ [] ∧ s.length ≤ 65535
  | .otpErlangTuple vs => AllMade vs
  | .otpErlangMap pairs => pairs = []
  | .otpErlangList vs improper => AllMade vs ∧ (improper = true →
      ∃ init tail, vs = init ++ [tail] ∧ ∀ improper, tail ≠ .otpErlangList [] improper)
  | _ => False

def AllMade : List Value → Prop
  | [] => True
  | v :: vs => Made v ∧ AllMade vs

end

attribute [grind =] Made AllMade

/-! ## Sequences of external terms -/

section Sequences

variable {lib} {e l : List UInt8} {us vs : List Value}

theorem External.append (h : External lib e us) (hl : External lib l vs) : External lib (e ++ l) (us ++ vs) := by
  induction h with
  | nil => exact hl
  | leaf h hs ih =>
    rw [List.append_assoc]
    exact .leaf h ih
  | tuple ht hk h hs ih ihs =>
    rw [List.append_assoc]
    exact .tuple ht hk h ihs
  | list hk h ht hs ih iht ihs =>
    rw [List.append_assoc]
    exact .list hk h ht ihs
  | closure h hf hs ih ihs =>
    rw [List.append_assoc]
    exact .closure h hf ihs

theorem External.split (h : External lib l (us ++ vs)) :
    ∃ e₁ e₂, l = e₁ ++ e₂ ∧ External lib e₁ us ∧ External lib e₂ vs := by
  induction us generalizing l with
  | nil => exact ⟨[], l, rfl, .nil, h⟩
  | cons u us ih =>
    rw [List.cons_append] at h
    cases h with
    | leaf h hs =>
      obtain ⟨e₁, e₂, rfl, h₁, h₂⟩ := ih hs
      exact ⟨_, e₂, (List.append_assoc _ _ _).symm, .leaf h h₁, h₂⟩
    | tuple ht hk h hs =>
      obtain ⟨e₁, e₂, rfl, h₁, h₂⟩ := ih hs
      exact ⟨_, e₂, (List.append_assoc _ _ _).symm, .tuple ht hk h h₁, h₂⟩
    | list hk h ht hs =>
      obtain ⟨e₁, e₂, rfl, h₁, h₂⟩ := ih hs
      exact ⟨_, e₂, (List.append_assoc _ _ _).symm, .list hk h ht h₁, h₂⟩
    | closure h hf hs =>
      obtain ⟨e₁, e₂, rfl, h₁, h₂⟩ := ih hs
      exact ⟨_, e₂, (List.append_assoc _ _ _).symm, .closure h hf h₁, h₂⟩

theorem Leaf.external {tag : Tag} {w : Value} (h : Leaf lib tag e w) : External lib (tag.byte :: e) [w] := by
  have hleaf := External.leaf h .nil
  rwa [List.append_nil] at hleaf

theorem External.tupled {tag : Tag} {k : Nat} (ht : tag = .smallTupleExt ∧ k = 1 ∨ tag = .largeTupleExt ∧ k = 4)
    (hk : vs.length < 256 ^ k) (h : External lib e vs) :
    External lib (tag.byte :: be k vs.length ++ e) [.otpErlangTuple vs] := by
  have htuple := External.tuple ht hk h .nil
  rwa [List.append_nil] at htuple

theorem External.listed {tail : Value} (hk : vs.length < 256 ^ 4) (h : External lib e vs) (ht : External lib l [tail]) :
    External lib (Tag.listExt.byte :: be 4 vs.length ++ e ++ l) [listWithTail vs tail] := by
  have hlist := External.list hk h ht .nil
  rwa [List.append_nil] at hlist

end Sequences

/-! ## The terms of lists -/

section Lists

variable {lib} {vs ws : List Value}

theorem denoteSequence_length (vs : List Value) : (denoteSequence lib vs).length = vs.length := by
  induction vs with
  | nil => rfl
  | cons v vs ih => rw [denoteSequence, List.length_cons, List.length_cons, ih]

theorem denoteSequence_append (us vs : List Value) :
    denoteSequence lib (us ++ vs) = denoteSequence lib us ++ denoteSequence lib vs := by
  induction us with
  | nil => rfl
  | cons u us ih => rw [List.cons_append, denoteSequence, denoteSequence, ih, List.cons_append]

/-- A list with a tail. -/
def consAll (elements : List Term) (tail : Term) : Term := elements.foldr .cons tail

theorem denoteList_proper (vs : List Value) : denoteList lib vs false = consAll (denoteSequence lib vs) .nil := by
  induction vs with
  | nil => rfl
  | cons v vs ih =>
    rw [denoteList, denoteSequence, ih]
    · rfl
    · simp

theorem denoteList_improper (init : List Value) (tail : Value) :
    denoteList lib (init ++ [tail]) true = consAll (denoteSequence lib init) (denote lib tail) := by
  induction init with
  | nil => rfl
  | cons v init ih =>
    rw [List.cons_append, denoteList, denoteSequence, ih]
    · rfl
    · simp

/-- A list stands for the same term if its elements do. -/
theorem denoteList_congr (h : denoteSequence lib ws = denoteSequence lib vs) (improper : Bool) :
    denoteList lib ws improper = denoteList lib vs improper := by
  cases improper with
  | false => rw [denoteList_proper, denoteList_proper, h]
  | true =>
    have hlen := congrArg List.length h
    rw [denoteSequence_length, denoteSequence_length] at hlen
    obtain rfl | ⟨init, tail, rfl⟩ := List.eq_nil_or_concat' ws
    · rw [List.length_eq_zero_iff.mp hlen.symm]
    · obtain rfl | ⟨init', tail', rfl⟩ := List.eq_nil_or_concat' vs
      · rw [List.length_append] at hlen
        exact absurd hlen (Nat.succ_ne_zero _)
      · rw [denoteSequence_append, denoteSequence_append] at h
        obtain ⟨hinit, htail⟩ := List.append_inj' h rfl
        rw [denoteList_improper, denoteList_improper, hinit]
        exact congrArg _ (List.cons.inj htail).1

theorem listWithTail_nil (init : List Value) (improper : Bool) :
    listWithTail init (.otpErlangList [] improper) = .otpErlangList init false := rfl

theorem listWithTail_of_ne (init : List Value) {tail : Value} (h : ∀ improper, tail ≠ .otpErlangList [] improper) :
    listWithTail init tail = .otpErlangList (init ++ [tail]) true := by
  cases tail with
  | otpErlangList value improper =>
    cases value with
    | nil => exact absurd rfl (h improper)
    | cons v value => rfl
  | _ => rfl

theorem denote_listWithTail (init : List Value) (tail : Value) :
    denote lib (listWithTail init tail) = consAll (denoteSequence lib init) (denote lib tail) := by
  by_cases h : ∃ improper, tail = .otpErlangList [] improper
  · obtain ⟨improper, rfl⟩ := h
    rw [listWithTail_nil, denote, denoteList_proper]
    rfl
  · rw [listWithTail_of_ne init fun improper hi => h ⟨improper, hi⟩, denote, denoteList_improper]

end Lists

/-! ## Values without values in them -/

section Scalars

variable {lib} {e : List UInt8}

theorem bignumToBinary_external {n : Int} (he : bignumToBinary n = .ok e) : External lib e [.bigInt n] := by
  have hvalue : (if (if n < 0 then 1 else 0 : UInt8) = 1 then -(ofBe (minimal n.natAbs).reverse : Int)
      else ofBe (minimal n.natAbs).reverse) = n := by
    rw [ofBe_minimal]
    by_cases hneg : n < 0
    · rw [if_pos hneg, if_pos rfl]
      omega
    · rw [if_neg hneg, if_neg (by decide)]
      omega
  have hbig : ∀ {tag : Tag} {k : Nat}, (tag = .smallBigExt ∧ k = 1 ∨ tag = .largeBigExt ∧ k = 4) →
      (minimal n.natAbs).length < 256 ^ k →
      External lib (tag.byte :: (be k (minimal n.natAbs).length ++ (if n < 0 then 1 else 0) :: minimal n.natAbs))
        [.bigInt n] := by
    intro tag k ht h
    have hleaf : External lib _ _ := (Leaf.big (if n < 0 then 1 else 0) ht h).external
    rwa [hvalue] at hleaf
  simp only [bignumToBinary, List.reverse_reverse, List.length_reverse] at he
  split at he
  · rw [← Except.ok.inj he]
    exact hbig (.inl ⟨rfl, rfl⟩) (by omega)
  · split at he
    · rw [← Except.ok.inj he]
      exact hbig (.inr ⟨rfl, rfl⟩) (by omega)
    · simp only [reduceCtorEq] at he

theorem int32_toInt_ofInt {n : Int} (h : -2147483648 ≤ n ∧ n ≤ 2147483647) : (Int32.ofInt n).toInt = n := by
  have hsize : (Int32.size : Int) = 4294967296 := rfl
  rw [Int32.toInt_ofInt, Int.bmod_eq_of_le (by omega) (by omega)]

theorem integerToBinary_external (n : Int32) : External lib (integerToBinary n) [.int32 n] :=
  (Leaf.integer n).external

theorem intToBinary_external {n : Int64} (he : intToBinary n = .ok e) :
    ∃ w, External lib e [w] ∧ denote lib w = .int n.toInt := by
  unfold intToBinary at he
  split at he
  · rename_i h
    rw [← Except.ok.inj he]
    refine ⟨_, (Leaf.smallInteger _).external, ?_⟩
    rw [denote, UInt8.toNat_ofNat', Nat.mod_eq_of_lt (by omega), Int.toNat_of_nonneg h.1]
  · split at he
    · rename_i h
      rw [← Except.ok.inj he]
      exact ⟨_, integerToBinary_external _, congrArg Term.int (int32_toInt_ofInt h)⟩
    · exact ⟨_, bignumToBinary_external he, rfl⟩

theorem nameToBinary_external {small large : Tag} {make : List UInt8 → Value} {term : List UInt8}
    (hs : Prefixed small 1 make) (hl : Prefixed large 2 make) (he : nameToBinary small large term = .ok e) :
    External lib e [make term] := by
  unfold nameToBinary at he
  split at he
  · rw [← Except.ok.inj he]
    exact (Leaf.bytes hs (by omega)).external
  · split at he
    · rw [← Except.ok.inj he]
      exact (Leaf.bytes hl (by omega)).external
    · simp only [reduceCtorEq] at he

theorem binaryObjectToBinary_external {value : List UInt8} {bits : UInt8}
    (he : binaryObjectToBinary value bits = .ok e) :
    External lib e [.otpErlangBinary value bits] := by
  unfold binaryObjectToBinary at he
  split at he
  · simp only [reduceCtorEq] at he
  · split at he
    · split at he
      · rw [← Except.ok.inj he]
        exact (Leaf.bitBinary bits (by omega)).external
      · rename_i h
        rw [← Except.ok.inj he, not_not.mp h]
        exact (Leaf.bytes .binary (by omega)).external
    · simp only [reduceCtorEq] at he

theorem pidToBinary_external {nodeTag : UInt8} {node id serial : List UInt8} {creation : UInt8}
    (h : Fits lib (.otpErlangPid nodeTag node id serial creation)) :
    External lib (pidToBinary nodeTag node id serial creation) [.otpErlangPid nodeTag node id serial creation] := by
  rw [Fits] at h
  obtain ⟨hn, hlt, hid, hs⟩ := h
  have hleaf : External lib _ _ := (Leaf.pid creation hn hid hs).external
  rwa [kept_eq hlt] at hleaf

theorem portToBinary_external {nodeTag : UInt8} {node id : List UInt8} {creation : UInt8}
    (h : Fits lib (.otpErlangPort nodeTag node id creation)) :
    External lib (portToBinary nodeTag node id creation) [.otpErlangPort nodeTag node id creation] := by
  rw [Fits] at h
  obtain ⟨hn, hlt, hid⟩ := h
  have hleaf : External lib _ _ := (Leaf.port creation hn hid).external
  rwa [kept_eq hlt] at hleaf

theorem referenceToBinary_external {nodeTag : UInt8} {node id : List UInt8} {creation : UInt8}
    (h : Fits lib (.otpErlangReference nodeTag node id creation))
    (he : referenceToBinary nodeTag node id creation = .ok e) :
    External lib e [.otpErlangReference nodeTag node id creation] := by
  rw [Fits] at h
  obtain ⟨hn, hlt, j, hid, hpos, hj⟩ := h
  have hleaf : External lib _ _ := (Leaf.newReference j creation hn hid hj).external
  have hlength : id.length / 4 = j := by omega
  simp only [referenceToBinary, hlength, if_neg (show ¬ j = 0 by omega), if_pos (show j ≤ 65535 by omega)] at he
  rw [← Except.ok.inj he]
  rwa [kept_eq hlt] at hleaf

/-- The values of the elements of a list of bytes. -/
theorem bytesToBinary_external (term : List UInt8) : External lib (bytesToBinary term) (term.map .uint8) := by
  induction term with
  | nil => exact .nil
  | cons b term ih => exact .leaf (.smallInteger b) ih

theorem denote_bytes (term : List UInt8) : denote lib (.otpErlangList (term.map .uint8) false) = .ofBytes term := by
  rw [denote]
  induction term with
  | nil => rfl
  | cons b term ih => rw [List.map_cons, denoteList_proper] at *; rw [denoteSequence, Term.ofBytes, ← ih]; rfl

theorem stringToBinary_external {term : List UInt8} (he : stringToBinary term = .ok e) :
    ∃ w, External lib e [w] ∧ denote lib w = .ofBytes term ∧ (term ≠ [] ∧ term.length ≤ 65535 → w = .string term) := by
  unfold stringToBinary at he
  split at he
  · rename_i h
    have hnil : term = [] := List.length_eq_zero_iff.mp h
    rw [← Except.ok.inj he, hnil]
    exact ⟨_, Leaf.nil.external, rfl, fun h => absurd rfl h.1⟩
  · split at he
    · rw [← Except.ok.inj he]
      exact ⟨_, (Leaf.bytes .string (by omega)).external, rfl, fun _ => rfl⟩
    · split at he
      · rename_i h _
        rw [← Except.ok.inj he]
        have hlist : External lib _ _ := External.listed (by rw [List.length_map]; omega) (bytesToBinary_external term)
          Leaf.nil.external
        rw [List.length_map, listWithTail_nil] at hlist
        exact ⟨_, hlist, denote_bytes term, fun hs => absurd hs.2 h⟩
      · simp only [reduceCtorEq] at he

end Scalars

/-! ## Values in values -/

/-- What `External` makes of the bytes of a value. -/
def Encoded (v : Value) (e : List UInt8) : Prop :=
  ∃ w, External lib e [w] ∧ denote lib w = denote lib v ∧ (Made v → w = v)

/-- What `External` makes of the bytes of values one after another. -/
def AllEncoded (vs : List Value) (e : List UInt8) : Prop :=
  ∃ ws, External lib e ws ∧ denoteSequence lib ws = denoteSequence lib vs ∧ (AllMade vs → ws = vs)

variable {lib} {e : List UInt8} {vs : List Value}

theorem Encoded.same {v : Value} (h : External lib e [v]) : Encoded lib v e := ⟨v, h, rfl, fun _ => rfl⟩

theorem Encoded.other {v w : Value} (h : External lib e [w]) (hd : denote lib w = denote lib v) (hm : ¬ Made v) :
    Encoded lib v e := ⟨w, h, hd, fun h => absurd h hm⟩

theorem AllEncoded.tuple (h : AllEncoded lib vs e) {start : List UInt8} (hs : tupleToBinary vs.length = .ok start) :
    ∃ ws, External lib (start ++ e) [.otpErlangTuple ws] ∧ denoteSequence lib ws = denoteSequence lib vs ∧
      (AllMade vs → ws = vs) := by
  obtain ⟨ws, hext, hden, hmade⟩ := h
  have hlen := congrArg List.length hden
  rw [denoteSequence_length, denoteSequence_length] at hlen
  refine ⟨ws, ?_, hden, hmade⟩
  unfold tupleToBinary at hs
  rw [← hlen] at hs
  split at hs
  · rw [← Except.ok.inj hs]
    exact .tupled (.inl ⟨rfl, rfl⟩) (by omega) hext
  · split at hs
    · rw [← Except.ok.inj hs]
      exact .tupled (.inr ⟨rfl, rfl⟩) (by omega) hext
    · simp only [reduceCtorEq] at hs

theorem emptyMap_external {start : List UInt8} (hs : mapToBinary 0 = .ok start) :
    External lib start [.otpErlangMap []] := by
  rw [mapToBinary, if_pos (by decide)] at hs
  rw [← Except.ok.inj hs]
  exact Leaf.emptyMap.external

theorem AllEncoded.list (h : AllEncoded lib vs e) {improper : Bool} {start : List UInt8} (hne : vs ≠ [])
    (hs : listToBinary vs.length improper = .ok start) :
    Encoded lib (.otpErlangList vs improper) (start ++ e ++ if improper then [] else [Tag.nilExt.byte]) := by
  obtain ⟨ws, hext, hden, hmade⟩ := h
  have hlen := congrArg List.length hden
  rw [denoteSequence_length, denoteSequence_length] at hlen
  unfold listToBinary at hs
  rw [← hlen] at hs
  split at hs
  · rename_i hle
    rw [← Except.ok.inj hs]
    cases improper with
    | false =>
      refine ⟨_, External.listed (by omega) hext Leaf.nil.external, ?_, fun hm => ?_⟩
      · rw [listWithTail_nil, denote, denote, denoteList_proper, denoteList_proper, hden]
      · rw [Made] at hm
        rw [listWithTail_nil, hmade hm.1]
    | true =>
      have hws : ws ≠ [] := fun h => hne (List.length_eq_zero_iff.mp (by rw [← hlen, h]; rfl))
      obtain ⟨init, tail, rfl⟩ : ∃ init tail, ws = init ++ [tail] :=
        ⟨_, _, (List.dropLast_append_getLast hws).symm⟩
      obtain ⟨e₁, e₂, rfl, hinit, htail⟩ := hext.split
      rw [List.length_append, List.length_singleton] at hle hlen
      have hlist := External.listed (by omega) hinit htail
      refine ⟨listWithTail init tail, ?_, ?_, fun hm => ?_⟩
      · simpa only [if_true, List.length_append, List.length_singleton, Nat.add_sub_cancel, List.append_nil,
          List.append_assoc] using hlist
      · rw [denote_listWithTail, denote, ← denoteList_improper]
        exact denoteList_congr hden true
      · rw [Made] at hm
        obtain ⟨init', tail', rfl, hne'⟩ := hm.2 rfl
        obtain ⟨rfl, htail'⟩ := List.append_inj' (hmade hm.1) rfl
        rw [(List.cons.inj htail').1, listWithTail_of_ne init hne']
  · simp only [reduceCtorEq] at hs

mutual

/-- The bytes of a value are an external term for a value that denotes the same. -/
theorem terms_external {e : List UInt8} : (v : Value) → Fits lib v → termsToBinary lib v = .ok e → Encoded lib v e
  | .uint8 n, _, he => by
    rw [termsToBinary] at he
    exact Except.ok.inj he ▸ .same (Leaf.smallInteger n).external
  | .uint16 n, _, he => by
    have hlt : n.toNat < 65536 := n.toNat_lt
    rw [termsToBinary] at he
    exact Except.ok.inj he ▸ .other (integerToBinary_external _)
      (congrArg Term.int (int32_toInt_ofInt ⟨by omega, by omega⟩)) (by simp only [Made, not_false_eq_true])
  | .uint32 n, _, he => by
    rw [termsToBinary] at he
    exact .other (bignumToBinary_external he) rfl (by simp only [Made, not_false_eq_true])
  | .uint64 n, _, he => by
    rw [termsToBinary] at he
    exact .other (bignumToBinary_external he) rfl (by simp only [Made, not_false_eq_true])
  | .int8 n, _, he => by
    have hle : n.toInt ≤ 127 := n.toInt_le
    have hge : -128 ≤ n.toInt := n.le_toInt
    rw [termsToBinary] at he
    exact Except.ok.inj he ▸ .other (integerToBinary_external _)
      (congrArg Term.int (int32_toInt_ofInt ⟨by omega, by omega⟩)) (by simp only [Made, not_false_eq_true])
  | .int16 n, _, he => by
    have hle : n.toInt ≤ 32767 := n.toInt_le
    have hge : -32768 ≤ n.toInt := n.le_toInt
    rw [termsToBinary] at he
    exact Except.ok.inj he ▸ .other (integerToBinary_external _)
      (congrArg Term.int (int32_toInt_ofInt ⟨by omega, by omega⟩)) (by simp only [Made, not_false_eq_true])
  | .int32 n, _, he => by
    rw [termsToBinary] at he
    exact Except.ok.inj he ▸ .same (integerToBinary_external n)
  | .int64 n, _, he => by
    rw [termsToBinary] at he
    exact .other (bignumToBinary_external he) rfl (by simp only [Made, not_false_eq_true])
  | .int n, _, he => by
    rw [termsToBinary] at he
    obtain ⟨w, hw, hden⟩ : ∃ w, External lib e [w] ∧ denote lib w = .int n.toInt := intToBinary_external he
    exact .other hw hden (by simp only [Made, not_false_eq_true])
  | .bigInt n, _, he => by
    rw [termsToBinary] at he
    exact .same (bignumToBinary_external he)
  | .float32 bits, _, he => by
    rw [termsToBinary] at he
    exact Except.ok.inj he ▸ .other (Leaf.newFloat (lib.float64 bits)).external rfl
      (by simp only [Made, not_false_eq_true])
  | .float64 bits, _, he => by
    rw [termsToBinary] at he
    exact Except.ok.inj he ▸ .same (Leaf.newFloat bits).external
  | .bool b, _, he => by
    rw [termsToBinary] at he
    exact .other (nameToBinary_external .smallAtom .atom he) rfl (by simp only [Made, not_false_eq_true])
  | .otpErlangAtom s, _, he => by
    rw [termsToBinary] at he
    exact .same (nameToBinary_external .smallAtom .atom he)
  | .otpErlangAtomUTF8 s, _, he => by
    rw [termsToBinary] at he
    exact .same (nameToBinary_external .smallAtomUtf8 .atomUtf8 he)
  | .otpErlangAtomCacheRef n, _, he => by
    rw [termsToBinary] at he
    exact Except.ok.inj he ▸ .same (Leaf.atomCacheRef n).external
  | .bytes value, _, he => by
    rw [termsToBinary] at he
    exact .other (binaryObjectToBinary_external he) rfl (by simp only [Made, not_false_eq_true])
  | .otpErlangBinary value bits, _, he => by
    rw [termsToBinary] at he
    exact .same (binaryObjectToBinary_external he)
  | .otpErlangFunction tag value, h, he => by
    rw [termsToBinary] at he
    rw [Fits] at h
    exact Except.ok.inj he ▸ .same h
  | .otpErlangPid nodeTag node id serial creation, h, he => by
    rw [termsToBinary] at he
    exact Except.ok.inj he ▸ .same (pidToBinary_external h)
  | .otpErlangPort nodeTag node id creation, h, he => by
    rw [termsToBinary] at he
    exact Except.ok.inj he ▸ .same (portToBinary_external h)
  | .otpErlangReference nodeTag node id creation, h, he => by
    rw [termsToBinary] at he
    exact .same (referenceToBinary_external h he)
  | .string s, _, he => by
    rw [termsToBinary] at he
    obtain ⟨w, hw, hden, hmade⟩ : ∃ w, External lib e [w] ∧ denote lib w = .ofBytes s ∧ _ := stringToBinary_external he
    exact ⟨w, hw, hden, fun hm => hmade (by rwa [Made] at hm)⟩
  | .otpErlangTuple vs, h, he => by
    rw [termsToBinary] at he
    rw [Fits] at h
    obtain ⟨start, hs, he⟩ := bind_eq_ok he
    obtain ⟨elements, hes, he⟩ := bind_eq_ok he
    obtain ⟨ws, hw, hden, hmade⟩ := (sequence_external vs h hes).tuple hs
    refine Except.ok.inj he ▸ ⟨_, hw, congrArg Term.tuple hden, fun hm => ?_⟩
    rw [Made] at hm
    rw [hmade hm]
  | .slice vs, h, he => by
    rw [termsToBinary] at he
    rw [Fits] at h
    obtain ⟨start, hs, he⟩ := bind_eq_ok he
    obtain ⟨elements, hes, he⟩ := bind_eq_ok he
    obtain ⟨ws, hw, hden, -⟩ := (sequence_external vs h hes).tuple hs
    exact Except.ok.inj he ▸ .other hw (congrArg Term.tuple hden) (by simp only [Made, not_false_eq_true])
  | .otpErlangMap pairs, h, he => by
    rw [termsToBinary] at he
    rw [Fits] at h
    subst h
    obtain ⟨start, hs, he⟩ := bind_eq_ok he
    have hbytes : start ++ [] = e := Except.ok.inj he
    rw [List.append_nil] at hbytes
    exact hbytes ▸ .same (emptyMap_external hs)
  | .mapInterface pairs, h, he => by
    rw [termsToBinary] at he
    rw [Fits] at h
    subst h
    obtain ⟨start, hs, he⟩ := bind_eq_ok he
    have hbytes : start ++ [] = e := Except.ok.inj he
    rw [List.append_nil] at hbytes
    exact hbytes ▸ .other (emptyMap_external hs) rfl (by simp only [Made, not_false_eq_true])
  | .otpErlangList vs improper, h, he => by
    rw [termsToBinary] at he
    rw [Fits] at h
    split at he
    · rename_i hnil
      rw [List.length_eq_zero_iff.mp hnil]
      refine Except.ok.inj he ▸ ⟨_, Leaf.nil.external, rfl, fun hm => ?_⟩
      rw [Made] at hm
      cases improper with
      | false => rfl
      | true =>
        obtain ⟨init, tail, hlist, -⟩ := hm.2 rfl
        exact absurd hlist.symm (List.append_ne_nil_of_right_ne_nil _ (List.cons_ne_nil _ _))
    · rename_i hne
      obtain ⟨start, hs, he⟩ := bind_eq_ok he
      obtain ⟨elements, hes, he⟩ := bind_eq_ok he
      exact Except.ok.inj he ▸ (sequence_external vs h hes).list (fun h => hne (List.length_eq_zero_iff.mpr h)) hs
  | .other, _, he => by
    rw [termsToBinary] at he
    simp only [reduceCtorEq] at he

theorem sequence_external {e : List UInt8} : (vs : List Value) → AllFit lib vs → sequenceToBinary lib vs = .ok e →
    AllEncoded lib vs e
  | [], _, he => by
    rw [sequenceToBinary] at he
    exact Except.ok.inj he ▸ ⟨[], .nil, rfl, fun _ => rfl⟩
  | v :: vs, h, he => by
    rw [sequenceToBinary] at he
    rw [AllFit] at h
    obtain ⟨e₁, he₁, he⟩ := bind_eq_ok he
    obtain ⟨e₂, he₂, he⟩ := bind_eq_ok he
    obtain ⟨w, hw, hden, hmade⟩ := terms_external v h.1 he₁
    obtain ⟨ws, hws, hdens, hmades⟩ := sequence_external vs h.2 he₂
    refine Except.ok.inj he ▸ ⟨w :: ws, hw.append hws, ?_, fun hm => ?_⟩
    · rw [denoteSequence, denoteSequence, hden, hdens]
    · rw [AllMade] at hm
      rw [hmade hm.1, hmades hm.2]

end

/-! ## Encoding, then decoding -/

theorem termToBinary_external {v : Value} {data : List UInt8} (he : termToBinary lib v (-1) = .ok data) :
    ∃ e, data = tagVersion :: e ∧ termsToBinary lib v = .ok e := by
  rw [termToBinary, if_neg (by decide)] at he
  obtain ⟨e, hterms, he⟩ := bind_eq_ok he
  rw [if_pos rfl] at he
  exact ⟨e, (Except.ok.inj he).symm, hterms⟩

/-- What is encoded is decoded to a value that denotes the same Erlang term, without an error and however deep the
decoder has to call itself. -/
theorem decode_encode {v : Value} (h : Fits lib v) {data : List UInt8} (he : termToBinary lib v (-1) = .ok data) :
    ∃ w, (∀ depth, data.length ≤ depth → binaryToTerm lib depth data = .ok w) ∧ denote lib w = denote lib v := by
  obtain ⟨e, rfl, hterms⟩ := termToBinary_external he
  obtain ⟨w, hw, hden, -⟩ := terms_external v h hterms
  refine ⟨w, fun depth hd => binaryToTerm_external hw ?_, hden⟩
  rw [List.length_cons] at hd
  omega

/-- A library for values that need none. -/
def noLibrary : Library := ⟨fun _ => .error .eof, fun _ => 0, fun _ _ => .error .eof, fun _ _ => .error .eof⟩

/-- A tuple of an improper list, a pid and an exported function. -/
theorem decode_encode_tuple :
    ∃ w, (∀ depth, 41 ≤ depth → binaryToTerm noLibrary depth
        [131, 104, 3, 108, 0, 0, 0, 1, 107, 0, 1, 97, 115, 1, 98, 103, 115, 1, 110, 0, 0, 0, 1, 0, 0, 0, 2, 3,
          113, 115, 1, 109, 115, 1, 102, 97, 0] = .ok w) ∧
      denote noLibrary w = .tuple [.cons (.cons (.int 97) .nil) (.atom [98]),
          .pid 115 [1, 110] [0, 0, 0, 1] [0, 0, 0, 2] 3,
        .function 113 [115, 1, 109, 115, 1, 102, 97, 0]] := by
  have hn : ∀ b : UInt8, Node 115 [1, b] := fun b => @Node.small .smallAtomExt [b] (.inl rfl)
      (show 1 < 256 ^ 1 by decide)
  have hf : External noLibrary (113 :: [115, 1, 109, 115, 1, 102, 97, 0])
      [.otpErlangFunction 113 [115, 1, 109, 115, 1, 102, 97, 0]] := (Leaf.exported 0 (hn 109) (hn 102)).external
  have h : Fits noLibrary (.otpErlangTuple [.otpErlangList [.string [97], .otpErlangAtom [98]] true,
      .otpErlangPid 115 [1, 110] [0, 0, 0, 1] [0, 0, 0, 2] 3,
      .otpErlangFunction 113 [115, 1, 109, 115, 1, 102, 97, 0]]) := by
    simp only [Fits, AllFit, and_true, true_and]
    exact ⟨⟨hn 110, by decide, rfl, rfl⟩, hf⟩
  obtain ⟨w, hw, hden⟩ := decode_encode h rfl
  exact ⟨w, fun depth hd => hw depth (Nat.le_trans (by decide) hd), hden⟩

/-- A map with a pair is not decoded, however deep the decoder may call itself. -/
theorem binaryToPairs_ne_ok {terms : Nat → Reader → Except Fault (Decoded Value)} {i n : Nat} {r : Reader} (h : 0 < n)
    (d : Decoded Value) : binaryToPairs terms i n r ≠ .ok d := by
  obtain ⟨m, rfl⟩ := Nat.exists_eq_add_of_le' h
  intro hok
  obtain ⟨⟨i₁, key, r₁⟩, -, hok⟩ := bind_eq_ok hok
  dsimp only at hok
  split at hok
  · simp only [reduceCtorEq] at hok
  · obtain ⟨_, -, hok⟩ := bind_eq_ok hok
    simp only [reduceCtorEq] at hok

theorem map_not_decoded {pairs : List (Value × Value)} (hp : pairs ≠ []) {data : List UInt8}
    (he : termToBinary lib (.otpErlangMap pairs) (-1) = .ok data) (depth : Nat) (w : Value) :
    binaryToTerm lib depth data ≠ .ok w := by
  obtain ⟨e, rfl, hterms⟩ := termToBinary_external he
  rw [termsToBinary] at hterms
  obtain ⟨start, hs, hterms⟩ := bind_eq_ok hterms
  obtain ⟨rest, -, hterms⟩ := bind_eq_ok hterms
  unfold mapToBinary at hs
  split at hs
  · rename_i hle
    have hdata : e = Tag.mapExt.byte :: (be 4 pairs.length ++ rest) := by
      rw [← Except.ok.inj hterms, ← Except.ok.inj hs]
      rfl
    subst hdata
    have hr := (Reader.rest_start (tagVersion :: Tag.mapExt.byte :: (be 4 pairs.length ++ rest)))
    intro hok
    unfold binaryToTerm at hok
    rw [if_neg (by simp only [List.length_cons]; omega), readByte_ok hr] at hok
    simp only [bind, Except.bind, ne_eq, not_true_eq_false, if_false] at hok
    cases depth with
    | zero => simp only [binaryToTerms, reduceCtorEq] at hok
    | succ depth =>
      have hcount := List.length_pos_iff.mpr hp
      simp only [binaryToTerms, bind, Except.bind, readByte_ok hr.tail, Tag.ofByte_byte, binaryToTermsOf, binaryToMap,
        binaryRead_ok hr.tail.tail (by decide) (show pairs.length < 256 ^ 4 by omega)] at hok
      split at hok
      · simp only [reduceCtorEq] at hok
      · rename_i result hpairs
        exact binaryToPairs_ne_ok hcount _ hpairs
  · simp only [reduceCtorEq] at hs

/-- The map from 1 to 2 is encoded, and its bytes are not decoded. -/
theorem map_lost :
    ∃ v data, termToBinary noLibrary v (-1) = .ok data ∧ ∀ depth w, binaryToTerm noLibrary depth data ≠ .ok w := by
  have he : termToBinary noLibrary (.otpErlangMap [(.uint8 1, .uint8 2)]) (-1) =
      .ok [131, 116, 0, 0, 0, 1, 97, 1, 97, 2] := rfl
  exact ⟨_, _, he, map_not_decoded (List.cons_ne_nil _ _) he⟩

end CloudI.Api.Go
