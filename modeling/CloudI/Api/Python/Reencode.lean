import CloudI.Api.Python.RoundTrip

/-!
# What the Python codec decodes is encoded again

The decoder only makes values whose lengths the format has room for (`Made`,
`binaryToTermAt_made`). Such a value is encoded and restored as it is, if its
parts fit and are kept (`made_encodes`, `made_restored`).
`term_codec_restores` is both directions of the codec, for both versions of
Python.
-/

namespace CloudI.Api.Python.Erlang

open Slices

/-- An atom that the decoder can make. -/
def AtomValue.Sized : AtomValue → Prop
  | .bytes name | .unicode name => name.length < 256 ^ 2
  | .int n => 0 ≤ n ∧ n ≤ 255

/-- A value that the decoder can make. -/
inductive Made : Value → Prop
  | bytes {s : List UInt8} (h : s.length < 256 ^ 2) : Made (.bytes s)
  | list {vs : List Value} (hl : vs.length < 256 ^ 4) (h : ∀ v ∈ vs, Made v) : Made (.list vs)
  | tuple {vs : List Value} (hl : vs.length < 256 ^ 4) (h : ∀ v ∈ vs, Made v) : Made (.tuple vs)
  | int {n : Int} (h : (minimal n.natAbs).length < 256 ^ 4) : Made (.int n)
  | float (bits : BitVec 64) : Made (.float bits)
  | dict {items : List (Value × Value)} (hl : items.length < 256 ^ 4) (hk : ∀ p ∈ items, Made p.1)
      (hv : ∀ p ∈ items, Made p.2) : Made (.dict (keyed items))
  | bool (b : Bool) : Made (.bool b)
  | otpErlangAtom {value : AtomValue} (h : value.Sized) : Made (.otpErlangAtom value)
  | otpErlangList {init : List Value} {tail : Value} (h : ∀ v ∈ init, Made v) (ht : Made tail)
      (hne : tail ≠ .list []) : Made (.otpErlangList (init ++ [tail]) true)
  | otpErlangBinary {value : List UInt8} (bits : UInt8) (h : value.length < 256 ^ 4) :
      Made (.otpErlangBinary value bits.toNat)
  | otpErlangFunction (tag : UInt8) (value : List UInt8) : Made (.otpErlangFunction tag value)
  | otpErlangReference {node : AtomValue} {id : List UInt8} (creation : List UInt8) (hn : node.Sized)
      (hid : id.length ≤ 4 * 65535) : Made (.otpErlangReference node id creation)
  | otpErlangPort {node : AtomValue} (id creation : List UInt8) (hn : node.Sized) :
      Made (.otpErlangPort node id creation)
  | otpErlangPid {node : AtomValue} (id serial creation : List UInt8) (hn : node.Sized) :
      Made (.otpErlangPid node id serial creation)

/-! ## What the decoder reads -/

section Read

variable {data : List UInt8} {i i' j k n : Nat} {v : Value}

theorem slice_length_le (i n : Nat) (data : List UInt8) : (slice i n data).length ≤ n := List.length_take_le _ _

theorem unpack_lt (h : unpack k i data = .ok n) : n < 256 ^ k := by
  unfold unpack at h
  split at h
  · cases h
  · rw [← Except.ok.inj h]
    exact (ofBe_lt _).trans_le (Nat.pow_le_pow_right (by decide) (slice_length_le _ _ _))

variable {py3 : Bool} {lib : Library} {a : AtomValue}

theorem smallLength_lt (h : smallLength py3 i data = .ok n) : n < 256 ^ 1 := by
  unfold smallLength at h
  split at h
  · cases h
  · split at h
    · rw [← Except.ok.inj h]
      exact UInt8.toNat_lt _
    · cases h

theorem cacheRef_sized (h : cacheRef py3 i data = .ok a) : a.Sized := by
  unfold cacheRef at h
  split at h
  · rw [← Except.ok.inj h]
    exact (slice_length_le _ _ _).trans_lt (by decide)
  · split at h
    · rename_i b _
      have hlt := b.toNat_lt
      rw [← Except.ok.inj h]
      constructor <;> omega
    · cases h

theorem binaryToUnicode_sized (hj : j < 256 ^ 2) (h : binaryToUnicode lib i j data = .ok (i', a)) : a.Sized := by
  unfold binaryToUnicode at h
  split at h
  · cases h
    exact (slice_length_le _ _ _).trans_lt hj
  · cases h

theorem length_lt (h : n < 256 ^ 1) : n < 256 ^ 2 := h.trans_le (Nat.pow_le_pow_right (by decide) (by decide))

theorem binaryToAtom_sized (h : binaryToAtom py3 lib i data = .ok (i', a)) : a.Sized := by
  obtain ⟨tag, -, h⟩ := bind_eq_ok h
  simp only at h
  split at h
  · obtain ⟨j, hj, h⟩ := bind_eq_ok h
    cases h
    exact (slice_length_le _ _ _).trans_lt (unpack_lt hj)
  · obtain ⟨value, hvalue, h⟩ := bind_eq_ok h
    cases h
    exact cacheRef_sized hvalue
  · obtain ⟨j, hj, h⟩ := bind_eq_ok h
    cases h
    exact (slice_length_le _ _ _).trans_lt (length_lt (smallLength_lt hj))
  · obtain ⟨j, hj, h⟩ := bind_eq_ok h
    exact binaryToUnicode_sized (unpack_lt hj) h
  · obtain ⟨j, hj, h⟩ := bind_eq_ok h
    exact binaryToUnicode_sized (length_lt (smallLength_lt hj)) h
  · cases h

theorem bignumLoop_lt {b m : Nat} (h : bignumLoop data i n b = .ok m) : m < (b + 1) * 256 ^ n := by
  induction n generalizing b with
  | zero =>
    rw [bignumLoop] at h
    rw [← Except.ok.inj h, Nat.pow_zero]
    omega
  | succ n ih =>
    obtain ⟨digit, -, h⟩ := bind_eq_ok h
    have hdigit := digit.toNat_lt
    have hle : b * 256 + digit.toNat + 1 ≤ (b + 1) * 256 := by omega
    calc m < (b * 256 + digit.toNat + 1) * 256 ^ n := ih h
      _ ≤ (b + 1) * 256 * 256 ^ n := Nat.mul_le_mul_right _ hle
      _ = (b + 1) * 256 ^ (n + 1) := by rw [Nat.pow_succ, Nat.mul_assoc, Nat.mul_comm 256]

theorem binaryToBignum_made (hj : j < 256 ^ 4) (h : binaryToBignum i j data = .ok (i', v)) : Made v := by
  obtain ⟨sign, -, h⟩ := bind_eq_ok h
  obtain ⟨m, hm, h⟩ := bind_eq_ok h
  have hlt := bignumLoop_lt hm
  rw [Nat.zero_add, Nat.one_mul] at hlt
  have hlen := (minimal_length_le hlt).trans_lt hj
  cases h
  refine .int ?_
  split
  · rw [Int.natAbs_neg]
    exact hlen
  · exact hlen

/-- A number of 32 bits is small. -/
theorem made_of_natAbs {n : Int} (h : n.natAbs < 256 ^ 4) : Made (.int n) :=
  .int ((minimal_length_le h).trans_lt (by decide))

theorem binaryToInt32_made (h : binaryToInt32 i data = .ok (i', v)) : Made v := by
  obtain ⟨value, -, h⟩ := bind_eq_ok h
  cases h
  refine made_of_natAbs ?_
  have hlt := (BitVec.ofNat 32 value).isLt
  rw [BitVec.toInt_eq_toNat_cond]
  split <;> omega

theorem binaryToSmallInteger_made (h : binaryToSmallInteger i data = .ok (i', v)) : Made v := by
  obtain ⟨n, -, h⟩ := bind_eq_ok h
  have hlt := n.toNat_lt
  cases h
  exact made_of_natAbs (by omega)

theorem binaryToNodeId_made {make : AtomValue → List UInt8 → List UInt8 → Value}
    (hm : ∀ node id creation, node.Sized → id.length ≤ 4 → Made (make node id creation))
    (h : binaryToNodeId py3 lib make i data = .ok (i', v)) : Made v := by
  obtain ⟨⟨j, node⟩, hnode, h⟩ := bind_eq_ok h
  cases h
  exact hm _ _ _ (binaryToAtom_sized hnode) (slice_length_le _ _ _)

theorem binaryToPidFields_made (h : binaryToPidFields py3 lib i data = .ok (i', v)) : Made v := by
  obtain ⟨⟨j, node⟩, hnode, h⟩ := bind_eq_ok h
  cases h
  exact .otpErlangPid _ _ _ (binaryToAtom_sized hnode)

theorem binaryToExport_made (h : binaryToExport py3 lib i data = .ok (i', v)) : Made v := by
  obtain ⟨_, -, h⟩ := bind_eq_ok h
  obtain ⟨_, -, h⟩ := bind_eq_ok h
  obtain ⟨_, -, h⟩ := bind_eq_ok h
  simp only at h
  split at h
  · cases h
  · obtain ⟨_, -, h⟩ := bind_eq_ok h
    cases h
    exact .otpErlangFunction _ _

theorem binaryToNewReference_made (h : binaryToNewReference py3 lib i data = .ok (i', v)) : Made v := by
  obtain ⟨j, hj, h⟩ := bind_eq_ok h
  obtain ⟨⟨j', node⟩, hnode, h⟩ := bind_eq_ok h
  have hlt := unpack_lt hj
  cases h
  exact .otpErlangReference _ (binaryToAtom_sized hnode) ((slice_length_le _ _ _).trans (by omega))

theorem made_smallAtom {name : List UInt8} (h : name.length < 256 ^ 1) : Made (smallAtom name) := by
  unfold smallAtom
  split
  · exact .bool true
  · split
    · exact .bool false
    · exact .otpErlangAtom (length_lt h)

end Read

/-! ## What the decoder makes -/

section Terms

variable {py3 : Bool} {lib : Library} {terms : Nat → List UInt8 → Except Fault (Decoded Value)} {data : List UInt8}
  {i i' k n : Nat} {v : Value} {vs : List Value}

/-- The calls of the decoder to itself make values that it can make. -/
def AllMade (terms : Nat → List UInt8 → Except Fault (Decoded Value)) : Prop :=
  ∀ i data i' v, terms i data = .ok (i', v) → Made v

theorem binaryToTermSequence_made (ht : AllMade terms) (h : binaryToTermSequence terms i n data = .ok (i', vs)) :
    vs.length = n ∧ ∀ v ∈ vs, Made v := by
  induction n generalizing i vs with
  | zero =>
    cases h
    exact ⟨rfl, fun v hv => absurd hv List.not_mem_nil⟩
  | succ n ih =>
    obtain ⟨⟨i₁, element⟩, he, h⟩ := bind_eq_ok h
    obtain ⟨⟨i₂, sequence⟩, hs, h⟩ := bind_eq_ok h
    cases h
    obtain ⟨hlen, hall⟩ := ih hs
    refine ⟨congrArg (· + 1) hlen, fun v hv => ?_⟩
    rcases List.mem_cons.mp hv with rfl | hv
    · exact ht _ _ _ _ he
    · exact hall v hv

theorem binaryToTuple_made (ht : AllMade terms) (hn : n < 256 ^ 4) (h : binaryToTuple terms i n data = .ok (i', v)) :
    Made v := by
  obtain ⟨⟨i₂, tmp⟩, hs, h⟩ := bind_eq_ok h
  obtain ⟨htmp, hall⟩ := binaryToTermSequence_made ht hs
  cases h
  exact .tuple (htmp ▸ hn) hall

theorem made_listWithTail {tmp : List Value} {tail : Value} (hl : tmp.length < 256 ^ 4) (h : ∀ v ∈ tmp, Made v)
    (ht : Made tail) : Made (listWithTail tmp tail) := by
  unfold listWithTail
  split
  · exact .list hl h
  · rename_i hne
    exact .otpErlangList h ht hne

theorem binaryToList_made (ht : AllMade terms) (h : binaryToList terms i data = .ok (i', v)) : Made v := by
  obtain ⟨length, hlen, h⟩ := bind_eq_ok h
  obtain ⟨⟨i₂, tmp⟩, hs, h⟩ := bind_eq_ok h
  obtain ⟨⟨i₃, tail⟩, htail, h⟩ := bind_eq_ok h
  obtain ⟨htmp, hall⟩ := binaryToTermSequence_made ht hs
  cases h
  exact made_listWithTail (htmp ▸ unpack_lt hlen) hall (ht _ _ _ _ htail)

/-- What is kept of the items of a `dict` and of the new one. -/
theorem storeHashed_keyed {P : Value → Prop} {key value : Value} {items pairs : List (Value × Value)}
    (hi : ∀ p ∈ items, P p.1 ∧ P p.2) (hk : P key) (hv : P value)
    (h : storeHashed py3 lib (keyOf key) value (keyed items) = .ok pairs) :
    ∃ items', pairs = keyed items' ∧ items'.length ≤ items.length + 1 ∧ ∀ p ∈ items', P p.1 ∧ P p.2 := by
  induction items generalizing pairs with
  | nil =>
    rw [← Except.ok.inj h]
    refine ⟨[(key, value)], rfl, Nat.le_refl _, fun p hp => ?_⟩
    rw [List.mem_singleton.mp hp]
    exact ⟨hk, hv⟩
  | cons q items ih =>
    have hq := hi q List.mem_cons_self
    have hrest := fun p hp => hi p (List.mem_cons_of_mem q hp)
    rw [keyed, List.map_cons, ← keyed] at h
    obtain ⟨same, -, h⟩ := bind_eq_ok h
    split at h
    · rw [← Except.ok.inj h]
      refine ⟨(q.1, value) :: items, rfl, Nat.le_succ _, fun p hp => ?_⟩
      rcases List.mem_cons.mp hp with rfl | hp
      · exact ⟨hq.1, hv⟩
      · exact hrest p hp
    · obtain ⟨pairs', hstore, h⟩ := bind_eq_ok h
      obtain ⟨items', rfl, hlen, hall⟩ := ih hrest hstore
      rw [← Except.ok.inj h]
      refine ⟨q :: items', rfl, Nat.succ_le_succ hlen, fun p hp => ?_⟩
      rcases List.mem_cons.mp hp with rfl | hp
      · exact hq
      · exact hall p hp

theorem binaryToPairs_made (ht : AllMade terms) {items pairs : List (Value × Value)}
    (hi : ∀ p ∈ items, Made p.1 ∧ Made p.2) (h : binaryToPairs py3 lib terms i n (keyed items) data = .ok (i', pairs)) :
    ∃ items', pairs = keyed items' ∧ items'.length ≤ items.length + n ∧ ∀ p ∈ items', Made p.1 ∧ Made p.2 := by
  induction n generalizing i items with
  | zero =>
    cases h
    exact ⟨items, rfl, Nat.le_refl _, hi⟩
  | succ n ih =>
    obtain ⟨⟨i₁, key⟩, hkey, h⟩ := bind_eq_ok h
    obtain ⟨⟨i₂, value⟩, hvalue, h⟩ := bind_eq_ok h
    obtain ⟨stored, hstore, h⟩ := bind_eq_ok h
    obtain ⟨_, -, hstore⟩ := bind_eq_ok hstore
    obtain ⟨items₁, rfl, hlen, hall⟩ := storeHashed_keyed hi (ht _ _ _ _ hkey) (ht _ _ _ _ hvalue) hstore
    obtain ⟨items', hpairs, hlen', hall'⟩ := ih hall h
    exact ⟨items', hpairs, by omega, hall'⟩

theorem binaryToMap_made (ht : AllMade terms) (h : binaryToMap py3 lib terms i data = .ok (i', v)) : Made v := by
  obtain ⟨length, hlen, h⟩ := bind_eq_ok h
  obtain ⟨⟨i₁, pairs⟩, hpairs, h⟩ := bind_eq_ok h
  have hnil : ∀ p ∈ ([] : List (Value × Value)), Made p.1 ∧ Made p.2 := fun p hp => absurd hp List.not_mem_nil
  obtain ⟨items, rfl, hle, hall⟩ := binaryToPairs_made ht hnil hpairs
  rw [List.length_nil, Nat.zero_add] at hle
  cases h
  exact .dict (hle.trans_lt (unpack_lt hlen)) (fun p hp => (hall p hp).1) fun p hp => (hall p hp).2

theorem binaryToFun_made (h : binaryToFun py3 lib terms i data = .ok (i', v)) : Made v := by
  obtain ⟨_, -, h⟩ := bind_eq_ok h
  obtain ⟨_, -, h⟩ := bind_eq_ok h
  obtain ⟨_, -, h⟩ := bind_eq_ok h
  obtain ⟨_, -, h⟩ := bind_eq_ok h
  obtain ⟨_, -, h⟩ := bind_eq_ok h
  obtain ⟨_, -, h⟩ := bind_eq_ok h
  cases h
  exact .otpErlangFunction _ _

theorem binaryToCompressed_made (ht : AllMade terms) (h : binaryToCompressed lib terms i data = .ok (i', v)) :
    Made v := by
  obtain ⟨size, -, h⟩ := bind_eq_ok h
  simp only at h
  split at h
  · cases h
  · split at h
    · cases h
    · split at h
      · cases h
      · obtain ⟨⟨iNew, term⟩, hterm, h⟩ := bind_eq_ok h
        simp only at h
        split at h
        · cases h
        · cases h
          exact ht _ _ _ _ hterm

theorem binaryToTermOf_made (ht : AllMade terms) {tag : Tag}
    (h : binaryToTermOf py3 lib terms tag i data = .ok (i', v)) : Made v := by
  cases tag with
  | newFloatExt =>
    obtain ⟨value, -, h⟩ := bind_eq_ok h
    cases h
    exact .float _
  | bitBinaryExt =>
    obtain ⟨j, hj, h⟩ := bind_eq_ok h
    obtain ⟨bits, -, h⟩ := bind_eq_ok h
    cases h
    exact .otpErlangBinary bits ((slice_length_le _ _ _).trans_lt (unpack_lt hj))
  | atomCacheRef =>
    obtain ⟨value, hvalue, h⟩ := bind_eq_ok h
    cases h
    exact .otpErlangAtom (cacheRef_sized hvalue)
  | smallIntegerExt => exact binaryToSmallInteger_made h
  | integerExt => exact binaryToInt32_made h
  | floatExt =>
    rw [binaryToTermOf] at h
    split at h
    · cases h
      exact .float _
    · cases h
  | atomExt =>
    obtain ⟨j, hj, h⟩ := bind_eq_ok h
    cases h
    exact .otpErlangAtom ((slice_length_le _ _ _).trans_lt (unpack_lt hj))
  | referenceExt =>
    exact binaryToNodeId_made (fun node id creation hn hid =>
      .otpErlangReference creation hn (hid.trans (by decide))) h
  | portExt => exact binaryToNodeId_made (fun node id creation hn _ => .otpErlangPort id creation hn) h
  | pidExt => exact binaryToPidFields_made h
  | smallTupleExt =>
    obtain ⟨length, -, h⟩ := bind_eq_ok h
    exact binaryToTuple_made ht (length.toNat_lt.trans (by decide)) h
  | largeTupleExt =>
    obtain ⟨length, hlen, h⟩ := bind_eq_ok h
    exact binaryToTuple_made ht (unpack_lt hlen) h
  | nilExt =>
    cases h
    exact .list (by decide) fun v hv => absurd hv List.not_mem_nil
  | stringExt =>
    obtain ⟨j, hj, h⟩ := bind_eq_ok h
    cases h
    exact .bytes ((slice_length_le _ _ _).trans_lt (unpack_lt hj))
  | listExt => exact binaryToList_made ht h
  | binaryExt =>
    obtain ⟨j, hj, h⟩ := bind_eq_ok h
    cases h
    exact .otpErlangBinary 8 ((slice_length_le _ _ _).trans_lt (unpack_lt hj))
  | smallBigExt =>
    obtain ⟨j, -, h⟩ := bind_eq_ok h
    exact binaryToBignum_made (j.toNat_lt.trans (by decide)) h
  | largeBigExt =>
    obtain ⟨j, hj, h⟩ := bind_eq_ok h
    exact binaryToBignum_made (unpack_lt hj) h
  | newFunExt =>
    obtain ⟨length, -, h⟩ := bind_eq_ok h
    cases h
    exact .otpErlangFunction _ _
  | exportExt => exact binaryToExport_made h
  | newReferenceExt => exact binaryToNewReference_made h
  | smallAtomExt =>
    obtain ⟨j, -, h⟩ := bind_eq_ok h
    cases h
    exact made_smallAtom ((slice_length_le _ _ _).trans_lt j.toNat_lt)
  | mapExt => exact binaryToMap_made ht h
  | funExt => exact binaryToFun_made h
  | atomUtf8Ext =>
    obtain ⟨j, hj, h⟩ := bind_eq_ok h
    obtain ⟨⟨i₁, value⟩, hvalue, h⟩ := bind_eq_ok h
    cases h
    exact .otpErlangAtom (binaryToUnicode_sized (unpack_lt hj) hvalue)
  | smallAtomUtf8Ext =>
    obtain ⟨j, hj, h⟩ := bind_eq_ok h
    obtain ⟨⟨i₁, value⟩, hvalue, h⟩ := bind_eq_ok h
    cases h
    exact .otpErlangAtom (binaryToUnicode_sized (length_lt (smallLength_lt hj)) hvalue)
  | compressedZlib => exact binaryToCompressed_made ht h

theorem binaryToTermAt_made (depth : Nat) : AllMade (binaryToTermAt py3 lib depth) := by
  induction depth with
  | zero =>
    intro i data i' v h
    cases h
  | succ depth ih =>
    intro i data i' v h
    obtain ⟨tag, -, h⟩ := bind_eq_ok h
    simp only at h
    split at h
    · exact binaryToTermOf_made ih h
    · cases h

theorem binaryToTerm_made {depth : Nat} (h : binaryToTerm py3 lib depth data = .ok v) : Made v := by
  unfold binaryToTerm at h
  split at h
  · cases h
  · split at h
    · cases h
    · split at h
      · rename_i i term hterm
        split at h
        · cases h
        · rw [← Except.ok.inj h]
          exact binaryToTermAt_made depth _ _ _ _ hterm
      all_goals cases h

end Terms

/-! ## Encoding again -/

mutual

/-- A value that is encoded and comes back in the same types: no string is
empty, the atoms true and false are of type `bool`, no improper list is too
long, and there is no `frozendict` and, in Python 3, no reference with an id. -/
def Kept (py3 : Bool) : Value → Prop
  | .bytes s => s ≠ []
  | .list vs | .tuple vs => KeptSequence py3 vs
  | .dict pairs => KeptPairs py3 pairs
  | .otpErlangAtom (.bytes name) => name ≠ boolName true ∧ name ≠ boolName false
  | .otpErlangList vs _ => vs.length < 256 ^ 4 ∧ KeptSequence py3 vs
  | .otpErlangReference _ id _ => py3 = true → id = []
  | .frozendict _ | .other => False
  | _ => True

def KeptSequence (py3 : Bool) : List Value → Prop
  | [] => True
  | element :: sequence => Kept py3 element ∧ KeptSequence py3 sequence

def KeptPairs (py3 : Bool) : List (Value × Value) → Prop
  | [] => True
  | (key, value) :: pairs => Kept py3 key ∧ Kept py3 value ∧ KeptPairs py3 pairs

end

attribute [grind =] Kept KeptSequence KeptPairs

section Encodes

variable {py3 : Bool} {lib : Library} {vs : List Value}

theorem keptSequence_mem (h : KeptSequence py3 vs) : ∀ v ∈ vs, Kept py3 v := by
  induction vs with
  | nil => exact fun v hv => absurd hv List.not_mem_nil
  | cons u vs ih =>
    obtain ⟨hu, hvs⟩ := h
    intro v hv
    rcases List.mem_cons.mp hv with rfl | hv
    · exact hu
    · exact ih hvs v hv

theorem keptPairs_mem {pairs : List (Value × Value)} (h : KeptPairs py3 pairs) :
    ∀ p ∈ pairs, Kept py3 p.1 ∧ Kept py3 p.2 := by
  induction pairs with
  | nil => exact fun p hp => absurd hp List.not_mem_nil
  | cons q pairs ih =>
    obtain ⟨hk, hv, hpairs⟩ := h
    intro p hp
    rcases List.mem_cons.mp hp with rfl | hp
    · exact ⟨hk, hv⟩
    · exact ih hpairs p hp

theorem name_encodes {small large : Tag} {name : List UInt8} (h : name.length < 256 ^ 2) :
    ∃ e, AtomValue.encode small large name = .ok e := by
  unfold AtomValue.encode
  split
  · exact ⟨_, rfl⟩
  · rw [if_pos (by omega)]
    exact ⟨_, rfl⟩

theorem binary_encodes {a : AtomValue} (h : a.Sized) : ∃ e, a.binary = .ok e := by
  cases a with
  | bytes name => exact name_encodes h
  | unicode name => exact name_encodes h
  | int n =>
    have hc : bChr n = .ok (.ofNat n.toNat) := if_pos h
    rw [AtomValue.binary, bind_ok hc]
    exact ⟨_, rfl⟩

theorem int_encodes {n : Int} (h : (minimal n.natAbs).length < 256 ^ 4) : Encodes py3 (.int n) := by
  rw [Encodes, termToBinaryOf, longToBinary]
  split
  · exact ⟨_, rfl⟩
  · simp only [bignumToBinary]
    split
    · exact ⟨_, rfl⟩
    · rw [if_pos (by omega)]
      exact ⟨_, rfl⟩

theorem string_encodes {s : List UInt8} (h : s.length < 256 ^ 2) : Encodes py3 (.bytes s) := by
  rw [Encodes, termToBinaryOf, stringToBinary]
  split
  · exact ⟨_, rfl⟩
  · rw [if_pos (by omega)]
    exact ⟨_, rfl⟩

theorem sequence_encodes (h : ∀ v ∈ vs, Encodes py3 v) : ∃ e, sequenceToBinary py3 vs = .ok e := by
  induction vs with
  | nil => exact ⟨[], by rw [sequenceToBinary]⟩
  | cons v vs ih =>
    obtain ⟨e, he⟩ := h v List.mem_cons_self
    obtain ⟨es, hes⟩ := ih fun u hu => h u (List.mem_cons_of_mem v hu)
    rw [sequenceToBinary, bind_ok he, bind_ok hes]
    exact ⟨_, rfl⟩

theorem pairs_encode {pairs : List (Value × Value)} (hk : ∀ p ∈ pairs, Encodes py3 p.1)
    (hv : ∀ p ∈ pairs, Encodes py3 p.2) : ∃ e, pairsToBinary py3 pairs = .ok e := by
  induction pairs with
  | nil => exact ⟨[], by rw [pairsToBinary]⟩
  | cons p pairs ih =>
    obtain ⟨k, hke⟩ := hk p List.mem_cons_self
    obtain ⟨v, hve⟩ := hv p List.mem_cons_self
    obtain ⟨es, hes⟩ := ih (fun q hq => hk q (List.mem_cons_of_mem p hq)) fun q hq => hv q (List.mem_cons_of_mem p hq)
    rw [pairsToBinary, bind_ok hke, bind_ok hve, bind_ok hes]
    exact ⟨_, rfl⟩

theorem tuple_encodes (hl : vs.length < 256 ^ 4) (h : ∀ v ∈ vs, Encodes py3 v) :
    Encodes py3 (.tuple vs) := by
  obtain ⟨es, hes⟩ := sequence_encodes h
  rw [Encodes, termToBinaryOf, tupleToBinary]
  split
  · rw [bind_ok rfl, bind_ok hes]
    exact ⟨_, rfl⟩
  · rw [if_pos (by omega), bind_ok rfl, bind_ok hes]
    exact ⟨_, rfl⟩

theorem list_encodes (improper : Bool) (hl : vs.length < 256 ^ 4) (h : ∀ v ∈ vs, Encodes py3 v) :
    Encodes py3 (.otpErlangList vs improper) := by
  obtain ⟨es, hes⟩ := sequence_encodes h
  rw [Encodes, termToBinaryOf]
  split
  · exact ⟨_, rfl⟩
  · rw [if_neg (by omega), bind_ok hes]
    exact ⟨_, rfl⟩

theorem binaryValue_encodes {value : List UInt8} (bits : UInt8) (h : value.length < 256 ^ 4) :
    Encodes py3 (.otpErlangBinary value bits.toNat) := by
  have hlt := bits.toNat_lt
  have hc : bChr bits.toNat = .ok (.ofNat (bits.toNat : Int).toNat) := if_pos (by omega)
  rw [Encodes, termToBinaryOf, binaryBinary, if_neg (by omega)]
  split
  · rw [bind_ok hc]
    exact ⟨_, rfl⟩
  · exact ⟨_, rfl⟩

theorem reference_encodes {node : AtomValue} {id creation : List UInt8} (hn : node.Sized)
    (hid : id.length ≤ 4 * 65535) (hk : py3 = true → id = []) : Encodes py3 (.otpErlangReference node id creation) := by
  obtain ⟨e, he⟩ := binary_encodes hn
  rw [Encodes, termToBinaryOf]
  cases py3 with
  | true =>
    obtain rfl := hk rfl
    rw [referenceBinary, if_pos rfl, bind_ok he]
    exact ⟨_, rfl⟩
  | false =>
    simp only [referenceBinary, Bool.false_eq_true, if_false]
    split
    · rw [bind_ok he]
      exact ⟨_, rfl⟩
    · rw [if_pos (by omega), bind_ok he]
      exact ⟨_, rfl⟩

/-- A key is encoded and restored as the value that it was made of. -/
theorem keyOf_eq {v : Value} (hd : ∀ pairs, v ≠ .dict pairs) :
    termToBinaryOf py3 (keyOf v) = termToBinaryOf py3 v ∧ restored (keyOf v) = restored v := by
  cases v with
  | dict pairs => exact absurd rfl (hd pairs)
  | list vs =>
    refine ⟨(termToBinaryOf_list vs).symm, ?_⟩
    rw [keyOf, restored, restored, restoredList_proper]
  | _ => exact ⟨rfl, rfl⟩

theorem kept_of_keyOf {v : Value} (h : Kept py3 (keyOf v)) : Kept py3 v ∧ ∀ pairs, v ≠ .dict pairs := by
  cases v with
  | dict pairs => exact h.elim
  | list vs => exact ⟨h.2, fun _ => Value.noConfusion⟩
  | _ => exact ⟨h, fun _ => Value.noConfusion⟩

/-- What the decoder makes is encoded, if it is kept. -/
theorem made_encodes {v : Value} (hm : Made v) (hk : Kept py3 v) : Encodes py3 v := by
  induction hm with
  | bytes h => exact string_encodes h
  | list hl _ ih =>
    rw [Encodes, termToBinaryOf_list]
    exact list_encodes false hl fun v hv => ih v hv (keptSequence_mem hk v hv)
  | tuple hl _ ih => exact tuple_encodes hl fun v hv => ih v hv (keptSequence_mem hk v hv)
  | int h => exact int_encodes h
  | float bits => exact ⟨_, by rw [termToBinaryOf]⟩
  | @dict items hl _ _ ihk ihv =>
    have hkept := keptPairs_mem hk
    have hkeys : ∀ p ∈ keyed items, Encodes py3 p.1 := by
      intro p hp
      obtain ⟨q, hq, rfl⟩ := List.mem_map.mp hp
      obtain ⟨hkq, hd⟩ := kept_of_keyOf (hkept _ hp).1
      rw [Encodes, (keyOf_eq hd).1]
      exact ihk q hq hkq
    have hvalues : ∀ p ∈ keyed items, Encodes py3 p.2 := by
      intro p hp
      obtain ⟨q, hq, rfl⟩ := List.mem_map.mp hp
      exact ihv q hq (hkept _ hp).2
    obtain ⟨es, hes⟩ := pairs_encode hkeys hvalues
    have hlen : (keyed items).length ≤ 4294967295 := by
      rw [keyed, List.length_map]
      omega
    rw [Encodes, termToBinaryOf, if_pos hlen, bind_ok hes]
    exact ⟨_, rfl⟩
  | bool b =>
    rw [Encodes, termToBinaryOf]
    exact name_encodes (show (boolName b).length < 256 ^ 2 by cases b <;> decide)
  | otpErlangAtom h =>
    rw [Encodes, termToBinaryOf]
    exact binary_encodes h
  | otpErlangList _ _ _ ih iht =>
    refine list_encodes true hk.1 fun v hv => ?_
    have hkv := keptSequence_mem hk.2 v hv
    rcases List.mem_append.mp hv with hinit | htail
    · exact ih v hinit hkv
    · obtain rfl := List.mem_singleton.mp htail
      exact iht hkv
  | otpErlangBinary bits h => exact binaryValue_encodes bits h
  | otpErlangFunction tag value => exact ⟨_, by rw [termToBinaryOf]⟩
  | otpErlangReference creation hn hid => exact reference_encodes hn hid hk
  | otpErlangPort id creation hn =>
    obtain ⟨e, he⟩ := binary_encodes hn
    rw [Encodes, termToBinaryOf, portBinary, bind_ok he]
    exact ⟨_, rfl⟩
  | otpErlangPid id serial creation hn =>
    obtain ⟨e, he⟩ := binary_encodes hn
    rw [Encodes, termToBinaryOf, pidBinary, bind_ok he]
    exact ⟨_, rfl⟩

theorem map_restored_self (h : ∀ v ∈ vs, restored v = v) : vs.map restored = vs :=
  (List.map_congr_left h).trans (List.map_id vs)

/-- What the decoder makes is restored as it is, if it is kept. -/
theorem made_restored {v : Value} (hm : Made v) (hk : Kept py3 v) : restored v = v := by
  induction hm with
  | bytes h =>
    rw [restored, restoredString, if_neg fun hnil => hk (List.length_eq_zero_iff.mp hnil), if_pos (by omega)]
  | list _ _ ih =>
    rw [restored, restoredSequence_eq, map_restored_self fun v hv => ih v hv (keptSequence_mem hk v hv)]
  | tuple _ _ ih =>
    rw [restored, restoredSequence_eq, map_restored_self fun v hv => ih v hv (keptSequence_mem hk v hv)]
  | @dict items _ _ _ ihk ihv =>
    have hkept := keptPairs_mem hk
    have hpair : ∀ p ∈ keyed items, (keyOf (restored p.1), restored p.2) = p := by
      intro p hp
      obtain ⟨q, hq, rfl⟩ := List.mem_map.mp hp
      obtain ⟨hkq, hd⟩ := kept_of_keyOf (hkept _ hp).1
      rw [(@keyOf_eq py3 _ hd).2, ihk q hq hkq, ihv q hq (hkept _ hp).2]
    rw [restored, restoredPairs_eq, List.map_congr_left hpair, List.map_id']
  | @otpErlangAtom value h =>
    cases value with
    | bytes name => rw [restored, smallAtom, if_neg hk.1, if_neg hk.2]
    | unicode name => rfl
    | int n => rfl
  | @otpErlangList init tail _ _ hne ih iht =>
    have hsame : ∀ v ∈ init, restored v = v := fun v hv =>
      ih v hv (keptSequence_mem hk.2 v (List.mem_append_left [tail] hv))
    have htail := iht (keptSequence_mem hk.2 tail (List.mem_append_right init (List.mem_singleton_self tail)))
    rw [restored, restoredSequence_eq, List.map_append, List.map_singleton, restoredList_improper,
      map_restored_self hsame, htail, listWithTail]
    exact hne
  | _ => rfl

/-! ## What is not kept -/

theorem keptSequence_of (h : ∀ v ∈ vs, Kept py3 v) : KeptSequence py3 vs := by
  induction vs with
  | nil => trivial
  | cons v vs ih => exact ⟨h v List.mem_cons_self, ih fun u hu => h u (List.mem_cons_of_mem v hu)⟩

theorem keptPairs_of {pairs : List (Value × Value)} (h : ∀ p ∈ pairs, Kept py3 p.1 ∧ Kept py3 p.2) :
    KeptPairs py3 pairs := by
  induction pairs with
  | nil => trivial
  | cons p pairs ih =>
    obtain ⟨hk, hv⟩ := h p List.mem_cons_self
    exact ⟨hk, hv, ih fun q hq => h q (List.mem_cons_of_mem p hq)⟩

theorem self_of_map (h : vs.map restored = vs) : ∀ v ∈ vs, restored v = v := by
  have hid : vs.map restored = vs.map id := h.trans (List.map_id vs).symm
  exact List.map_inj_left.mp hid

theorem eq_of_keyOf {v w : Value} (h : keyOf w = v) (hf : ∀ pairs, v ≠ .frozendict pairs)
    (hl : ∀ vs, v ≠ .otpErlangList vs false) : w = v := by
  unfold keyOf at h
  split at h
  · exact absurd h.symm (hf _)
  · exact absurd h.symm (hl _)
  · exact h

/-- A key that is restored as it is was made of a value that is. -/
theorem self_of_keyOf {v : Value} (hm : Made v) (hd : ∀ pairs, v ≠ .dict pairs)
    (h : keyOf (restored (keyOf v)) = keyOf v) : restored v = v := by
  cases hm with
  | dict _ _ _ => exact absurd rfl (hd _)
  | list _ _ =>
    rw [keyOf, restored, restoredList_proper, keyOf] at h
    rw [restored]
    injection h with h
    rw [h]
  | otpErlangList _ _ _ =>
    refine eq_of_keyOf h (fun _ => Value.noConfusion) fun vs heq => ?_
    injection heq with _ hb
    cases hb
  | _ => exact eq_of_keyOf h (fun _ => Value.noConfusion) fun _ => Value.noConfusion

theorem keyOf_encodes {v : Value} (h : Encodes py3 (keyOf v)) :
    (∀ pairs, v ≠ .dict pairs) ∧ Encodes py3 v ∧ (Kept py3 v → Kept py3 (keyOf v)) := by
  cases v with
  | dict pairs =>
    obtain ⟨e, he⟩ := h
    rw [keyOf, termToBinaryOf] at he
    cases he
  | list vs =>
    refine ⟨fun _ => Value.noConfusion, ?_, fun hk => ⟨(encodes_of_list h).1, hk⟩⟩
    rw [Encodes, termToBinaryOf_list]
    exact h
  | _ => exact ⟨fun _ => Value.noConfusion, h, id⟩

/-- What the decoder makes is kept, if it is encoded and restored as it is. -/
theorem made_kept {v : Value} (hm : Made v) (he : Encodes py3 v) (hr : restored v = v) : Kept py3 v := by
  induction hm with
  | bytes _ =>
    rintro rfl
    cases hr
  | list _ _ ih =>
    rw [Encodes, termToBinaryOf_list] at he
    rw [restored, restoredSequence_eq] at hr
    injection hr with hr
    exact keptSequence_of fun v hv => ih v hv ((encodes_of_list he).2 v hv) (self_of_map hr v hv)
  | tuple _ _ ih =>
    rw [restored, restoredSequence_eq] at hr
    injection hr with hr
    exact keptSequence_of fun v hv => ih v hv (encodes_of_tuple he v hv) (self_of_map hr v hv)
  | @dict items _ hmk _ ihk ihv =>
    rw [restored, restoredPairs_eq] at hr
    injection hr with hr
    have hsame := List.map_inj_left.mp (hr.trans (List.map_id _).symm)
    refine keptPairs_of fun p hp => ?_
    obtain ⟨hek, hev⟩ := encodes_of_dict he p hp
    obtain ⟨q, hq, rfl⟩ := List.mem_map.mp hp
    obtain ⟨hkey, hvalue⟩ := Prod.mk.inj (hsame _ hp)
    obtain ⟨hd, hek, hkept⟩ := keyOf_encodes hek
    exact ⟨hkept (ihk q hq hek (self_of_keyOf (hmk q hq) hd hkey)), ihv q hq hev hvalue⟩
  | @otpErlangAtom value _ =>
    cases value with
    | bytes name =>
      constructor <;>
      · rintro rfl
        cases hr
    | unicode name => trivial
    | int n => trivial
  | @otpErlangList init tail _ _ _ ih iht =>
    obtain ⟨hlen, hencodes⟩ := encodes_of_list he
    rw [restored, restoredSequence_eq, List.map_append, List.map_singleton, restoredList_improper,
      listWithTail.eq_def] at hr
    split at hr
    · cases hr
    · injection hr with hr _
      obtain ⟨hinit, htail⟩ := List.append_inj' hr rfl
      refine ⟨hlen, keptSequence_of fun v hv => ?_⟩
      rcases List.mem_append.mp hv with hv' | hv'
      · exact ih v hv' (hencodes v hv) (self_of_map hinit v hv')
      · obtain rfl := List.mem_singleton.mp hv'
        exact iht (hencodes _ hv) (List.head_eq_of_cons_eq htail)
  | otpErlangReference _ _ _ =>
    rintro rfl
    obtain ⟨e, he⟩ := he
    rw [termToBinaryOf] at he
    by_contra hid
    exact reference_refused (List.length_pos_iff.mpr hid) he
  | _ => trivial

end Encodes

/-- What is decoded is encoded, and decoded to itself again, if and only if it is kept. -/
theorem decoded_again_iff {py3 : Bool} {lib : Library} {depth : Nat} {data : List UInt8} {t : Value}
    (hdecode : binaryToTerm py3 lib depth data = .ok t) (h : Fits py3 lib t) :
    (∃ encoded, termToBinary py3 t = .ok encoded ∧
      ∀ depth, encoded.length ≤ depth → binaryToTerm py3 lib depth encoded = .ok t) ↔ Kept py3 t := by
  have hmade := binaryToTerm_made hdecode
  constructor
  · rintro ⟨encoded, hdata, hagain⟩
    have hrestored := hagain _ (Nat.le_refl _)
    rw [decoded_of_encoded h hdata (Nat.le_refl _)] at hrestored
    obtain ⟨e, he, -⟩ := bind_eq_ok hdata
    exact made_kept hmade ⟨e, he⟩ (Except.ok.inj hrestored)
  · intro hk
    obtain ⟨e, he⟩ := made_encodes hmade hk
    have hdata : termToBinary py3 t = .ok (tagVersion :: e) := by
      rw [termToBinary, bind_ok he]
      rfl
    refine ⟨_, hdata, fun depth hd => ?_⟩
    have hdecoded := decoded_of_encoded h hdata hd
    rwa [made_restored hmade hk] at hdecoded

/-- Both directions of the codec in both versions of Python, for values whose
parts fit: what is encoded is decoded to a value that denotes the same Erlang
term, and what is decoded is encoded, and decoded to itself again, exactly if
it is kept. -/
theorem term_codec_restores (py3 : Bool) (lib : Library) :
    (∀ v data, Fits py3 lib v → termToBinary py3 v = .ok data →
      ∃ w, (∀ depth, data.length ≤ depth → binaryToTerm py3 lib depth data = .ok w) ∧ denote w = denote v) ∧
    ∀ depth data t, binaryToTerm py3 lib depth data = .ok t → Fits py3 lib t →
      ((∃ encoded, termToBinary py3 t = .ok encoded ∧
        ∀ depth, encoded.length ≤ depth → binaryToTerm py3 lib depth encoded = .ok t) ↔ Kept py3 t) := by
  refine ⟨fun v data h hdata => ?_, fun depth data t hdecode h => decoded_again_iff hdecode h⟩
  obtain ⟨e, he, -⟩ := bind_eq_ok hdata
  exact ⟨restored v, fun depth hd => decoded_of_encoded h hdata hd, denote_restored h ⟨e, he⟩⟩

/-- A library for ASCII names and maps of one pair. -/
def asciiLibrary : Library := ⟨fun _ => true, fun _ => none, fun _ => none, fun _ _ => false, fun _ _ => .ok false⟩

set_option maxRecDepth 4000 in
/-- In Python 2 a tuple of an improper list, a pid, a map and an exported
function, and in Python 3 the bytes of a map from a list to an atom. -/
theorem term_codec_restores_tuple :
    (∃ w, (∀ depth, 50 ≤ depth → binaryToTerm false asciiLibrary depth
        [131, 104, 4, 108, 0, 0, 0, 1, 107, 0, 1, 97, 115, 1, 98, 103, 115, 1, 110, 0, 0, 0, 1, 0, 0, 0, 2, 3,
          116, 0, 0, 0, 1, 97, 1, 115, 4, 116, 114, 117, 101, 113, 115, 1, 109, 115, 1, 102, 97, 0] = .ok w) ∧
      denote w = .tuple [.cons (.cons (.int 97) .nil) (.atom [98]), .pid 100 [110] [0, 0, 0, 1] [0, 0, 0, 2] 3,
        .map [(.int 1, .atom [116, 114, 117, 101])], .function 113 [115, 1, 109, 115, 1, 102, 97, 0]]) ∧
    ∀ depth, 19 ≤ depth → binaryToTerm true asciiLibrary depth
        [131, 116, 0, 0, 0, 1, 108, 0, 0, 0, 1, 97, 1, 106, 115, 1, 98] =
      .ok (.dict [(.otpErlangList [.int 1] false, .otpErlangAtom (.bytes [98]))]) := by
  constructor
  · have hname : ∀ b : UInt8, AtomBytes false asciiLibrary (115 :: [1, b]) (.bytes [b]) := fun b =>
      @AtomBytes.smallBytes false asciiLibrary [b] rfl (show 1 < 256 ^ 1 by decide)
    have hlist : Fits false asciiLibrary (.otpErlangList [.bytes [97], .otpErlangAtom (.bytes [98])] true) := by
      refine .otpErlangList true fun v hv => ?_
      simp only [List.mem_cons, List.not_mem_nil, or_false] at hv
      rcases hv with rfl | rfl
      · exact .bytes [97]
      · exact .otpErlangAtom trivial
    have hpid : Fits false asciiLibrary (.otpErlangPid (.bytes [110]) [0, 0, 0, 1] [0, 0, 0, 2] [3]) :=
      .otpErlangPid ⟨trivial, fun h => absurd h Bool.false_ne_true⟩ rfl rfl rfl
    have hdict : Fits false asciiLibrary (.dict [(.int 1, .bool true)]) := by
      refine .dict (fun p hp => ?_) (fun p hp => ?_) (fun p hp => ?_) ⟨fun p hp => ?_, List.pairwise_singleton _ _⟩ <;>
        rw [List.mem_singleton.mp hp]
      · exact .int 1
      · exact .bool true
      · rfl
      · rfl
    have hfun : Fits false asciiLibrary (.otpErlangFunction 113 [115, 1, 109, 115, 1, 102, 97, 0]) :=
      .exported (hname 109) (hname 102) 0
    have h : Fits false asciiLibrary (.tuple [.otpErlangList [.bytes [97], .otpErlangAtom (.bytes [98])] true,
        .otpErlangPid (.bytes [110]) [0, 0, 0, 1] [0, 0, 0, 2] [3], .dict [(.int 1, .bool true)],
        .otpErlangFunction 113 [115, 1, 109, 115, 1, 102, 97, 0]]) := by
      refine .tuple fun v hv => ?_
      simp only [List.mem_cons, List.not_mem_nil, or_false] at hv
      rcases hv with rfl | rfl | rfl | rfl
      · exact hlist
      · exact hpid
      · exact hdict
      · exact hfun
    obtain ⟨w, hw, hden⟩ := (term_codec_restores false asciiLibrary).1 _ _ h rfl
    exact ⟨w, fun depth hd => hw depth (Nat.le_trans (by decide) hd), hden⟩
  · have hread : binaryToTerm true asciiLibrary 3 [131, 116, 0, 0, 0, 1, 108, 0, 0, 0, 1, 97, 1, 106, 115, 1, 98] =
        .ok (.dict [(.otpErlangList [.int 1] false, .otpErlangAtom (.bytes [98]))]) := rfl
    have hkey : Fits true asciiLibrary (.otpErlangList [.int 1] false) := by
      refine .otpErlangList false fun v hv => ?_
      rw [List.mem_singleton.mp hv]
      exact .int 1
    have hfits : Fits true asciiLibrary (.dict [(.otpErlangList [.int 1] false, .otpErlangAtom (.bytes [98]))]) := by
      refine .dict (fun p hp => ?_) (fun p hp => ?_) (fun p hp => ?_) ⟨fun p hp => ?_, List.pairwise_singleton _ _⟩ <;>
        rw [List.mem_singleton.mp hp]
      · exact hkey
      · exact .otpErlangAtom trivial
      · rfl
      · rfl
    have hkept : Kept true (.dict [(.otpErlangList [.int 1] false, .otpErlangAtom (.bytes [98]))]) :=
      ⟨⟨by decide, trivial, trivial⟩, ⟨by decide, by decide⟩, trivial⟩
    obtain ⟨encoded, he, hw⟩ := ((term_codec_restores true asciiLibrary).2 _ _ _ hread hfits).mpr hkept
    rw [← Except.ok.inj he] at hw
    exact fun depth hd => hw depth (Nat.le_trans (by decide) hd)

/-! ## What is lost -/

/-- In Python 3 an atom of a text of up to 255 bytes is never read back. -/
theorem smallUnicode_not_decoded {name data : List UInt8} (hl : name.length ≤ 255)
    (he : termToBinary true (.otpErlangAtom (.unicode name)) = .ok data) (lib : Library) (depth : Nat) (w : Value) :
    binaryToTerm true lib depth data ≠ .ok w := by
  have hencode : termToBinary true (.otpErlangAtom (.unicode name)) =
      .ok (tagVersion :: Tag.smallAtomUtf8Ext.byte :: (be 1 name.length ++ name)) := by
    rw [termToBinary, termToBinaryOf, AtomValue.binary, AtomValue.encode, if_pos hl]
    rfl
  rw [hencode] at he
  rw [← Except.ok.inj he]
  intro h
  cases depth with
  | zero => cases h
  | succ depth => cases h

/-- The atom `a` of a text, in Python 3. -/
theorem text_atom_lost :
    ∃ data, termToBinary true (.otpErlangAtom (.unicode [97])) = .ok data ∧
      ∀ (lib : Library) (depth : Nat) (w : Value), binaryToTerm true lib depth data ≠ .ok w :=
  ⟨[131, 119, 1, 97], rfl, fun lib depth w => @smallUnicode_not_decoded [97] _ (by decide) rfl lib depth w⟩

end CloudI.Api.Python.Erlang
