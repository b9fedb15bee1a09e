import CloudI.Api.Go.Codec

/-!
# The external terms that the Go decoder reads

`denote` is the Erlang term that a Go value stands for. `External` relates the bytes of external terms to the
values that the decoder makes of them: those of a term without terms in it (`Leaf`), one after another, and
the terms that have others in them. `external_reads` is that the decoder reads them, wherever they stand.
-/

namespace CloudI.Api.Go

variable (lib : Library)

/-! ## What a value denotes -/

mutual

/-- The Erlang term that a value denotes. -/
def denote : Value → Term
  | .uint8 term => .int term.toNat
  | .uint16 term => .int term.toNat
  | .uint32 term => .int term.toNat
  | .uint64 term => .int term.toNat
  | .int8 term => .int term.toInt
  | .int16 term => .int term.toInt
  | .int32 term => .int term.toInt
  | .int64 term => .int term.toInt
  | .int term => .int term.toInt
  | .bigInt term => .int term
  | .float32 term => .float (lib.float64 term)
  | .float64 term => .float term
  | .bool term => .atom (if term then [116, 114, 117, 101] else [102, 97, 108, 115, 101])
  | .otpErlangAtom term => .atom term
  | .otpErlangAtomUTF8 term => .atomUtf8 term
  | .otpErlangAtomCacheRef term => .atomCacheRef term
  | .bytes term => .bitstring term 8
  | .otpErlangBinary value bits => .bitstring value bits
  | .otpErlangFunction tag value => .function tag value
  | .otpErlangPid nodeTag node id serial creation => .pid nodeTag node id serial creation
  | .otpErlangPort nodeTag node id creation => .port nodeTag node id creation
  | .otpErlangReference nodeTag node id creation => .reference nodeTag node id creation
  | .string term => .ofBytes term
  | .otpErlangTuple term | .slice term => .tuple (denoteSequence term)
  | .otpErlangMap term | .mapInterface term => .map (denotePairs term)
  | .otpErlangList term improper => denoteList term improper
  | .other => .nil

def denoteSequence : List Value → List Term
  | [] => []
  | element :: sequence => denote element :: denoteSequence sequence

def denotePairs : List (Value × Value) → List (Term × Term)
  | [] => []
  | (key, value) :: pairs => (denote key, denote value) :: denotePairs pairs

/-- The last element of an improper list is its tail. -/
def denoteList : List Value → Bool → Term
  | [], _ => .nil
  | [tail], true => denote tail
  | element :: sequence, improper => .cons (denote element) (denoteList sequence improper)

end

attribute [grind =] denote denoteSequence denotePairs denoteList

/-! ## The terms without terms in them -/

/-- The bytes of a node, after its tag: an atom with its length. -/
inductive Node : UInt8 → List UInt8 → Prop
  | long {tag : Tag} {name : List UInt8} (ht : tag = .atomExt ∨ tag = .atomUtf8Ext) (h : name.length < 256 ^ 2) :
      Node tag.byte (be 2 name.length ++ name)
  | small {tag : Tag} {name : List UInt8} (ht : tag = .smallAtomExt ∨ tag = .smallAtomUtf8Ext)
      (h : name.length < 256 ^ 1) : Node tag.byte (be 1 name.length ++ name)
  | cacheRef (n : UInt8) : Node Tag.atomCacheRef.byte [n]

/-- The size of the numbers that the length of a node is computed with. -/
def nodeLimit (nodeTag : UInt8) : Nat :=
  if nodeTag = Tag.atomExt.byte ∨ nodeTag = Tag.atomUtf8Ext.byte then 256 ^ 2 else 256 ^ 1

/-- The bytes of a node that the decoder keeps. -/
def kept (nodeTag : UInt8) (node : List UInt8) : List UInt8 := node.take (node.length % nodeLimit nodeTag)

variable {nodeTag : UInt8}

theorem kept_eq {node : List UInt8} (h : node.length < nodeLimit nodeTag) :
    kept nodeTag node = node := by
  rw [kept, Nat.mod_eq_of_lt h, List.take_length]

/-- The tags of bytes with their length before them, the size of the length, and what is made of the bytes. -/
inductive Prefixed : Tag → Nat → (List UInt8 → Value) → Prop
  | atom : Prefixed .atomExt 2 .otpErlangAtom
  | smallAtom : Prefixed .smallAtomExt 1 .otpErlangAtom
  | atomUtf8 : Prefixed .atomUtf8Ext 2 .otpErlangAtomUTF8
  | smallAtomUtf8 : Prefixed .smallAtomUtf8Ext 1 .otpErlangAtomUTF8
  | string : Prefixed .stringExt 2 .string
  | binary : Prefixed .binaryExt 4 fun value => .otpErlangBinary value 8
  | newFun : Prefixed .newFunExt 4 (.otpErlangFunction Tag.newFunExt.byte)

/-- An external term without terms in it, after its tag. -/
inductive Leaf : Tag → List UInt8 → Value → Prop
  | newFloat (bits : BitVec 64) : Leaf .newFloatExt (be 8 bits.toNat) (.float64 bits)
  | float {raw : List UInt8} {bits : BitVec 64} (h : raw.length = 31)
      (hp : lib.parseFloat (raw.rdropWhile (· == 0)) = .ok bits) : Leaf .floatExt raw (.float64 bits)
  | bitBinary {value : List UInt8} (bits : UInt8) (h : value.length < 256 ^ 4) :
      Leaf .bitBinaryExt (be 4 value.length ++ bits :: value) (.otpErlangBinary value bits)
  | atomCacheRef (n : UInt8) : Leaf .atomCacheRef [n] (.otpErlangAtomCacheRef n)
  | smallInteger (n : UInt8) : Leaf .smallIntegerExt [n] (.uint8 n)
  | integer (n : Int32) : Leaf .integerExt (be 4 n.toBitVec.toNat) (.int32 n)
  | bytes {tag : Tag} {k : Nat} {make : List UInt8 → Value} {value : List UInt8} (ht : Prefixed tag k make)
      (h : value.length < 256 ^ k) : Leaf tag (be k value.length ++ value) (make value)
  | reference {nodeTag : UInt8} {node id : List UInt8} (creation : UInt8) (hn : Node nodeTag node)
      (h : id.length = 4) :
      Leaf .referenceExt (nodeTag :: node ++ id ++ [creation])
          (.otpErlangReference nodeTag (kept nodeTag node) id creation)
  | port {nodeTag : UInt8} {node id : List UInt8} (creation : UInt8) (hn : Node nodeTag node) (h : id.length = 4) :
      Leaf .portExt (nodeTag :: node ++ id ++ [creation]) (.otpErlangPort nodeTag (kept nodeTag node) id creation)
  | pid {nodeTag : UInt8} {node id serial : List UInt8} (creation : UInt8) (hn : Node nodeTag node)
      (hid : id.length = 4) (hs : serial.length = 4) :
      Leaf .pidExt (nodeTag :: node ++ id ++ serial ++ [creation])
        (.otpErlangPid nodeTag (kept nodeTag node) id serial creation)
  | newReference {nodeTag : UInt8} {node id : List UInt8} (j : Nat) (creation : UInt8) (hn : Node nodeTag node)
      (h : id.length = 4 * j) (hj : j < 16384) :
      Leaf .newReferenceExt (be 2 j ++ nodeTag :: node ++ creation :: id)
        (.otpErlangReference nodeTag (kept nodeTag node) id creation)
  | nil : Leaf .nilExt [] (.otpErlangList [] false)
  | big {tag : Tag} {k : Nat} {digits : List UInt8} (sign : UInt8)
      (ht : tag = .smallBigExt ∧ k = 1 ∨ tag = .largeBigExt ∧ k = 4) (h : digits.length < 256 ^ k) :
      Leaf tag (be k digits.length ++ sign :: digits)
        (.bigInt (if sign = 1 then -(ofBe digits.reverse : Int) else ofBe digits.reverse))
  | exported {moduleTag functionTag : UInt8} {module function : List UInt8} (arity : UInt8)
      (hm : Node moduleTag module) (hf : Node functionTag function) :
      Leaf .exportExt (moduleTag :: module ++ functionTag :: function ++ [Tag.smallIntegerExt.byte, arity])
        (.otpErlangFunction Tag.exportExt.byte
          (moduleTag :: module ++ functionTag :: function ++ [Tag.smallIntegerExt.byte, arity]))
  | emptyMap : Leaf .mapExt (be 4 0) (.otpErlangMap [])

/-! ## The terms -/

/-- An integer, with its tag, of at most 32 bits. -/
inductive Small : List UInt8 → Prop
  | smallInteger (n : UInt8) : Small [Tag.smallIntegerExt.byte, n]
  | integer {l : List UInt8} (h : l.length = 4) : Small (Tag.integerExt.byte :: l)

/-- The start of a function with free variables: how many, its pid, module, index and unique number. -/
inductive FunStart : Nat → List UInt8 → Prop
  | mk {numfree : Nat} {nodeTag moduleTag : UInt8} {node id serial module index uniq : List UInt8} (creation : UInt8)
      (h : numfree < 256 ^ 4) (hp : Node nodeTag node) (hid : id.length = 4) (hs : serial.length = 4)
      (hm : Node moduleTag module) (hi : Small index) (hu : Small uniq) :
      FunStart numfree (be 4 numfree ++ Tag.pidExt.byte :: (nodeTag :: node ++ id ++ serial ++ [creation]) ++
        moduleTag :: module ++ index ++ uniq)

/-- External terms one after another, and the values made of them. -/
inductive External : List UInt8 → List Value → Prop
  | nil : External [] []
  | leaf {tag : Tag} {e es : List UInt8} {w : Value} {ws : List Value} (h : Leaf lib tag e w) (hs : External es ws) :
      External (tag.byte :: e ++ es) (w :: ws)
  | tuple {tag : Tag} {k : Nat} {e es : List UInt8} {vs ws : List Value}
      (ht : tag = .smallTupleExt ∧ k = 1 ∨ tag = .largeTupleExt ∧ k = 4) (hk : vs.length < 256 ^ k) (h : External e vs)
      (hs : External es ws) : External (tag.byte :: be k vs.length ++ e ++ es) (.otpErlangTuple vs :: ws)
  | list {e l es : List UInt8} {vs ws : List Value} {tail : Value} (hk : vs.length < 256 ^ 4) (h : External e vs)
      (ht : External l [tail]) (hs : External es ws) :
      External (Tag.listExt.byte :: be 4 vs.length ++ e ++ l ++ es) (listWithTail vs tail :: ws)
  | closure {start e es : List UInt8} {free ws : List Value} (h : FunStart free.length start) (hf : External e free)
      (hs : External es ws) :
      External (Tag.funExt.byte :: start ++ e ++ es) (.otpErlangFunction Tag.funExt.byte (start ++ e) :: ws)

/-! ## Reading -/

section Read

variable {r : Reader} {i : Nat} {bytes l : List UInt8}

theorem readByte_ok {b : UInt8} (h : r.Rest i (b :: bytes)) : readByte r = .ok (b, r.seek 1) := by
  have hlen := h.length
  have hpos : r.pos < r.data.length := by
    rw [h.pos, hlen, List.length_cons]
    omega
  have hget : r.data[r.pos]? = some b := by
    rw [h.pos, ← List.head?_drop, h.drop]
    rfl
  rw [List.getElem?_eq_getElem hpos, Option.some.injEq] at hget
  rw [readByte, dif_pos hpos, hget]

theorem take_rest (h : r.Rest i (l ++ bytes)) : (r.data.drop r.pos).take l.length = l := by
  rw [h.pos, h.drop, List.take_left]

theorem binaryRead_ok {k n : Nat} (h : r.Rest i (be k n ++ bytes)) (hk : 0 < k) (hn : n < 256 ^ k) :
    binaryRead r k = .ok (n, r.seek k) := by
  have hlen := h.length
  have hpos := h.pos
  have htake := take_rest h
  rw [List.length_append, length_be] at hlen
  rw [length_be] at htake
  rw [binaryRead, if_neg (by omega), if_neg (by omega), htake, ofBe_be_of_lt hn]

theorem read_ok (h : r.Rest i (l ++ bytes)) (hl : 0 < l.length) : read r l.length = .ok (l, r.seek l.length) := by
  have hlen := h.length
  have hpos := h.pos
  rw [List.length_append] at hlen
  simp only [read, if_neg (show ¬ r.data.length ≤ r.pos by omega), take_rest h, Nat.sub_self, List.replicate_zero,
    List.append_nil]

theorem read_ok_of_length {n : Nat} (h : r.Rest i (l ++ bytes)) (hl : l.length = n) (hn : 0 < n) :
    read r n = .ok (l, r.seek n) := by
  subst hl
  exact read_ok h hn

@[simp] theorem readAt_seek (m n offset : Nat) : readAt (r.seek m) n offset = readAt r n offset := rfl

theorem readAt_take {n : Nat} (h : r.Rest i (l ++ bytes)) (hl : 0 < l.length) (hn : n ≤ l.length) :
    readAt r n i = .ok (l.take n) := by
  have hlen := h.length
  have htake : (r.data.drop i).take n = l.take n := by rw [h.drop, List.take_append_of_le_length hn]
  have hshort : ¬ (l.take n).length < n := by
    rw [List.length_take]
    omega
  rw [List.length_append] at hlen
  simp only [readAt, if_neg (show ¬ r.data.length ≤ i by omega), htake, if_neg hshort]

theorem readAt_ok {n : Nat} (h : r.Rest i (l ++ bytes)) (hl : l.length = n) (hn : 0 < n) :
    readAt r n i = .ok l := by
  rw [readAt_take h (by omega) (by omega), ← hl, List.take_length]

end Read

/-- A decoder reads bytes as a value, wherever they stand. -/
def Reads {α : Type} (f : Nat → Reader → Except Fault (Decoded α)) (e : List UInt8) (w : α) : Prop :=
  ∀ (r : Reader) (i : Nat) (bytes : List UInt8), r.Rest i (e ++ bytes) →
    f i r = .ok (i + e.length, w, r.seek e.length)

theorem binaryToBytes_reads {k : Nat} {value : List UInt8} (hk : 0 < k) (h : value.length < 256 ^ k) :
    Reads (binaryToBytes k) (be k value.length ++ value) value := by
  intro r i bytes hr
  rw [List.append_assoc] at hr
  have hv := length_be k value.length ▸ hr.seek
  unfold binaryToBytes
  simp only [binaryRead_ok hr hk h, bind, Except.bind]
  by_cases hpos : 0 < value.length
  · simp only [if_pos hpos, read_ok hv hpos, pure, Except.pure, Reader.seek_seek, List.length_append, length_be,
      Nat.add_assoc]
  · have hnil : value = [] := List.length_eq_zero_iff.mp (by omega)
    subst hnil
    simp only [List.length_nil, gt_iff_lt, lt_self_iff_false, if_false, pure, Except.pure, List.append_nil, length_be,
      Nat.add_zero]

theorem binaryToName_reads {k : Nat} {name : List UInt8} (hk : 0 < k) (h : name.length < 256 ^ k) :
    Reads (binaryToName k) (be k name.length ++ name)
      ((be k name.length ++ name).take ((be k name.length ++ name).length % 256 ^ k)) := by
  intro r i bytes hr
  have hlen : (be k name.length ++ name).length = k + name.length := by rw [List.length_append, length_be]
  have hat := readAt_take hr (n := (k + name.length) % 256 ^ k) (by omega) (hlen ▸ Nat.mod_le _ _)
  have hread := List.append_assoc _ _ bytes ▸ hr
  unfold binaryToName
  simp only [binaryRead_ok hread hk h, bind, Except.bind, readAt_seek, hat, pure, Except.pure, Reader.seek_seek, hlen,
    Nat.add_assoc]

theorem Node.reads {node : List UInt8} (h : Node nodeTag node) :
    Reads binaryToAtom (nodeTag :: node) (nodeTag, kept nodeTag node) := by
  intro r i bytes hr
  have htail := hr.tail
  unfold binaryToAtom
  rw [readByte_ok hr]
  cases h with
  | long ht h =>
    have hread := binaryToName_reads (by decide) h _ _ _ htail
    rcases ht with rfl | rfl <;>
      simp only [bind, Except.bind, Tag.ofByte_byte, hread, pure, Except.pure, Reader.seek_seek, List.length_cons,
        Nat.add_assoc, Nat.add_comm] <;>
      rfl
  | small ht h =>
    have hread := binaryToName_reads (by decide) h _ _ _ htail
    rcases ht with rfl | rfl <;>
      simp only [bind, Except.bind, Tag.ofByte_byte, hread, pure, Except.pure, Reader.seek_seek, List.length_cons,
        Nat.add_assoc, Nat.add_comm] <;>
      rfl
  | cacheRef n =>
    simp only [bind, Except.bind, Tag.ofByte_byte, readByte_ok htail, pure, Except.pure, Reader.seek_seek,
      List.length_cons, List.length_nil, Nat.add_assoc]
    rfl

theorem binaryToNodeId_reads {make : UInt8 → List UInt8 → List UInt8 → UInt8 → Value}
    {node id : List UInt8} (creation : UInt8) (hn : Node nodeTag node) (hid : id.length = 4) :
    Reads (binaryToNodeId make) (nodeTag :: node ++ id ++ [creation])
        (make nodeTag (kept nodeTag node) id creation) := by
  intro r i bytes hr
  have hnode : r.Rest i ((nodeTag :: node) ++ (id ++ creation :: bytes)) := by
    rwa [List.append_assoc, List.append_assoc] at hr
  have hcreation := hnode.seek.seek
  have hlen : (nodeTag :: node ++ id ++ [creation]).length = (nodeTag :: node).length + (4 + 1) := by
    rw [List.length_append, List.length_append, hid]
    rfl
  rw [hid] at hcreation
  unfold binaryToNodeId
  simp only [bind, Except.bind, hn.reads _ _ _ hnode, read_ok_of_length hnode.seek hid (by decide),
    readByte_ok hcreation, pure, Except.pure]
  simp only [Reader.seek_seek, hlen, Nat.add_assoc]

theorem binaryToPidFields_reads {node id serial : List UInt8} (creation : UInt8)
    (hn : Node nodeTag node) (hid : id.length = 4) (hs : serial.length = 4) :
    Reads binaryToPidFields (nodeTag :: node ++ id ++ serial ++ [creation])
      (.otpErlangPid nodeTag (kept nodeTag node) id serial creation) := by
  intro r i bytes hr
  have hnode : r.Rest i ((nodeTag :: node) ++ (id ++ (serial ++ creation :: bytes))) := by
    rwa [List.append_assoc, List.append_assoc, List.append_assoc] at hr
  have hserial := hnode.seek.seek
  have hcreation := hserial.seek
  have hlen : (nodeTag :: node ++ id ++ serial ++ [creation]).length = (nodeTag :: node).length + (4 + (4 + 1)) := by
    rw [List.length_append, List.length_append, List.length_append, hid, hs]
    rfl
  rw [hid] at hserial hcreation
  rw [hs] at hcreation
  unfold binaryToPidFields
  simp only [bind, Except.bind, hn.reads _ _ _ hnode, read_ok_of_length hnode.seek hid (by decide),
    read_ok_of_length hserial hs (by decide), readByte_ok hcreation, pure, Except.pure]
  simp only [Reader.seek_seek, hlen, Nat.add_assoc]

theorem binaryToNewReference_reads {node id : List UInt8} {j : Nat} (creation : UInt8)
    (hn : Node nodeTag node) (hid : id.length = 4 * j) (hj : j < 16384) :
    Reads binaryToNewReference (be 2 j ++ nodeTag :: node ++ creation :: id)
      (.otpErlangReference nodeTag (kept nodeTag node) id creation) := by
  intro r i bytes hr
  have hlength : r.Rest i (be 2 j ++ ((nodeTag :: node) ++ (creation :: (id ++ bytes)))) := by
    rwa [List.append_assoc, List.append_assoc] at hr
  have hnode := hlength.seek
  have hcreation := hnode.seek
  have hlen : (be 2 j ++ nodeTag :: node ++ creation :: id).length =
      2 + ((nodeTag :: node).length + (1 + id.length)) := by
    rw [List.length_append, List.length_append, length_be, @List.length_cons _ creation id]
    omega
  rw [length_be] at hnode hcreation
  have hmod : j * 4 % 65536 = id.length := by rw [Nat.mod_eq_of_lt (by omega)]; omega
  unfold binaryToNewReference
  simp only [bind, Except.bind, binaryRead_ok hlength (by decide) (show j < 256 ^ 2 by omega), hmod,
    hn.reads _ _ _ hnode, readByte_ok hcreation]
  by_cases hpos : 0 < id.length
  · simp only [if_pos hpos, read_ok hcreation.tail hpos, pure, Except.pure]
    simp only [Reader.seek_seek, hlen, Nat.add_assoc]
  · have hnil : id = [] := List.length_eq_zero_iff.mp (by omega)
    subst hnil
    simp only [List.length_nil, gt_iff_lt, lt_self_iff_false, if_false, pure, Except.pure, Reader.seek_seek, hlen,
      Nat.add_assoc, Nat.add_zero]

theorem binaryToExport_reads {moduleTag functionTag : UInt8} {module function : List UInt8} (arity : UInt8)
    (hm : Node moduleTag module) (hf : Node functionTag function) :
    Reads binaryToExport (moduleTag :: module ++ functionTag :: function ++ [Tag.smallIntegerExt.byte, arity])
      (.otpErlangFunction Tag.exportExt.byte
        (moduleTag :: module ++ functionTag :: function ++ [Tag.smallIntegerExt.byte, arity])) := by
  intro r i bytes hr
  have hmodule : r.Rest i ((moduleTag :: module) ++
      ((functionTag :: function) ++ (Tag.smallIntegerExt.byte :: arity :: bytes))) := by
    rwa [List.append_assoc, List.append_assoc] at hr
  have hfunction := hmodule.seek
  have harity := hfunction.seek
  have hlen : (moduleTag :: module ++ functionTag :: function ++ [Tag.smallIntegerExt.byte, arity]).length =
      (moduleTag :: module).length + ((functionTag :: function).length + (1 + 1)) := by
    rw [List.length_append, List.length_append, Nat.add_assoc]
    rfl
  have hat := readAt_ok hr hlen (by omega)
  unfold binaryToExport
  simp only [bind, Except.bind, hm.reads _ _ _ hmodule, hf.reads _ _ _ hfunction, readByte_ok harity,
    readByte_ok harity.tail, ne_eq, not_true_eq_false, if_false, readAt_seek]
  simp only [Reader.seek_seek, Nat.add_assoc, Nat.add_sub_cancel_left, hat, pure, Except.pure, hlen]

theorem bignumLoop_ok {r : Reader} {i : Nat} {digits bytes : List UInt8} (h : r.Rest (i + 1) (digits ++ bytes))
    {m : Nat} (hm : m ≤ digits.length) (n : Nat) :
    bignumLoop r i m n = .ok ((digits.take m).reverse.foldl (fun n b => n * 256 + b.toNat) n) := by
  induction m generalizing n with
  | zero => rfl
  | succ m ih =>
    have hsplit : digits ++ bytes = digits.take m ++ ([digits[m]] ++ (digits.drop (m + 1) ++ bytes)) := by
      rw [← List.append_assoc, ← List.append_assoc, List.append_assoc (digits.take m), List.singleton_append,
        List.getElem_cons_drop, List.take_append_drop]
    have hmlen : (digits.take m).length = m := by rw [List.length_take]; omega
    have hat := readAt_ok (n := 1) (hsplit ▸ h).seek rfl (by decide)
    rw [hmlen, readAt_seek, Nat.add_assoc, Nat.add_comm 1 m] at hat
    have hdigit : ofBe [digits[m]] = digits[m].toNat := by
      simp only [ofBe, List.foldl_cons, List.foldl_nil, Nat.zero_mul,
      Nat.zero_add]
    rw [bignumLoop, hat, List.take_succ_eq_append_getElem (by omega), List.reverse_append]
    show bignumLoop r i m (n * 256 + ofBe [digits[m]]) = _
    rw [hdigit]
    exact ih (by omega) _

theorem binaryToBignum_reads {k : Nat} {digits : List UInt8} (hk : 0 < k) (sign : UInt8)
    (h : digits.length < 256 ^ k) :
    Reads (binaryToBignum k) (be k digits.length ++ sign :: digits)
      (.bigInt (if sign = 1 then -(ofBe digits.reverse : Int) else ofBe digits.reverse)) := by
  intro r i bytes hr
  have hlength : r.Rest i (be k digits.length ++ (sign :: (digits ++ bytes))) := by
    rwa [List.append_assoc] at hr
  have hsign := hlength.seek
  rw [length_be] at hsign
  have hloop := bignumLoop_ok hsign.tail (Nat.le_refl _) 0
  rw [List.take_length] at hloop
  have hlen : (be k digits.length ++ sign :: digits).length = k + (1 + digits.length) := by
    rw [List.length_append, length_be, List.length_cons]
    omega
  unfold binaryToBignum
  simp only [bind, Except.bind, binaryRead_ok hlength hk h, readByte_ok hsign, hloop]
  show Except.ok _ = _
  rw [← ofBe, Reader.seek_seek, Reader.seek_seek, hlen]
  simp only [Nat.add_assoc]

variable {lib}

theorem bitBinary_reads {value : List UInt8} (bits : UInt8) (h : value.length < 256 ^ 4)
    (terms : Nat → Reader → Except Fault (Decoded Value)) :
    Reads (binaryToTermsOf terms lib .bitBinaryExt) (be 4 value.length ++ bits :: value)
        (.otpErlangBinary value bits) := by
  intro r i bytes hr
  have hlength : r.Rest i (be 4 value.length ++ (bits :: (value ++ bytes))) := by rwa [List.append_assoc] at hr
  have hbits := hlength.seek
  rw [length_be] at hbits
  have hlen : (be 4 value.length ++ bits :: value).length = 4 + (1 + value.length) := by
    rw [List.length_append, length_be, List.length_cons]
    omega
  unfold binaryToTermsOf
  simp only [bind, Except.bind, binaryRead_ok hlength (by decide) h, readByte_ok hbits]
  by_cases hpos : 0 < value.length
  · simp only [if_pos hpos, read_ok hbits.tail hpos, pure, Except.pure]
    simp only [Reader.seek_seek, hlen, Nat.add_assoc]
  · have hnil : value = [] := List.length_eq_zero_iff.mp (by omega)
    subst hnil
    simp only [List.length_nil, gt_iff_lt, lt_self_iff_false, if_false, pure, Except.pure]
    rfl

/-- The decoder reads a term without terms in it, whatever it calls for the terms in a term. -/
theorem leaf_reads {tag : Tag} {e : List UInt8} {w : Value} (h : Leaf lib tag e w)
    (terms : Nat → Reader → Except Fault (Decoded Value)) : Reads (binaryToTermsOf terms lib tag) e w := by
  intro r i bytes hr
  cases h with
  | newFloat bits =>
    have hlt : bits.toNat < 256 ^ 8 := lt_of_lt_of_eq bits.isLt (by decide)
    simp only [binaryToTermsOf, binaryRead_ok hr (by decide) hlt, bind, Except.bind, pure, Except.pure, length_be,
      BitVec.ofNat_toNat, BitVec.setWidth_eq]
  | float h hp =>
    simp only [binaryToTermsOf, read_ok_of_length hr h (by decide), hp, h, bind, Except.bind, pure, Except.pure]
  | bitBinary bits h => exact bitBinary_reads bits h terms _ _ _ hr
  | atomCacheRef n =>
    simp only [binaryToTermsOf, readByte_ok hr, bind, Except.bind, pure, Except.pure, List.length_singleton]
  | smallInteger n =>
    simp only [binaryToTermsOf, binaryToSmallInteger, readByte_ok hr, bind, Except.bind, pure, Except.pure,
      List.length_singleton]
  | integer n =>
    have hlt : n.toBitVec.toNat < 256 ^ 4 := lt_of_lt_of_eq n.toBitVec.isLt (by decide)
    simp only [binaryToTermsOf, binaryToInt32, binaryRead_ok hr (by decide) hlt, bind, Except.bind, pure, Except.pure,
      length_be, BitVec.ofNat_toNat, BitVec.setWidth_eq]
    rfl
  | bytes ht h =>
    cases ht <;>
      simp only [binaryToTermsOf, binaryToBytes_reads (by decide) h _ _ _ hr, bind, Except.bind, pure, Except.pure]
  | reference creation hn h => exact binaryToNodeId_reads creation hn h _ _ _ hr
  | port creation hn h => exact binaryToNodeId_reads creation hn h _ _ _ hr
  | pid creation hn hid hs => exact binaryToPidFields_reads creation hn hid hs _ _ _ hr
  | newReference j creation hn h hj => exact binaryToNewReference_reads creation hn h hj _ _ _ hr
  | nil => rfl
  | big sign ht h =>
    obtain ⟨rfl, rfl⟩ | ⟨rfl, rfl⟩ := ht <;> exact binaryToBignum_reads (by decide) sign h _ _ _ hr
  | exported arity hm hf => exact binaryToExport_reads arity hm hf _ _ _ hr
  | emptyMap =>
    simp only [binaryToTermsOf, binaryToMap, binaryRead_ok hr (by decide) (by decide), bind, Except.bind, length_be]
    rfl

/-! ## Terms in terms -/

theorem binaryToPid_reads {node id serial : List UInt8} (creation : UInt8) (hn : Node nodeTag node)
    (hid : id.length = 4) (hs : serial.length = 4) :
    Reads binaryToPid (Tag.pidExt.byte :: (nodeTag :: node ++ id ++ serial ++ [creation]))
      (.otpErlangPid nodeTag (kept nodeTag node) id serial creation) := by
  intro r i bytes hr
  unfold binaryToPid
  simp only [bind, Except.bind, readByte_ok hr, Tag.ofByte_byte,
    binaryToPidFields_reads creation hn hid hs _ _ _ hr.tail]
  simp only [Reader.seek_seek, List.length_cons (a := Tag.pidExt.byte), Nat.add_assoc, Nat.add_comm 1]

theorem Small.reads {e : List UInt8} (h : Small e) : ∃ w, Reads binaryToInteger e w := by
  cases h with
  | smallInteger n =>
    refine ⟨.uint8 n, fun r i bytes hr => ?_⟩
    unfold binaryToInteger
    simp only [bind, Except.bind, readByte_ok hr, Tag.ofByte_byte, binaryToSmallInteger, readByte_ok hr.tail, pure,
      Except.pure]
    rfl
  | integer hl =>
    rename_i l
    refine ⟨.int32 (.ofBitVec (.ofNat 32 (ofBe l))), fun r i bytes hr => ?_⟩
    have htail := hr.tail
    have hlt := hl ▸ ofBe_lt l
    rw [← be_ofBe l, hl] at htail
    unfold binaryToInteger
    simp only [bind, Except.bind, readByte_ok hr, Tag.ofByte_byte, binaryToInt32,
      binaryRead_ok htail (by decide) hlt, pure, Except.pure]
    simp only [Reader.seek_seek, List.length_cons, hl, Nat.add_assoc]

section Calls

variable {terms : Nat → Reader → Except Fault (Decoded Value)} {e l : List UInt8} {vs : List Value} {tail : Value}

theorem binaryToTuple_reads {k : Nat} (hk : 0 < k) (hlt : vs.length < 256 ^ k)
    (h : Reads (fun i => binaryToTermSequence terms i vs.length) e vs) :
    Reads (binaryToTuple terms k) (be k vs.length ++ e) (.otpErlangTuple vs) := by
  intro r i bytes hr
  rw [List.append_assoc] at hr
  have hseq := length_be k vs.length ▸ hr.seek
  unfold binaryToTuple
  simp only [bind, Except.bind, binaryRead_ok hr hk hlt, h _ _ _ hseq, pure, Except.pure]
  simp only [Reader.seek_seek, List.length_append, length_be, Nat.add_assoc]

theorem binaryToList_reads (hlt : vs.length < 256 ^ 4)
    (h : Reads (fun i => binaryToTermSequence terms i vs.length) e vs) (ht : Reads terms l tail) :
    Reads (binaryToList terms) (be 4 vs.length ++ e ++ l) (listWithTail vs tail) := by
  intro r i bytes hr
  rw [List.append_assoc, List.append_assoc] at hr
  have hseq := length_be 4 vs.length ▸ hr.seek
  unfold binaryToList
  simp only [bind, Except.bind, binaryRead_ok hr (by decide) hlt, h _ _ _ hseq, ht _ _ _ hseq.seek, pure, Except.pure]
  simp only [Reader.seek_seek, List.length_append, length_be, Nat.add_assoc]

theorem binaryToFun_reads {start : List UInt8} (hs : FunStart vs.length start)
    (h : Reads (fun i => binaryToTermSequence terms i vs.length) e vs) :
    Reads (binaryToFun terms) (start ++ e) (.otpErlangFunction Tag.funExt.byte (start ++ e)) := by
  intro r i bytes hr
  obtain ⟨creation, hlt, hp, hid, hser, hm, hi, hu⟩ := hs
  rename_i nodeTag moduleTag node id serial module index uniq
  obtain ⟨_, hindex⟩ := hi.reads
  obtain ⟨_, huniq⟩ := hu.reads
  have hpid := binaryToPid_reads creation hp hid hser
  generalize Tag.pidExt.byte :: (nodeTag :: node ++ id ++ serial ++ [creation]) = pid at hr hpid ⊢
  have hfree : r.Rest i (be 4 vs.length ++ (pid ++ (moduleTag :: module ++ (index ++ (uniq ++ (e ++ bytes)))))) := by
    simpa only [List.append_assoc] using hr
  have hpidAt := length_be 4 vs.length ▸ hfree.seek
  have hmoduleAt := hpidAt.seek
  have hindexAt := hmoduleAt.seek
  have huniqAt := hindexAt.seek
  have hseqAt := huniqAt.seek
  have hlen : (be 4 vs.length ++ pid ++ moduleTag :: module ++ index ++ uniq ++ e).length =
      4 + (pid.length + ((moduleTag :: module).length + (index.length + (uniq.length + e.length)))) := by
    simp only [List.length_append, length_be, Nat.add_assoc]
  have hat := readAt_ok hr hlen (by omega)
  unfold binaryToFun
  simp only [bind, Except.bind, binaryRead_ok hfree (by decide) hlt, hpid _ _ _ hpidAt, hm.reads _ _ _ hmoduleAt,
    hindex _ _ _ hindexAt, huniq _ _ _ huniqAt, h _ _ _ hseqAt]
  simp only [readAt_seek, Reader.seek_seek, Nat.add_assoc, Nat.add_sub_cancel_left, hat, pure, Except.pure, hlen]

theorem sequence_reads_cons {es : List UInt8} {w : Value} {ws : List Value} (h : Reads terms e w)
    (hs : Reads (fun i => binaryToTermSequence terms i ws.length) es ws) :
    Reads (fun i => binaryToTermSequence terms i (w :: ws).length) (e ++ es) (w :: ws) := by
  intro r i bytes hr
  rw [List.append_assoc] at hr
  simp only [List.length_cons, binaryToTermSequence, bind, Except.bind, h _ _ _ hr, hs _ _ _ hr.seek, pure, Except.pure]
  simp only [Reader.seek_seek, List.length_append, Nat.add_assoc]

theorem sequence_reads_one {w : Value} (h : Reads (fun i => binaryToTermSequence terms i 1) e [w]) :
    Reads terms e w := by
  intro r i bytes hr
  have hseq := h _ _ _ hr
  simp only [binaryToTermSequence, bind, Except.bind, pure, Except.pure] at hseq
  cases hterm : terms i r with
  | error fault =>
    rw [hterm] at hseq
    simp only [reduceCtorEq] at hseq
  | ok result =>
    rw [hterm] at hseq
    obtain ⟨i', w', r'⟩ := result
    simp only [Except.ok.injEq, Prod.mk.injEq, List.cons.injEq, and_true] at hseq ⊢
    exact hseq

end Calls

theorem tagged_reads {depth : Nat} {tag : Tag} {e : List UInt8} {w : Value}
    (h : Reads (binaryToTermsOf (binaryToTerms lib depth) lib tag) e w) :
    Reads (binaryToTerms lib (depth + 1)) (tag.byte :: e) w := by
  intro r i bytes hr
  unfold binaryToTerms
  simp only [bind, Except.bind, readByte_ok hr, Tag.ofByte_byte, h _ _ _ hr.tail]
  simp only [Reader.seek_seek, List.length_cons, Nat.add_assoc, Nat.add_comm 1]

/-- The decoder reads external terms as the values they are for, if it may call itself as deep as there are bytes. -/
theorem external_reads {e : List UInt8} {ws : List Value} (h : External lib e ws) {depth : Nat}
    (hd : e.length ≤ depth) :
    Reads (fun i => binaryToTermSequence (binaryToTerms lib depth) i ws.length) e ws := by
  induction h generalizing depth with
  | nil => exact fun r i bytes hr => rfl
  | leaf h hs ih =>
    rw [List.length_append, List.length_cons] at hd
    obtain ⟨d, rfl⟩ := Nat.exists_eq_add_of_le' (show 1 ≤ depth by omega)
    exact sequence_reads_cons (tagged_reads (leaf_reads h _)) (ih (by omega))
  | tuple ht hk h hs ih ihs =>
    rw [List.length_append, List.length_append, List.length_cons, length_be] at hd
    obtain ⟨d, rfl⟩ := Nat.exists_eq_add_of_le' (show 1 ≤ depth by omega)
    refine sequence_reads_cons (tagged_reads ?_) (ihs (by omega))
    obtain ⟨rfl, rfl⟩ | ⟨rfl, rfl⟩ := ht <;> exact binaryToTuple_reads (by decide) hk (ih (by omega))
  | list hk h ht hs ih iht ihs =>
    simp only [List.length_append, List.length_cons, length_be] at hd
    obtain ⟨d, rfl⟩ := Nat.exists_eq_add_of_le' (show 1 ≤ depth by omega)
    exact sequence_reads_cons
      (tagged_reads (binaryToList_reads hk (ih (by omega)) (sequence_reads_one (iht (by omega))))) (ihs (by omega))
  | closure h hf hs ih ihs =>
    simp only [List.length_append, List.length_cons] at hd
    obtain ⟨d, rfl⟩ := Nat.exists_eq_add_of_le' (show 1 ≤ depth by omega)
    exact sequence_reads_cons (tagged_reads (binaryToFun_reads h (ih (by omega)))) (ihs (by omega))

theorem External.pos {e : List UInt8} {w : Value} {ws : List Value} (h : External lib e (w :: ws)) : 0 < e.length := by
  cases h <;> exact Nat.succ_pos _

/-- What is read of a whole external term. -/
theorem binaryToTerm_external {e : List UInt8} {w : Value} (h : External lib e [w]) {depth : Nat}
    (hd : e.length ≤ depth) :
    binaryToTerm lib depth (tagVersion :: e) = .ok w := by
  have hr := Reader.rest_start (tagVersion :: e)
  have hread := sequence_reads_one (external_reads h hd) _ _ [] (by rw [List.append_nil]; exact hr.tail)
  have hlen := h.pos
  unfold binaryToTerm
  rw [List.length_cons, if_neg (by omega), readByte_ok hr]
  simp only [bind, Except.bind, Nat.zero_add] at hread ⊢
  simp only [hread, ne_eq, not_true_eq_false, if_false, pure, Except.pure, Nat.add_comm 1]

end CloudI.Api.Go
