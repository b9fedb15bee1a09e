import CloudI.Api.Go.RoundTrip

/-!
# Compressed terms of the Go API

`TermToBinary` at a level writes the size of the terms and what `zlib` makes of
them. `BinaryToTerm` makes a buffer of that size, calls `Read` of the
decompressor once, and rejects the data if the buffer is not filled.

* `binaryToTerms_after`: the decoder does the same at a later position;
* `compressed_iff`: the compressed data is the same term as the plain data if
  and only if the first `Read` gives all the bytes, and the plain data is a term.
-/

namespace CloudI.Api.Go

/-! ## The decoder at a later position -/

/-- The same reader, with a byte before its bytes. -/
def after (b : UInt8) (r : Reader) : Reader := ⟨b :: r.data, r.pos + 1⟩

/-- What is read of `after b r`. -/
def readAfter {α : Type} (b : UInt8) (x : α × Reader) : α × Reader := (x.1, after b x.2)

/-- What is decoded of `after b r`. -/
def later {α : Type} (b : UInt8) (x : Decoded α) : Decoded α := (x.1 + 1, x.2.1, after b x.2.2)

section After

variable {b : UInt8} {r : Reader} {i i' k n : Nat}

@[simp] theorem length_after : (after b r).data.length = r.data.length + 1 := rfl

@[simp] theorem pos_after : (after b r).pos = r.pos + 1 := rfl

@[simp] theorem len_after : (after b r).len = r.len := Nat.add_sub_add_right _ _ _

@[simp] theorem drop_after (n : Nat) : (after b r).data.drop (n + 1) = r.data.drop n := rfl

theorem seek_after (b : UInt8) (r : Reader) (n : Nat) : (after b r).seek n = after b (r.seek n) :=
  congrArg (Reader.mk _) (Nat.add_right_comm r.pos 1 n)

theorem readByte_after : readByte (after b r) = (readByte r).map (readAfter b) := by
  unfold readByte
  by_cases h : r.pos < r.data.length
  · rw [dif_pos h, dif_pos (by simpa using h), seek_after]
    rfl
  · rw [dif_neg h, dif_neg (by simpa using h)]
    rfl

theorem binaryRead_after : binaryRead (after b r) n = (binaryRead r n).map (readAfter b) := by
  unfold binaryRead
  by_cases h : r.data.length ≤ r.pos
  · rw [if_pos h, if_pos (by simpa using h)]
    rfl
  · rw [if_neg h, if_neg (by simpa using h)]
    by_cases hn : r.data.length < r.pos + n
    · rw [if_pos hn, if_pos (by rw [length_after, pos_after]; omega)]
      rfl
    · rw [if_neg hn, if_neg (by rw [length_after, pos_after]; omega), seek_after]
      rfl

theorem read_after : read (after b r) n = (read r n).map (readAfter b) := by
  unfold read
  by_cases h : r.data.length ≤ r.pos
  · rw [if_pos h, if_pos (by simpa using h)]
    rfl
  · rw [if_neg h, if_neg (by simpa using h)]
    simp only [pos_after, drop_after, seek_after]
    rfl

theorem readAt_after (hi : i' = i + 1) : readAt (after b r) n i' = readAt r n i := by
  subst hi
  unfold readAt
  by_cases h : r.data.length ≤ i
  · rw [if_pos h, if_pos (by simpa using h)]
  · rw [if_neg h, if_neg (by simpa using h)]
    rfl

/-- What is read between two positions. -/
theorem readAt_span {j j' : Nat} (hj : j' = j + 1) (hi : i' = i + 1) :
    readAt (after b r) (j' - i') i' = readAt r (j - i) i := by
  rw [readAt_after hi, hj, hi, Nat.add_sub_add_right]

theorem ok_later {α : Type} {a : α} (hi : i' = i + 1) :
    (.ok (i', a, after b r) : Except Fault (Decoded α)) = (Except.ok (i, a, r)).map (later b) := by
  rw [hi]
  rfl

theorem binaryToBytes_after (hi : i' = i + 1) :
    binaryToBytes k i' (after b r) = (binaryToBytes k i r).map (later b) := by
  subst hi
  refine bind_map_of binaryRead_after fun ⟨j, r⟩ => ?_
  refine map_ite_of (fun _ => ?_) fun _ => ok_later ?_
  · refine bind_map_of read_after fun ⟨value, r⟩ => ok_later ?_
    show i + 1 + k + j = i + k + j + 1
    omega
  · show i + 1 + k + j = i + k + j + 1
    omega

theorem binaryToName_after (hi : i' = i + 1) :
    binaryToName k i' (after b r) = (binaryToName k i r).map (later b) := by
  refine bind_map_of binaryRead_after fun ⟨j, r⟩ => ?_
  refine bind_map_of (s := id) ((readAt_after hi).trans (id_map _).symm) fun value => ?_
  refine congrArg Except.ok (Prod.ext ?_ (congrArg (Prod.mk value) (seek_after b r j)))
  show i' + k + j = i + k + j + 1
  omega

theorem binaryToAtom_after (hi : i' = i + 1) :
    binaryToAtom i' (after b r) = (binaryToAtom i r).map (later b) := by
  refine bind_map_of readByte_after fun ⟨tag, r⟩ => ?_
  have hname (k : Nat) : binaryToName k (i' + 1) (after b r) = (binaryToName k (i + 1) r).map (later b) :=
    binaryToName_after (by omega)
  dsimp only [readAfter]
  generalize Tag.ofByte tag = t
  rcases t with _ | t
  · rfl
  · cases t
    case atomExt => exact bind_map_of (hname 2) fun _ => rfl
    case atomUtf8Ext => exact bind_map_of (hname 2) fun _ => rfl
    case smallAtomExt => exact bind_map_of (hname 1) fun _ => rfl
    case smallAtomUtf8Ext => exact bind_map_of (hname 1) fun _ => rfl
    case atomCacheRef => exact bind_map_of readByte_after fun _ => ok_later (by omega)
    all_goals rfl

theorem binaryToPidFields_after (hi : i' = i + 1) :
    binaryToPidFields i' (after b r) = (binaryToPidFields i r).map (later b) := by
  refine bind_map_of (binaryToAtom_after hi) fun ⟨j, ⟨nodeTag, node⟩, r⟩ => ?_
  refine bind_map_of read_after fun ⟨id, r⟩ => ?_
  refine bind_map_of read_after fun ⟨serial, r⟩ => ?_
  refine bind_map_of readByte_after fun ⟨creation, r⟩ => ok_later ?_
  show j + 1 + 4 + 4 + 1 = j + 4 + 4 + 1 + 1
  omega

theorem binaryToPid_after (hi : i' = i + 1) :
    binaryToPid i' (after b r) = (binaryToPid i r).map (later b) := by
  refine bind_map_of readByte_after fun ⟨tag, r⟩ => ?_
  dsimp only [readAfter]
  generalize Tag.ofByte tag = t
  rcases t with _ | t
  · rfl
  · cases t
    case pidExt => exact binaryToPidFields_after (by omega)
    all_goals rfl

theorem binaryToSmallInteger_after (hi : i' = i + 1) :
    binaryToSmallInteger i' (after b r) = (binaryToSmallInteger i r).map (later b) :=
  bind_map_of readByte_after fun _ => ok_later (by omega)

theorem binaryToInt32_after (hi : i' = i + 1) :
    binaryToInt32 i' (after b r) = (binaryToInt32 i r).map (later b) :=
  bind_map_of binaryRead_after fun _ => ok_later (by omega)

theorem binaryToInteger_after (hi : i' = i + 1) :
    binaryToInteger i' (after b r) = (binaryToInteger i r).map (later b) := by
  refine bind_map_of readByte_after fun ⟨tag, r⟩ => ?_
  dsimp only [readAfter]
  generalize Tag.ofByte tag = t
  rcases t with _ | t
  · rfl
  · cases t
    case smallIntegerExt => exact binaryToSmallInteger_after (by omega)
    case integerExt => exact binaryToInt32_after (by omega)
    all_goals rfl

theorem binaryToNodeId_after (make : UInt8 → List UInt8 → List UInt8 → UInt8 → Value) (hi : i' = i + 1) :
    binaryToNodeId make i' (after b r) = (binaryToNodeId make i r).map (later b) := by
  refine bind_map_of (binaryToAtom_after hi) fun ⟨j, ⟨nodeTag, node⟩, r⟩ => ?_
  refine bind_map_of read_after fun ⟨id, r⟩ => ?_
  refine bind_map_of readByte_after fun ⟨creation, r⟩ => ok_later ?_
  show j + 1 + 4 + 1 = j + 4 + 1 + 1
  omega

theorem bignumLoop_after (bignum : Nat) (hi : i' = i + 1) :
    bignumLoop (after b r) i' n bignum = bignumLoop r i n bignum := by
  induction n generalizing bignum with
  | zero => rfl
  | succ n ih =>
    rw [bignumLoop, bignumLoop, readAt_after (i := i + (n + 1)) (by omega)]
    exact congrArg _ (funext fun digit => ih _)

theorem binaryToBignum_after (hi : i' = i + 1) :
    binaryToBignum k i' (after b r) = (binaryToBignum k i r).map (later b) := by
  refine bind_map_of binaryRead_after fun ⟨j, r⟩ => ?_
  refine bind_map_of readByte_after fun ⟨sign, r⟩ => ?_
  refine bind_map_of (s := id) ((bignumLoop_after 0 (by omega)).trans (id_map _).symm) fun bignum => ?_
  refine congrArg Except.ok (Prod.ext ?_ (congrArg (Prod.mk _) (seek_after b r j)))
  show i' + k + 1 + j = i + k + 1 + j + 1
  omega

theorem binaryToExport_after (hi : i' = i + 1) :
    binaryToExport i' (after b r) = (binaryToExport i r).map (later b) := by
  refine bind_map_of (binaryToAtom_after hi) fun ⟨j, _, r⟩ => ?_
  refine bind_map_of (binaryToAtom_after rfl) fun ⟨j, _, r⟩ => ?_
  refine bind_map_of readByte_after fun ⟨arityTag, r⟩ => ?_
  refine map_ite_of (fun _ => rfl) fun _ => ?_
  refine bind_map_of readByte_after fun ⟨arity, r⟩ => ?_
  refine bind_map_of (s := id) ((readAt_span (by show j + 1 + 1 + 1 = j + 1 + 1 + 1; rfl) hi).trans (id_map _).symm)
      fun value => ok_later ?_
  show j + 1 + 1 + 1 = j + 1 + 1 + 1
  rfl

theorem binaryToNewReference_after (hi : i' = i + 1) :
    binaryToNewReference i' (after b r) = (binaryToNewReference i r).map (later b) := by
  refine bind_map_of binaryRead_after fun ⟨j, r⟩ => ?_
  refine bind_map_of (binaryToAtom_after (i := i + 2) (by omega)) fun ⟨i, ⟨nodeTag, node⟩, r⟩ => ?_
  refine bind_map_of readByte_after fun ⟨creation, r⟩ => ?_
  refine map_ite_of (fun _ => ?_) fun _ => ?_
  · refine bind_map_of read_after fun ⟨id, r⟩ => ok_later ?_
    show i + 1 + 1 + j * 4 % 65536 = i + 1 + j * 4 % 65536 + 1
    omega
  · refine ok_later ?_
    show i + 1 + 1 + j * 4 % 65536 = i + 1 + j * 4 % 65536 + 1
    omega

section Calls

variable {terms : Nat → Reader → Except Fault (Decoded Value)}
  (hterms : ∀ i r, terms (i + 1) (after b r) = (terms i r).map (later b))
include hterms

theorem binaryToTermSequence_after (hi : i' = i + 1) :
    binaryToTermSequence terms i' n (after b r) = (binaryToTermSequence terms i n r).map (later b) := by
  subst hi
  induction n generalizing i r with
  | zero => rfl
  | succ n ih =>
    refine bind_map_of (hterms i r) fun ⟨j, element, r⟩ => ?_
    exact bind_map_of ih fun ⟨k, sequence, r⟩ => ok_later rfl

theorem binaryToTuple_after (hi : i' = i + 1) :
    binaryToTuple terms k i' (after b r) = (binaryToTuple terms k i r).map (later b) := by
  refine bind_map_of binaryRead_after fun ⟨length, r⟩ => ?_
  exact bind_map_of (binaryToTermSequence_after hterms (i := i + k) (by omega)) fun ⟨j, tmp, r⟩ => ok_later rfl

theorem binaryToList_after (hi : i' = i + 1) :
    binaryToList terms i' (after b r) = (binaryToList terms i r).map (later b) := by
  refine bind_map_of binaryRead_after fun ⟨length, r⟩ => ?_
  refine bind_map_of (binaryToTermSequence_after hterms (i := i + 4) (by omega)) fun ⟨j, tmp, r⟩ => ?_
  exact bind_map_of (hterms j r) fun ⟨k, tail, r⟩ => ok_later rfl

theorem binaryToPairs_after (hi : i' = i + 1) :
    binaryToPairs terms i' n (after b r) = (binaryToPairs terms i n r).map (later b) := by
  subst hi
  cases n with
  | zero => rfl
  | succ n =>
    refine bind_map_of (hterms i r) fun ⟨j, key, r⟩ => ?_
    refine map_ite_of (fun _ => rfl) fun _ => ?_
    exact bind_map_of (hterms j r) fun _ => rfl

theorem binaryToMap_after (hi : i' = i + 1) :
    binaryToMap terms i' (after b r) = (binaryToMap terms i r).map (later b) :=
  bind_map_of binaryRead_after fun _ => binaryToPairs_after hterms (by omega)

theorem binaryToFun_after (hi : i' = i + 1) :
    binaryToFun terms i' (after b r) = (binaryToFun terms i r).map (later b) := by
  refine bind_map_of binaryRead_after fun ⟨numfree, r⟩ => ?_
  refine bind_map_of (binaryToPid_after (i := i + 4) (by omega)) fun ⟨j, _, r⟩ => ?_
  refine bind_map_of (binaryToAtom_after rfl) fun ⟨j, _, r⟩ => ?_
  refine bind_map_of (binaryToInteger_after rfl) fun ⟨j, _, r⟩ => ?_
  refine bind_map_of (binaryToInteger_after rfl) fun ⟨j, _, r⟩ => ?_
  refine bind_map_of (binaryToTermSequence_after hterms rfl) fun ⟨j, _, r⟩ => ?_
  exact bind_map_of (s := id) ((readAt_span rfl hi).trans (id_map _).symm) fun value => ok_later rfl

omit hterms in
/-- What is decompressed is decoded from its own start. -/
theorem binaryToCompressed_after (lib : Library) (hi : i' = i + 1) :
    binaryToCompressed terms lib i' (after b r) = (binaryToCompressed terms lib i r).map (later b) := by
  refine bind_map_of binaryRead_after fun ⟨sizeUncompressed, r⟩ => ?_
  refine map_ite_of (fun _ => rfl) fun _ => ?_
  refine bind_map_of (s := id) (id_map _).symm fun ⟨dataUncompressed, taken⟩ => ?_
  refine map_ite_of (fun _ => rfl) fun _ => ?_
  refine bind_map_of (s := id) (id_map _).symm fun ⟨iNew, term, _⟩ => ?_
  refine map_ite_of (fun _ => rfl) fun _ => ?_
  refine congrArg Except.ok (Prod.ext ?_ (congrArg (Prod.mk term) (seek_after b r taken)))
  show i' + 4 + (after b r).len = i + 4 + r.len + 1
  rw [len_after]
  omega

theorem binaryToTermsOf_after (lib : Library) (tag : Tag) (hi : i' = i + 1) :
    binaryToTermsOf terms lib tag i' (after b r) = (binaryToTermsOf terms lib tag i r).map (later b) := by
  cases tag with
  | newFloatExt => exact bind_map_of binaryRead_after fun _ => ok_later (by omega)
  | bitBinaryExt =>
    refine bind_map_of binaryRead_after fun ⟨j, r⟩ => ?_
    refine bind_map_of readByte_after fun ⟨bits, r⟩ => ?_
    refine map_ite_of (fun _ => ?_) fun _ => ok_later ?_
    · refine bind_map_of read_after fun ⟨value, r⟩ => ok_later ?_
      show i' + 4 + 1 + j = i + 4 + 1 + j + 1
      omega
    · show i' + 4 + 1 + j = i + 4 + 1 + j + 1
      omega
  | atomCacheRef => exact bind_map_of readByte_after fun _ => ok_later (by omega)
  | smallIntegerExt => exact binaryToSmallInteger_after hi
  | integerExt => exact binaryToInt32_after hi
  | floatExt =>
    refine bind_map_of read_after fun ⟨valueRaw, r⟩ => ?_
    exact bind_map_of (s := id) (id_map _).symm fun value => ok_later (by omega)
  | atomExt | stringExt | atomUtf8Ext => exact bind_map_of (binaryToBytes_after hi) fun _ => rfl
  | binaryExt | newFunExt => exact bind_map_of (binaryToBytes_after hi) fun _ => rfl
  | smallAtomExt | smallAtomUtf8Ext => exact bind_map_of (binaryToBytes_after hi) fun _ => rfl
  | referenceExt => exact binaryToNodeId_after _ hi
  | portExt => exact binaryToNodeId_after _ hi
  | pidExt => exact binaryToPidFields_after hi
  | smallTupleExt => exact binaryToTuple_after hterms hi
  | largeTupleExt => exact binaryToTuple_after hterms hi
  | nilExt => exact ok_later hi
  | listExt => exact binaryToList_after hterms hi
  | smallBigExt => exact binaryToBignum_after hi
  | largeBigExt => exact binaryToBignum_after hi
  | exportExt => exact binaryToExport_after hi
  | newReferenceExt => exact binaryToNewReference_after hi
  | mapExt => exact binaryToMap_after hterms hi
  | funExt => exact binaryToFun_after hterms hi
  | compressedZlib => exact binaryToCompressed_after lib hi

end Calls

/-- The decoder keeps its position in `i` and in the reader, and does the same one byte later. -/
theorem binaryToTerms_after (lib : Library) (depth i : Nat) (r : Reader) :
    binaryToTerms lib depth (i + 1) (after b r) = (binaryToTerms lib depth i r).map (later b) := by
  induction depth generalizing i r with
  | zero => rfl
  | succ depth ih =>
    refine bind_map_of readByte_after fun ⟨tag, r⟩ => ?_
    dsimp only [readAfter]
    rcases Tag.ofByte tag with _ | t
    · rfl
    · exact binaryToTermsOf_after ih lib t rfl

end After

/-! ## The compressed data and the plain data -/

/-- What `compress/zlib` documents: decompression undoes compression, and a `Read` into a buffer gives a first part of
what was compressed, which can be less than the buffer holds. -/
structure Library.Inflates (lib : Library) : Prop where
  zlibRead : ∀ level data compressed n, lib.zlibWrite level data = .ok compressed →
    ∃ m ≤ n, ∃ taken, lib.zlibRead compressed n = .ok (data.take m, taken)

variable {lib : Library}

/-- The bytes are one term. -/
def Parses (lib : Library) (bytes : List UInt8) (t : Value) : Prop :=
  ∃ depth r, binaryToTerms lib depth 0 ⟨bytes, 0⟩ = .ok (bytes.length, t, r)

/-- `BinaryToTerm` accepts the data and returns the value, if it can call itself deep enough. -/
def Decodes (lib : Library) (data : List UInt8) (t : Value) : Prop := ∃ depth, binaryToTerm lib depth data = .ok t

theorem parses_ne_nil {t : Value} : ¬Parses lib [] t := by
  rintro ⟨depth, r, h⟩
  cases depth with
  | zero => cases h
  | succ depth => cases h

/-- What follows the version is decoded one byte later. -/
theorem binaryToTerm_eq {bytes : List UInt8} (h : bytes ≠ []) (depth : Nat) :
    binaryToTerm lib depth (tagVersion :: bytes) = (binaryToTerms lib depth 0 ⟨bytes, 0⟩ >>= fun x =>
      if x.1 ≠ bytes.length then .error (.parseError "unparsed data") else .ok x.2.1) := by
  have hlen := List.length_pos_iff.mpr h
  rw [binaryToTerm, if_neg (by rw [List.length_cons]; omega), bind_ok (readByte_ok (Reader.rest_start _))]
  show (if tagVersion ≠ tagVersion then _ else binaryToTerms lib depth (0 + 1) (after tagVersion ⟨bytes, 0⟩) >>= _) = _
  rw [if_neg (not_not.mpr rfl), binaryToTerms_after]
  cases binaryToTerms lib depth 0 ⟨bytes, 0⟩ with
  | error e => rfl
  | ok x =>
    show (if x.1 + 1 ≠ bytes.length + 1 then _ else _) = if x.1 ≠ bytes.length then _ else _
    by_cases hx : x.1 = bytes.length
    · rw [if_neg (by omega), if_neg (by omega)]
      rfl
    · rw [if_pos (by omega), if_pos hx]

theorem decodes_plain {bytes : List UInt8} {t : Value} : Decodes lib (tagVersion :: bytes) t ↔ Parses lib bytes t := by
  by_cases hb : bytes = []
  · subst hb
    exact ⟨fun ⟨_, h⟩ => (nomatch h), fun h => (parses_ne_nil h).elim⟩
  · refine exists_congr fun depth => ?_
    rw [binaryToTerm_eq hb]
    constructor
    · intro h
      obtain ⟨⟨i, w, r⟩, hx, h⟩ := bind_eq_ok h
      split at h
      · cases h
      · rename_i hi
        cases h
        exact ⟨r, not_not.mp hi ▸ hx⟩
    · rintro ⟨r, h⟩
      rw [bind_ok h]
      exact if_neg (not_not.mpr rfl)

section Compressed

variable {size taken : Nat} {bytes compressed : List UInt8}

/-- The compressed data behind its tag, where the one `Read` gives `bytes`. -/
theorem binaryToCompressed_eq (terms : Nat → Reader → Except Fault (Decoded Value))
    (h : lib.zlibRead compressed (size % 256 ^ 4) = .ok (bytes, taken)) :
    binaryToCompressed terms lib 1 ⟨Tag.compressedZlib.byte :: (be 4 size ++ compressed), 1⟩ =
      if size % 256 ^ 4 = 0 then .error (.parseError "compressed data null")
      else if size % 256 ^ 4 ≠ bytes.length then .error (.parseError "compression corrupt")
      else terms 0 ⟨bytes, 0⟩ >>= fun x =>
        if x.1 ≠ size % 256 ^ 4 then .error (.parseError "unparsed data")
        else .ok (5 + compressed.length, x.2.1,
          ⟨Tag.compressedZlib.byte :: (be 4 size ++ compressed), 5 + taken⟩) := by
  have hread : binaryRead ⟨Tag.compressedZlib.byte :: (be 4 size ++ compressed), 1⟩ 4 =
      .ok (size % 256 ^ 4, ⟨Tag.compressedZlib.byte :: (be 4 size ++ compressed), 5⟩) := by
    have hlen : (Tag.compressedZlib.byte :: (be 4 size ++ compressed)).length = 5 + compressed.length := by
      rw [List.length_cons, List.length_append, length_be]
      omega
    rw [binaryRead, if_neg (by rw [hlen]; show ¬_ ≤ 1; omega), if_neg (by rw [hlen]; show ¬_ < 1 + 4; omega)]
    show Except.ok (ofBe ((be 4 size ++ compressed).take 4), _) = _
    rw [List.take_left' (length_be 4 size), ofBe_be]
    rfl
  have hdrop : (Tag.compressedZlib.byte :: (be 4 size ++ compressed)).drop 5 = compressed := by
    rw [List.drop_succ_cons, List.drop_left' (length_be 4 size)]
  have hlen : Reader.len ⟨Tag.compressedZlib.byte :: (be 4 size ++ compressed), 5⟩ = compressed.length := by
    rw [Reader.len, ← List.length_drop, hdrop]
  rw [binaryToCompressed, bind_ok hread]
  dsimp only
  rw [hdrop, hlen, bind_ok h]
  rfl

/-- What is decoded of compressed data is what the one `Read` gives, if it fills the buffer. -/
theorem parses_compressed {t : Value} (h : lib.zlibRead compressed (size % 256 ^ 4) = .ok (bytes, taken)) :
    Parses lib (Tag.compressedZlib.byte :: (be 4 size ++ compressed)) t ↔
      bytes.length = size % 256 ^ 4 ∧ Parses lib bytes t := by
  have hstep (depth : Nat) : binaryToTerms lib (depth + 1) 0 ⟨Tag.compressedZlib.byte :: (be 4 size ++ compressed), 0⟩ =
      binaryToCompressed (binaryToTerms lib depth) lib 1 ⟨Tag.compressedZlib.byte :: (be 4 size ++ compressed), 1⟩ := by
    rw [binaryToTerms, bind_ok (readByte_ok (Reader.rest_start _))]
    dsimp only
    rw [Tag.ofByte_byte]
    rfl
  constructor
  · rintro ⟨depth, r, hx⟩
    obtain ⟨depth, rfl⟩ : ∃ d, depth = d + 1 := Nat.exists_eq_succ_of_ne_zero fun h0 => by rw [h0] at hx; cases hx
    rw [hstep, binaryToCompressed_eq _ h] at hx
    split at hx
    · cases hx
    · split at hx
      · cases hx
      · rename_i hlen
        obtain ⟨⟨i, w, r'⟩, hw, hx⟩ := bind_eq_ok hx
        split at hx
        · cases hx
        · rename_i hi
          rw [Except.ok.injEq, Prod.mk.injEq, Prod.mk.injEq] at hx
          obtain ⟨-, rfl, -⟩ := hx
          have hlen := (not_not.mp hlen).symm
          exact ⟨hlen, depth, r', hw.trans (by rw [hlen]; exact congrArg (fun n => Except.ok (n, _)) (not_not.mp hi))⟩
  · rintro ⟨hlen, hp⟩
    have hpos : size % 256 ^ 4 ≠ 0 := fun h0 =>
      parses_ne_nil (List.length_eq_zero_iff.mp (hlen.trans h0) ▸ hp)
    obtain ⟨depth, r, hx⟩ := hp
    refine ⟨depth + 1, ⟨Tag.compressedZlib.byte :: (be 4 size ++ compressed), 5 + taken⟩, ?_⟩
    rw [hstep, binaryToCompressed_eq _ h, if_neg hpos, if_neg (not_not.mpr hlen.symm), bind_ok hx]
    refine (if_neg (not_not.mpr hlen)).trans (congrArg (fun n => Except.ok (n, _)) ?_)
    rw [List.length_cons, List.length_append, length_be]
    omega

end Compressed

/-- The size that stands in the compressed data. -/
def sizeUncompressed (data : List UInt8) : Nat := ofBe ((data.drop 2).take 4)

/-- The first `Read` fills the buffer. -/
def FillsBuffer (lib : Library) (data : List UInt8) : Prop :=
  ∃ bytes taken, lib.zlibRead (data.drop 6) (sizeUncompressed data) = .ok (bytes, taken) ∧
    bytes.length = sizeUncompressed data

/-- The compressed data of a value is the same term as its plain data iff the plain data is a term and the first
`Read` gives as many bytes as the size says. A size of 2^32 or more is written without its upper bits, and then the
term has to end where the buffer does. -/
theorem compressed_iff (hlib : lib.Inflates) {v : Value} {level : Int} (hlevel : 0 ≤ level ∧ level ≤ 9)
    {data : List UInt8} (h : termToBinary lib v level = .ok data) :
    ∃ terms, termToBinary lib v (-1) = .ok (tagVersion :: terms) ∧
      ((∃ t, Decodes lib data t ∧ Decodes lib (tagVersion :: terms) t) ↔
        FillsBuffer lib data ∧ ∃ t, Decodes lib (tagVersion :: terms) t ∧
          (256 ^ 4 ≤ terms.length → Parses lib (terms.take (sizeUncompressed data)) t)) := by
  rw [termToBinary, if_neg (by omega)] at h
  obtain ⟨terms, hterms, h⟩ := bind_eq_ok h
  rw [if_neg (by omega)] at h
  obtain ⟨compressed, hz, h⟩ := bind_eq_ok h
  obtain rfl : tagVersion :: Tag.compressedZlib.byte :: (be 4 terms.length ++ compressed) = data := Except.ok.inj h
  have hsize : sizeUncompressed (tagVersion :: Tag.compressedZlib.byte :: (be 4 terms.length ++ compressed)) =
      terms.length % 256 ^ 4 := by
    show ofBe ((be 4 terms.length ++ compressed).take 4) = _
    rw [List.take_left' (length_be 4 _), ofBe_be]
  have hdrop : (tagVersion :: Tag.compressedZlib.byte :: (be 4 terms.length ++ compressed)).drop 6 = compressed :=
    List.drop_left' (length_be 4 _)
  obtain ⟨m, hm, taken, hread⟩ := hlib.zlibRead level terms compressed (terms.length % 256 ^ 4) hz
  have hle := Nat.mod_le terms.length (256 ^ 4)
  have htake : (terms.take m).length = m := List.length_take_of_le (hm.trans hle)
  have hfills : FillsBuffer lib (tagVersion :: Tag.compressedZlib.byte :: (be 4 terms.length ++ compressed)) ↔
      m = terms.length % 256 ^ 4 := by
    rw [FillsBuffer, hsize, hdrop, hread]
    constructor
    · rintro ⟨_, _, hb, hlen⟩
      cases hb
      exact htake.symm.trans hlen
    · intro h
      exact ⟨_, _, rfl, htake.trans h⟩
  refine ⟨terms, ?_, ?_⟩
  · rw [termToBinary, if_neg (by decide), bind_ok hterms, if_pos rfl]
    rfl
  · simp only [decodes_plain, parses_compressed hread, hfills, hsize, htake]
    constructor
    · rintro ⟨t, ⟨hfill, hp⟩, hplain⟩
      exact ⟨hfill, t, hplain, fun _ => hfill ▸ hp⟩
    · rintro ⟨hfill, t, hplain, hlarge⟩
      refine ⟨t, ⟨hfill, ?_⟩, hplain⟩
      rw [hfill]
      by_cases hlt : terms.length < 256 ^ 4
      · rwa [Nat.mod_eq_of_lt hlt, List.take_length]
      · exact hlarge (not_lt.mp hlt)

/-! ## A decompressor with a window -/

/-- The checksum behind the blocks. -/
def adler32 (data : List UInt8) : Nat :=
  let sums := data.foldl (fun s b => ((s.1 + b.toNat) % 65521, (s.2 + s.1 + b.toNat) % 65521)) (1, 0)
  sums.2 * 65536 + sums.1

/-- What `zlib` writes at level 0 for data of one block: the block, an empty last block, and the checksum. -/
def storedBlock (data : List UInt8) : List UInt8 :=
  [120, 1, 0, .ofNat data.length, .ofNat (data.length / 256), .ofNat (255 - data.length),
    .ofNat (255 - data.length / 256)] ++ (data ++ ([1, 0, 0, 255, 255] ++ be 4 (adler32 data)))

/-- `zlib` for data of one block at level 0. A `Read` gives what is in the window, of 32768 bytes. -/
def storedLibrary : Library where
  parseFloat _ := .error .eof
  float64 _ := 0
  zlibRead
    | 120 :: 1 :: 0 :: l :: h :: _ :: _ :: data, n =>
      .ok ((data.take (l.toNat + 256 * h.toNat)).take (min n 32768), 18 + (l.toNat + 256 * h.toNat))
    | _, _ => .error .eof
  zlibWrite level data := if level = 0 ∧ data.length ≤ 65535 then .ok (storedBlock data) else .error .eof

theorem storedLibrary_read {data : List UInt8} (h : data.length ≤ 65535) (n : Nat) :
    storedLibrary.zlibRead (storedBlock data) n = .ok (data.take (min n 32768), 18 + data.length) := by
  have hlen : (UInt8.ofNat data.length).toNat + 256 * (UInt8.ofNat (data.length / 256)).toNat = data.length := by
    rw [UInt8.toNat_ofNat', UInt8.toNat_ofNat']
    omega
  show Except.ok ((List.take (_ + 256 * _) (data ++ _)).take _, 18 + (_ + 256 * _)) = _
  rw [hlen, List.take_left]

theorem storedLibrary_inflates : storedLibrary.Inflates := by
  refine ⟨fun level data compressed n h => ?_⟩
  by_cases hd : level = 0 ∧ data.length ≤ 65535
  · obtain rfl := Except.ok.inj ((if_pos hd).symm.trans h)
    exact ⟨min n 32768, Nat.min_le_left _ _, 18 + data.length, storedLibrary_read hd.2 n⟩
  · cases (if_neg hd).symm.trans h

/-- Two bytes at level 0. -/
theorem compressed_iff_small :
    ∃ terms, termToBinary storedLibrary (.uint8 5) (-1) = .ok (tagVersion :: terms) ∧
      ((∃ t, Decodes storedLibrary
          [131, 80, 0, 0, 0, 2, 120, 1, 0, 2, 0, 253, 255, 97, 5, 1, 0, 0, 255, 255, 0, 201, 0, 103] t ∧
          Decodes storedLibrary (tagVersion :: terms) t) ↔
        FillsBuffer storedLibrary
            [131, 80, 0, 0, 0, 2, 120, 1, 0, 2, 0, 253, 255, 97, 5, 1, 0, 0, 255, 255, 0, 201, 0, 103] ∧
          ∃ t, Decodes storedLibrary (tagVersion :: terms) t ∧
              (256 ^ 4 ≤ terms.length → Parses storedLibrary (terms.take
            (sizeUncompressed
              [131, 80, 0, 0, 0, 2, 120, 1, 0, 2, 0, 253, 255, 97, 5, 1, 0, 0, 255, 255, 0, 201, 0, 103])) t)) :=
  @compressed_iff _ storedLibrary_inflates (.uint8 5) 0 (by decide) _ rfl

/-- A binary of 32768 bytes is more than the window holds: it is encoded, and decoded if it is not compressed, but its
compressed data is rejected. -/
theorem compressed_rejected :
    ∃ data plain, termToBinary storedLibrary (.bytes (List.replicate 32768 0)) 0 = .ok data ∧
      termToBinary storedLibrary (.bytes (List.replicate 32768 0)) (-1) = .ok plain ∧
      Decodes storedLibrary plain (.otpErlangBinary (List.replicate 32768 0) 8) ∧
      ∀ t, ¬Decodes storedLibrary data t := by
  have hv : (List.replicate 32768 (0 : UInt8)).length = 32768 := List.length_replicate
  generalize List.replicate 32768 (0 : UInt8) = value at hv
  have hterms : termsToBinary storedLibrary (.bytes value) =
      .ok (Tag.binaryExt.byte :: (be 4 value.length ++ value)) := by
    rw [termsToBinary, binaryObjectToBinary, if_neg (by decide), if_pos (by omega), if_neg (by decide)]
    rfl
  set terms := Tag.binaryExt.byte :: (be 4 value.length ++ value) with hset
  have hlen : terms.length = 32773 := by
    rw [hset, List.length_cons, List.length_append, length_be, hv]
  refine ⟨tagVersion :: Tag.compressedZlib.byte :: (be 4 terms.length ++ storedBlock terms), tagVersion :: terms,
      ?_, ?_,
    ⟨_, binaryToTerm_external (Leaf.bytes .binary (by rw [hv]; decide)).external (Nat.le_refl _)⟩, ?_⟩
  · rw [termToBinary, if_neg (by decide), bind_ok hterms, if_neg (by decide)]
    exact bind_ok (if_pos ⟨rfl, by omega⟩) _
  · rw [termToBinary, if_neg (by decide), bind_ok hterms, if_pos rfl]
    rfl
  · intro t h
    have hread := @storedLibrary_read terms (by omega) (terms.length % 256 ^ 4)
    have hfull := ((parses_compressed hread).mp (decodes_plain.mp h)).1
    rw [List.length_take, hlen] at hfull
    exact absurd hfull (by decide)

end CloudI.Api.Go
