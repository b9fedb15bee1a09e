import CloudI.Api.Go.Reencode
import CloudI.Api.Lengths
import CloudI.Framework.Calls

/-!
# What the Go decoder does with malformed data

`body` is what `binaryToTerms` does at a position, with its calls of itself
(`binaryToTerms_eq`). It panics where a pair is put into a map, or where the
stack ends (`panics_iff`). What it accepts has all that the lengths say, if none
of them is more than its integers hold (`accepted_lengths_iff`).
-/

namespace CloudI.Api.Go

open Calling

/-- A position: the index that the decoder keeps, and the reader. -/
abbrev Place := Nat × Reader

abbrev TermCall (α : Type) := Calling Fault Place (Decoded Value) α

/-- The position behind what was read. -/
def next (_ : Place) (r : Decoded Value) : Place := (r.1, r.2.2)

/-- What was made at each position. -/
def values (rs : List (Decoded Value)) : List Value := rs.map fun r => r.2.1

/-- What stands before the free variables of a function: their number. -/
def binaryToFunStart (i : Nat) (reader : Reader) : Except Fault (Decoded Nat) := do
  let (numfree, reader) ← binaryRead reader 4
  let i := i + 4
  let (i, _, reader) ← binaryToPid i reader
  let (i, _, reader) ← binaryToAtom i reader
  let (i, _, reader) ← binaryToInteger i reader
  let (i, _, reader) ← binaryToInteger i reader
  return (i, numfree, reader)

variable (lib : Library)

/-- The position behind compressed data, and what it is decompressed to. -/
def uncompress (i : Nat) (reader : Reader) : Except Fault (Decoded (List UInt8)) := do
  let (sizeUncompressed, reader) ← binaryRead reader 4
  if sizeUncompressed = 0 then .error (.parseError "compressed data null")
  else
    let (dataUncompressed, taken) ← lib.zlibRead (reader.data.drop reader.pos) sizeUncompressed
    if sizeUncompressed ≠ dataUncompressed.length then .error (.parseError "compression corrupt")
    else return (i + 4 + reader.len, dataUncompressed, reader.seek taken)

/-- What is not called. -/
def uncalled (_ : Nat) (_ : Reader) : Except Fault (Decoded Value) := .error .eof

def tupleBody (k i : Nat) (reader : Reader) : TermCall (Decoded Value) := do
  let (length, reader) ← done (binaryRead reader k)
  let (p, rs) ← sequence next length (i + k, reader)
  return (p.1, .otpErlangTuple (values rs), p.2)

def pairsBody : Nat → Nat → Reader → TermCall (Decoded Value)
  | i, 0, reader => pure (i, .otpErlangMap [], reader)
  | i, _ + 1, reader => do
    let (i, key, reader) ← ask (i, reader)
    if key.comparable = false then done (.error (.parseError "map key not comparable"))
    else
      let _ ← ask (i, reader)
      done (.error (.panic "assignment to entry in nil map"))

def bodyOf : Tag → Nat → Reader → TermCall (Decoded Value)
  | .smallTupleExt, i, reader => tupleBody 1 i reader
  | .largeTupleExt, i, reader => tupleBody 4 i reader
  | .listExt, i, reader => do
    let (length, reader) ← done (binaryRead reader 4)
    let (p, rs) ← sequence next length (i + 4, reader)
    let (i, tail, reader) ← ask p
    return (i, listWithTail (values rs) tail, reader)
  | .mapExt, i, reader => do
    let (length, reader) ← done (binaryRead reader 4)
    pairsBody (i + 4) length reader
  | .funExt, i, reader => do
    let (i5, numfree, reader) ← done (binaryToFunStart i reader)
    let (p, _) ← sequence next numfree (i5, reader)
    let value ← done (readAt p.2 (p.1 - i) i)
    return (p.1, .otpErlangFunction Tag.funExt.byte value, p.2)
  | .compressedZlib, i, reader => do
    let (j, dataUncompressed, reader) ← done (uncompress lib i reader)
    let (iNew, term, _) ← ask (0, ⟨dataUncompressed, 0⟩)
    if iNew ≠ dataUncompressed.length then done (.error (.parseError "unparsed data")) else return (j, term, reader)
  | tag, i, reader => done (binaryToTermsOf uncalled lib tag i reader)

def body (p : Place) : TermCall (Decoded Value) := do
  let (tag, reader) ← done (readByte p.2)
  match Tag.ofByte tag with
  | some tag => bodyOf lib tag (p.1 + 1) reader
  | none => done (.error (.parseError "invalid tag"))

variable {lib} {f : Place → Except Fault (Decoded Value)} {terms : Nat → Reader → Except Fault (Decoded Value)}

/-! ## The decoder and its calls -/

section Same

variable (hf : ∀ i r, terms i r = f (i, r))
include hf

theorem sequence_run (n i : Nat) (r : Reader) :
    binaryToTermSequence terms i n r =
      (sequence next n (i, r)).run f >>= fun x => .ok (x.1.1, values x.2, x.1.2) := by
  induction n generalizing i r with
  | zero => rfl
  | succ n ih =>
    rw [binaryToTermSequence, hf, sequence_succ, run_bind, run_ask]
    cases f (i, r) with
    | error e => rfl
    | ok x =>
      show (binaryToTermSequence terms x.1 n x.2.2 >>= _) = ((sequence next n (x.1, x.2.2) >>= _).run f >>= _)
      rw [ih, run_bind]
      cases (sequence next n (x.1, x.2.2)).run f with
      | error e => rfl
      | ok y => rfl

theorem tuple_run (k i : Nat) (r : Reader) : binaryToTuple terms k i r = (tupleBody k i r).run f := by
  rw [binaryToTuple, tupleBody, run_bind, run_done]
  cases binaryRead r k with
  | error e => rfl
  | ok x =>
    show (binaryToTermSequence terms (i + k) x.1 x.2 >>= _) = (sequence next x.1 (i + k, x.2) >>= _).run f
    rw [sequence_run hf, run_bind]
    cases (sequence next x.1 (i + k, x.2)).run f with
    | error e => rfl
    | ok y => rfl

theorem list_run (i : Nat) (r : Reader) : binaryToList terms i r = (bodyOf lib .listExt i r).run f := by
  rw [binaryToList, bodyOf, run_bind, run_done]
  cases binaryRead r 4 with
  | error e => rfl
  | ok x =>
    show (binaryToTermSequence terms (i + 4) x.1 x.2 >>= _) = (sequence next x.1 (i + 4, x.2) >>= _).run f
    rw [sequence_run hf, run_bind]
    cases (sequence next x.1 (i + 4, x.2)).run f with
    | error e => rfl
    | ok y =>
      show (terms y.1.1 y.1.2 >>= _) = (ask y.1 >>= _).run f
      rw [hf, run_bind, run_ask]
      cases f (y.1.1, y.1.2) with
      | error e => rfl
      | ok tail => rfl

theorem pairs_run (n i : Nat) (r : Reader) : binaryToPairs terms i n r = (pairsBody i n r).run f := by
  cases n with
  | zero => rfl
  | succ n =>
    rw [binaryToPairs, pairsBody, hf, run_bind, run_ask]
    cases f (i, r) with
    | error e => rfl
    | ok key =>
      show (if key.2.1.comparable = false then _ else _) =
        (if key.2.1.comparable = false then _ else _ : TermCall _).run f
      split
      · rfl
      · show (terms key.1 key.2.2 >>= _) = (ask (key.1, key.2.2) >>= _).run f
        rw [hf, run_bind, run_ask]
        cases f (key.1, key.2.2) with
        | error e => rfl
        | ok value => rfl

theorem map_run (i : Nat) (r : Reader) : binaryToMap terms i r = (bodyOf lib .mapExt i r).run f := by
  rw [binaryToMap, bodyOf, run_bind, run_done]
  cases binaryRead r 4 with
  | error e => rfl
  | ok x => exact pairs_run hf x.1 (i + 4) x.2

omit hf in
theorem fun_start (i : Nat) (r : Reader) :
    binaryToFun terms i r = binaryToFunStart i r >>= fun x => do
      let (i6, _, reader) ← binaryToTermSequence terms x.1 x.2.1 x.2.2
      let value ← readAt reader (i6 - i) i
      return (i6, .otpErlangFunction Tag.funExt.byte value, reader) := by
  simp only [binaryToFun, binaryToFunStart, bind_assoc, pure_bind]

theorem fun_run (i : Nat) (r : Reader) : binaryToFun terms i r = (bodyOf lib .funExt i r).run f := by
  rw [fun_start, bodyOf, run_bind, run_done]
  cases binaryToFunStart i r with
  | error e => rfl
  | ok x =>
    show (binaryToTermSequence terms x.1 x.2.1 x.2.2 >>= _) = (sequence next x.2.1 (x.1, x.2.2) >>= _).run f
    rw [sequence_run hf, run_bind]
    cases (sequence next x.2.1 (x.1, x.2.2)).run f with
    | error e => rfl
    | ok y =>
      show (readAt y.1.2 (y.1.1 - i) i >>= _) = (done (readAt y.1.2 (y.1.1 - i) i) >>= _).run f
      rw [run_bind, run_done]
      cases readAt y.1.2 (y.1.1 - i) i with
      | error e => rfl
      | ok value => rfl

theorem compressed_run (i : Nat) (r : Reader) :
    binaryToCompressed terms lib i r = (bodyOf lib .compressedZlib i r).run f := by
  rw [binaryToCompressed, bodyOf, uncompress, run_bind, run_done]
  cases binaryRead r 4 with
  | error e => rfl
  | ok x =>
    show (if x.1 = 0 then _ else _) = (if x.1 = 0 then _ else _) >>= _
    split
    · rfl
    · show (lib.zlibRead (x.2.data.drop x.2.pos) x.1 >>= _) = (lib.zlibRead (x.2.data.drop x.2.pos) x.1 >>= _) >>= _
      cases lib.zlibRead (x.2.data.drop x.2.pos) x.1 with
      | error e => rfl
      | ok d =>
        show (if x.1 ≠ d.1.length then _ else _) = (if x.1 ≠ d.1.length then _ else _) >>= _
        split
        · rfl
        · rename_i hsize
          show (terms 0 ⟨d.1, 0⟩ >>= _) = (ask (0, ⟨d.1, 0⟩) >>= _).run f
          rw [hf, run_bind, run_ask, not_not.mp hsize]
          cases f (0, ⟨d.1, 0⟩) with
          | error e => rfl
          | ok y =>
            show (if y.1 ≠ d.1.length then _ else _) = (if y.1 ≠ d.1.length then _ else _ : TermCall _).run f
            split
            · rfl
            · rfl

theorem bodyOf_run (tag : Tag) (i : Nat) (r : Reader) :
    binaryToTermsOf terms lib tag i r = (bodyOf lib tag i r).run f := by
  cases tag with
  | smallTupleExt => exact tuple_run hf 1 i r
  | largeTupleExt => exact tuple_run hf 4 i r
  | listExt => exact list_run hf i r
  | mapExt => exact map_run hf i r
  | funExt => exact fun_run hf i r
  | compressedZlib => exact compressed_run hf i r
  | _ => rfl

end Same

theorem binaryToTerms_eq (depth i : Nat) (r : Reader) :
    binaryToTerms lib depth i r = descend (body lib) .depth depth (i, r) := by
  induction depth generalizing i r with
  | zero => rfl
  | succ depth ih =>
    rw [binaryToTerms, descend, body, run_bind, run_done]
    cases readByte r with
    | error e => rfl
    | ok x =>
      show (match Tag.ofByte x.1 with
        | some tag => binaryToTermsOf (binaryToTerms lib depth) lib tag (i + 1) x.2
        | none => .error (.parseError "invalid tag")) = (match Tag.ofByte x.1 with
        | some tag => bodyOf lib tag (i + 1) x.2
        | none => done (.error (.parseError "invalid tag"))).run _
      cases Tag.ofByte x.1 with
      | none => rfl
      | some tag => exact bodyOf_run ih tag (i + 1) x.2

/-! ## Where it panics -/

/-- The call does not return. -/
def Fault.Crash : Fault → Prop
  | .panic _ | .depth => True
  | _ => False

/-- It returns, if with an error. -/
abbrev Quiet {α : Type} (x : Except Fault α) : Prop := Errors (fun e => ¬e.Crash) x

/-- The standard library returns errors and does not panic. -/
structure Library.Returns (lib : Library) : Prop where
  parseFloat : ∀ l, Quiet (lib.parseFloat l)
  zlibRead : ∀ l n, Quiet (lib.zlibRead l n)

section Quiet

variable (r : Reader) (i k n : Nat)

theorem readByte_quiet : Quiet (readByte r) := by
  unfold readByte
  split
  · exact errors_ok _
  · exact errors_error id

theorem binaryRead_quiet : Quiet (binaryRead r n) := by
  unfold binaryRead
  split
  · exact errors_error id
  · split
    · exact errors_error id
    · exact errors_ok _

theorem read_quiet : Quiet (read r n) := by
  unfold read
  split
  · exact errors_error id
  · exact errors_ok _

theorem readAt_quiet : Quiet (readAt r n i) := by
  unfold readAt
  split
  · exact errors_error id
  · simp only
    split
    · exact errors_error id
    · exact errors_ok _

theorem binaryToBytes_quiet : Quiet (binaryToBytes k i r) := by
  refine (binaryRead_quiet r k).bind fun x => ?_
  simp only
  split
  · exact (read_quiet _ _).bind fun _ => errors_ok _
  · exact errors_ok _

theorem binaryToName_quiet : Quiet (binaryToName k i r) :=
  (binaryRead_quiet r k).bind fun _ => (readAt_quiet _ _ _).bind fun _ => errors_ok _

theorem binaryToAtom_quiet : Quiet (binaryToAtom i r) := by
  refine (readByte_quiet r).bind fun x => ?_
  simp only
  split
  · exact (binaryToName_quiet _ _ _).bind fun _ => errors_ok _
  · exact (binaryToName_quiet _ _ _).bind fun _ => errors_ok _
  · exact (binaryToName_quiet _ _ _).bind fun _ => errors_ok _
  · exact (binaryToName_quiet _ _ _).bind fun _ => errors_ok _
  · exact (readByte_quiet _).bind fun _ => errors_ok _
  · exact errors_error id

theorem binaryToPidFields_quiet : Quiet (binaryToPidFields i r) :=
  (binaryToAtom_quiet r i).bind fun _ => (read_quiet _ _).bind fun _ => (read_quiet _ _).bind fun _ =>
    (readByte_quiet _).bind fun _ => errors_ok _

theorem binaryToPid_quiet : Quiet (binaryToPid i r) := by
  refine (readByte_quiet r).bind fun x => ?_
  simp only
  split
  · exact binaryToPidFields_quiet _ _
  · exact errors_error id

theorem binaryToSmallInteger_quiet : Quiet (binaryToSmallInteger i r) := (readByte_quiet r).bind fun _ => errors_ok _

theorem binaryToInt32_quiet : Quiet (binaryToInt32 i r) := (binaryRead_quiet r 4).bind fun _ => errors_ok _

theorem binaryToInteger_quiet : Quiet (binaryToInteger i r) := by
  refine (readByte_quiet r).bind fun x => ?_
  simp only
  split
  · exact binaryToSmallInteger_quiet _ _
  · exact binaryToInt32_quiet _ _
  · exact errors_error id

theorem binaryToNodeId_quiet (make : UInt8 → List UInt8 → List UInt8 → UInt8 → Value) :
    Quiet (binaryToNodeId make i r) :=
  (binaryToAtom_quiet r i).bind fun _ => (read_quiet _ _).bind fun _ => (readByte_quiet _).bind fun _ => errors_ok _

theorem bignumLoop_quiet (b : Nat) : Quiet (bignumLoop r i n b) := by
  induction n generalizing b with
  | zero => exact errors_ok _
  | succ n ih => exact (readAt_quiet _ _ _).bind fun _ => ih _

theorem binaryToBignum_quiet : Quiet (binaryToBignum k i r) :=
  (binaryRead_quiet r k).bind fun _ => (readByte_quiet _).bind fun _ => (bignumLoop_quiet _ _ _ _).bind fun _ =>
    errors_ok _

theorem binaryToExport_quiet : Quiet (binaryToExport i r) := by
  refine (binaryToAtom_quiet r i).bind fun _ => (binaryToAtom_quiet _ _).bind fun _ => (readByte_quiet _).bind
    fun x => ?_
  simp only
  split
  · exact errors_error id
  · exact (readByte_quiet _).bind fun _ => (readAt_quiet _ _ _).bind fun _ => errors_ok _

theorem binaryToNewReference_quiet : Quiet (binaryToNewReference i r) := by
  refine (binaryRead_quiet r 2).bind fun _ => (binaryToAtom_quiet _ _).bind fun _ => (readByte_quiet _).bind
    fun x => ?_
  simp only
  split
  · exact (read_quiet _ _).bind fun _ => errors_ok _
  · exact errors_ok _

theorem binaryToFunStart_quiet : Quiet (binaryToFunStart i r) :=
  (binaryRead_quiet r 4).bind fun _ => (binaryToPid_quiet _ _).bind fun _ => (binaryToAtom_quiet _ _).bind fun _ =>
    (binaryToInteger_quiet _ _).bind fun _ => (binaryToInteger_quiet _ _).bind fun _ => errors_ok _

theorem uncompress_quiet (hlib : lib.Returns) : Quiet (uncompress lib i r) := by
  refine (binaryRead_quiet r 4).bind fun x => ?_
  simp only
  split
  · exact errors_error id
  · refine (hlib.zlibRead _ _).bind fun d => ?_
    split
    · exact errors_error id
    · exact errors_ok _

/-- The tags behind which there can be terms. -/
def Composite (tag : Tag) : Prop :=
  tag = .smallTupleExt ∨ tag = .largeTupleExt ∨ tag = .listExt ∨ tag = .mapExt ∨ tag = .funExt ∨ tag = .compressedZlib

theorem leaf_quiet (hlib : lib.Returns) {tag : Tag} (ht : ¬Composite tag) :
    Quiet (binaryToTermsOf uncalled lib tag i r) := by
  have hbytes : ∀ (k : Nat) (make : List UInt8 → Value), Quiet (do
      let (i, value, reader) ← binaryToBytes k i r
      return (i, make value, reader)) := fun k make => (binaryToBytes_quiet r i k).bind fun _ => errors_ok _
  unfold Composite at ht
  cases tag with
  | newFloatExt => exact (binaryRead_quiet r 8).bind fun _ => errors_ok _
  | bitBinaryExt =>
    refine (binaryRead_quiet r 4).bind fun _ => (readByte_quiet _).bind fun x => ?_
    simp only
    split
    · exact (read_quiet _ _).bind fun _ => errors_ok _
    · exact errors_ok _
  | atomCacheRef => exact (readByte_quiet r).bind fun _ => errors_ok _
  | smallIntegerExt => exact binaryToSmallInteger_quiet r i
  | integerExt => exact binaryToInt32_quiet r i
  | floatExt => exact (read_quiet r 31).bind fun _ => (hlib.parseFloat _).bind fun _ => errors_ok _
  | atomExt | stringExt | atomUtf8Ext => exact hbytes 2 _
  | binaryExt => exact hbytes 4 fun value => .otpErlangBinary value 8
  | newFunExt => exact hbytes 4 (.otpErlangFunction Tag.newFunExt.byte)
  | smallAtomExt | smallAtomUtf8Ext => exact hbytes 1 _
  | referenceExt | portExt => exact binaryToNodeId_quiet r i _
  | pidExt => exact binaryToPidFields_quiet r i
  | nilExt => exact errors_ok _
  | smallBigExt | largeBigExt => exact binaryToBignum_quiet _ _ _
  | exportExt => exact binaryToExport_quiet r i
  | newReferenceExt => exact binaryToNewReference_quiet r i
  | smallTupleExt | largeTupleExt | listExt | mapExt | funExt | compressedZlib => simp at ht

end Quiet

theorem bodyOf_leaf {tag : Tag} (ht : ¬Composite tag) (i : Nat) (r : Reader) :
    bodyOf lib tag i r = done (binaryToTermsOf uncalled lib tag i r) := by
  unfold Composite at ht
  cases tag <;> first | rfl | simp at ht

theorem quiet_fails {α : Type} {x : Except Fault α} (h : Quiet x) {e : Fault} (he : e.Crash) : x ≠ .error e :=
  fun hx => h e hx he

/-- What stands there is a map with pairs, the first with a key that is comparable, and both are decoded. -/
def BadMap (f : Place → Except Fault (Decoded Value)) (p : Place) : Prop :=
  p.2.data[p.2.pos]? = some Tag.mapExt.byte ∧ p.2.pos + 1 + 4 ≤ p.2.data.length ∧
    0 < number 4 (p.2.pos + 1) p.2.data ∧ ∃ key, f (p.1 + 1 + 4, (p.2.seek 1).seek 4) = .ok key ∧
      key.2.1.comparable = true ∧ ∃ value, f (key.1, key.2.2) = .ok value

theorem readByte_eq {r : Reader} {x : UInt8 × Reader} (h : readByte r = .ok x) :
    r.data[r.pos]? = some x.1 ∧ x.2 = r.seek 1 := by
  unfold readByte at h
  split at h
  · rename_i hlt
    rw [← Except.ok.inj h]
    exact ⟨List.getElem?_eq_getElem hlt, rfl⟩
  · cases h

theorem readByte_of {r : Reader} {b : UInt8} (h : r.data[r.pos]? = some b) : readByte r = .ok (b, r.seek 1) := by
  obtain ⟨hlt, hb⟩ := List.getElem?_eq_some_iff.mp h
  rw [readByte, dif_pos hlt, hb]

theorem binaryRead_iff {r : Reader} {k : Nat} {x : Nat × Reader} (hk : 0 < k) :
    binaryRead r k = .ok x ↔ r.pos + k ≤ r.data.length ∧ x = (number k r.pos r.data, r.seek k) := by
  unfold binaryRead number
  split
  · exact ⟨nofun, fun ⟨h, _⟩ => by omega⟩
  · split
    · exact ⟨nofun, fun ⟨h, _⟩ => by omega⟩
    · exact ⟨fun h => ⟨by omega, (Except.ok.inj h).symm⟩, fun ⟨_, h⟩ => h ▸ rfl⟩

theorem pairs_fails {n i : Nat} {r : Reader} {e : Fault} (he : e.Crash) :
    (pairsBody i n r).Fails f e ↔ e = .panic "assignment to entry in nil map" ∧ 0 < n ∧ ∃ key, f (i, r) = .ok key ∧
      key.2.1.comparable = true ∧ ∃ value, f (key.1, key.2.2) = .ok value := by
  cases n with
  | zero => exact ⟨fun h => (fails_pure _ h).elim, fun h => absurd h.2.1 (by omega)⟩
  | succ n =>
    rw [pairsBody, fails_bind]
    constructor
    · rintro (h | ⟨key, hkey, h⟩)
      · exact (fails_ask _ h).elim
      · rw [run_ask] at hkey
        simp only at h
        split at h
        · have := Except.error.inj h
          subst this
          exact he.elim
        · rename_i hc
          rcases (fails_bind _ _).mp h with h | ⟨value, hvalue, h⟩
          · exact (fails_ask _ h).elim
          · rw [run_ask] at hvalue
            exact ⟨(Except.error.inj h).symm, by omega, key, hkey, eq_true_of_ne_false hc, value, hvalue⟩
    · rintro ⟨rfl, -, key, hkey, hc, value, hvalue⟩
      refine .inr ⟨key, (run_ask _).trans hkey, ?_⟩
      have hne : ¬key.2.1.comparable = false := by rw [hc]; decide
      simp only [hne]
      exact (fails_bind _ _).mpr (.inr ⟨value, (run_ask _).trans hvalue, rfl⟩)

theorem bodyOf_fails (hlib : lib.Returns) {tag : Tag} (ht : tag ≠ .mapExt) {i : Nat} {r : Reader} {e : Fault}
    (he : e.Crash) : ¬(bodyOf lib tag i r).Fails f e := by
  have hdone : ∀ {α : Type} {x : Except Fault α} {g : α → TermCall (Decoded Value)}, Quiet x → (∀ a, ¬(g a).Fails f e) →
      ¬(done x >>= g).Fails f e := by
    intro α x g hx hg h
    rcases (fails_bind _ _).mp h with h | ⟨a, -, h⟩
    · exact quiet_fails hx he h
    · exact hg a h
  have hseq : ∀ {n : Nat} {p : Place} {g : Place × List (Decoded Value) → TermCall (Decoded Value)},
      (∀ x, ¬(g x).Fails f e) → ¬(sequence next n p >>= g).Fails f e := by
    intro n p g hg h
    rcases (fails_bind _ _).mp h with h | ⟨x, -, h⟩
    · exact sequence_fails h
    · exact hg x h
  have hask : ∀ {p : Place} {g : Decoded Value → TermCall (Decoded Value)},
      (∀ x, ¬(g x).Fails f e) → ¬(ask p >>= g).Fails f e := by
    intro p g hg h
    rcases (fails_bind _ _).mp h with h | ⟨x, -, h⟩
    · exact fails_ask _ h
    · exact hg x h
  by_cases hc : Composite tag
  · rcases hc with rfl | rfl | rfl | rfl | rfl | rfl
    · exact hdone (binaryRead_quiet r 1) fun _ => hseq fun _ => fails_pure _
    · exact hdone (binaryRead_quiet r 4) fun _ => hseq fun _ => fails_pure _
    · exact hdone (binaryRead_quiet r 4) fun _ => hseq fun _ => hask fun _ => fails_pure _
    · exact absurd rfl ht
    · exact hdone (binaryToFunStart_quiet r i) fun _ => hseq fun _ => hdone (readAt_quiet _ _ _) fun _ => fails_pure _
    · refine hdone (uncompress_quiet r i hlib) fun _ => hask fun x h => ?_
      simp only at h
      split at h
      · have := Except.error.inj h
        subst this
        exact he.elim
      · exact fails_pure _ h
  · rw [bodyOf_leaf hc]
    exact quiet_fails (leaf_quiet r i hlib hc) he

theorem body_fails (hlib : lib.Returns) {p : Place} {e : Fault} (he : e.Crash) :
    (body lib p).Fails f e ↔ e = .panic "assignment to entry in nil map" ∧ BadMap f p := by
  rw [body, fails_bind]
  constructor
  · rintro (h | ⟨x, hx, h⟩)
    · exact absurd h (quiet_fails (readByte_quiet p.2) he)
    · obtain ⟨hat, hr⟩ := readByte_eq hx
      cases htag : Tag.ofByte x.1 with
      | none =>
        simp only [htag] at h
        have := Except.error.inj h
        subst this
        exact he.elim
      | some tag =>
        simp only [htag] at h
        have hb := ofByte_eq_some htag
        by_cases hm : tag = .mapExt
        · subst hm
          rw [hr, bodyOf] at h
          rcases (fails_bind _ _).mp h with h | ⟨y, hy, h⟩
          · exact absurd h (quiet_fails (binaryRead_quiet _ 4) he)
          · obtain ⟨hle, rfl⟩ := (binaryRead_iff (by decide)).mp hy
            obtain ⟨heq, hpos, hkey⟩ := (pairs_fails he).mp h
            exact ⟨heq, hat.trans (congrArg some hb), hle, hpos, hkey⟩
        · exact absurd h (bodyOf_fails hlib hm he)
  · rintro ⟨rfl, hat, hle, hpos, hkey⟩
    refine .inr ⟨_, readByte_of hat, ?_⟩
    simp only [Tag.ofByte_byte]
    refine (fails_bind _ _).mpr (.inr ⟨_, (binaryRead_iff (by decide)).mpr ⟨hle, rfl⟩, ?_⟩)
    exact (pairs_fails he).mpr ⟨rfl, hpos, hkey⟩

theorem binaryToTerms_panics_iff (hlib : lib.Returns) {depth i : Nat} {r : Reader} :
    (∃ e, binaryToTerms lib depth i r = .error e ∧ e.Crash) ↔
      ∃ m p, Visits (body lib) .depth depth (i, r) m p ∧
        (m = 0 ∨ ∃ n, m = n + 1 ∧ BadMap (descend (body lib) .depth n) p) := by
  constructor
  · rintro ⟨e, h, he⟩
    rw [binaryToTerms_eq, descend_error_iff] at h
    obtain ⟨m, p, hv, hs⟩ := h
    refine ⟨m, p, hv, ?_⟩
    cases m with
    | zero => exact .inl rfl
    | succ m => exact .inr ⟨m, rfl, ((body_fails hlib he).mp hs).2⟩
  · rintro ⟨m, p, hv, rfl | ⟨n, rfl, hb⟩⟩
    · exact ⟨.depth, (binaryToTerms_eq _ _ _).trans (visits_error hv rfl), trivial⟩
    · exact ⟨.panic "assignment to entry in nil map", (binaryToTerms_eq _ _ _).trans
        (visits_error hv (stops_error ((body_fails hlib (e := .panic _) trivial).mpr ⟨rfl, hb⟩))), trivial⟩

/-- It panics iff it comes to the end of the stack, or to a map that it puts a pair into. -/
theorem panics_iff (hlib : lib.Returns) {depth : Nat} {data : List UInt8} :
    (∃ e, binaryToTerm lib depth data = .error e ∧ e.Crash) ↔ Started data ∧
      ∃ m p, Visits (body lib) .depth depth (1, ⟨data, 1⟩) m p ∧
        (m = 0 ∨ ∃ n, m = n + 1 ∧ BadMap (descend (body lib) .depth n) p) := by
  rw [← binaryToTerms_panics_iff hlib]
  unfold binaryToTerm Started
  split
  · rename_i hlen
    constructor
    · rintro ⟨e, h, he⟩
      cases h
      exact he.elim
    · intro h
      exact absurd h.1.1 (by omega)
  · rename_i hlen
    have hread : readByte ⟨data, 0⟩ = .ok (data[0], ⟨data, 1⟩) := by
      rw [readByte, dif_pos (by simp only; omega)]
      rfl
    have hhead : data.head? = some data[0] := by
      rw [List.head?_eq_getElem?, List.getElem?_eq_getElem]
    rw [hread, hhead]
    show (∃ e, (if data[0] ≠ tagVersion then (.error (.parseError "invalid version") : Except Fault Value)
      else binaryToTerms lib depth 1 ⟨data, 1⟩ >>= fun x =>
        if x.1 ≠ data.length then .error (.parseError "unparsed data") else .ok x.2.1) = .error e ∧ e.Crash) ↔ _
    split
    · rename_i hver
      constructor
      · rintro ⟨e, h, he⟩
        cases h
        exact he.elim
      · intro h
        exact absurd (Option.some.inj h.1.2) hver
    · rename_i hver
      have hs : 1 < data.length ∧ some data[0] = some tagVersion := ⟨by omega, congrArg some (not_not.mp hver)⟩
      cases binaryToTerms lib depth 1 ⟨data, 1⟩ with
      | error e =>
        constructor
        · rintro ⟨e', h, he⟩
          exact ⟨hs, e', congrArg _ (Except.error.inj h), he⟩
        · rintro ⟨-, e', h, he⟩
          exact ⟨e', congrArg _ (Except.error.inj h), he⟩
      | ok x =>
        constructor
        · rintro ⟨e, h, he⟩
          have h : (if x.1 ≠ data.length then (.error (.parseError "unparsed data") : Except Fault Value)
            else .ok x.2.1) = .error e := h
          split at h
          · cases h
            exact he.elim
          · cases h
        · rintro ⟨-, e, h, -⟩
          cases h

/-! ## What it accepts -/

def layout : Layout := ⟨1, 4⟩

/-- The bytes of the node at an index, with those of its length, are more than fit into a number of its size. -/
def NodeWraps (a : Nat) (data : List UInt8) : Prop :=
  match data[a]?.bind Tag.ofByte with
  | some .atomExt | some .atomUtf8Ext => 65536 ≤ 2 + number 2 (a + 1) data
  | some .smallAtomExt | some .smallAtomUtf8Ext => 256 ≤ 1 + number 1 (a + 1) data
  | _ => False

/-- A length is more than fits into a number of its size. -/
def Wraps (tag : Tag) (i : Nat) (data : List UInt8) : Prop :=
  match tag with
  | .referenceExt | .portExt | .pidExt => NodeWraps i data
  | .newReferenceExt => NodeWraps (i + 2) data ∨ 65536 ≤ 4 * number 2 i data
  | _ => False

/-- A value has fewer bytes than its lengths say. -/
def Shortened (tag : Tag) (i : Nat) (data : List UInt8) : Value → Prop
  | .otpErlangPid _ node _ _ _ => tag = .pidExt ∧ node.length < layout.nodeEnd i data - (i + 1)
  | .otpErlangPort _ node _ _ => tag = .portExt ∧ node.length < layout.nodeEnd i data - (i + 1)
  | .otpErlangReference _ node id _ =>
    tag = .referenceExt ∧ node.length < layout.nodeEnd i data - (i + 1) ∨
      tag = .newReferenceExt ∧ (node.length < layout.nodeEnd (i + 2) data - (i + 3) ∨ id.length < 4 * number 2 i data)
  | _ => False

/-- The decoder goes from one position to another: in the same data, the reader as far as the index, or
the index to the end. -/
def Moves (i : Nat) (r : Reader) (j : Nat) (r' : Reader) : Prop :=
  r'.data = r.data ∧ i ≤ j ∧ (r'.pos + i = j + r.pos ∨ r.data.length + i ≤ j + r.pos)

section Moves

variable {i j k n : Nat} {r r' r'' : Reader}

theorem Moves.refl (i : Nat) (r : Reader) : Moves i r i r := ⟨rfl, le_rfl, .inl (Nat.add_comm _ _)⟩

theorem Moves.trans (h : Moves i r j r') (h' : Moves j r' k r'') : Moves i r k r'' := by
  obtain ⟨hd, hle, hp⟩ := h
  obtain ⟨hd', hle', hp'⟩ := h'
  refine ⟨hd'.trans hd, hle.trans hle', ?_⟩
  rw [hd] at hp'
  omega

theorem moves_seek (i n : Nat) (r : Reader) : Moves i r (i + n) (r.seek n) := by
  refine ⟨rfl, Nat.le_add_right _ _, .inl ?_⟩
  show r.pos + n + i = i + n + r.pos
  omega

theorem read_eq {x : List UInt8 × Reader} (h : read r n = .ok x) :
    r.pos < r.data.length ∧ x.2 = r.seek (min n (r.data.length - r.pos)) ∧ x.1.length = n := by
  refine ⟨?_, ?_, read_length (show read r n = .ok (x.1, x.2) from h)⟩
  · unfold read at h
    split at h
    · cases h
    · omega
  · unfold read at h
    split at h
    · cases h
    · rw [← Except.ok.inj h, List.length_take, List.length_drop]

theorem moves_read {x : List UInt8 × Reader} (h : read r n = .ok x) : Moves i r (i + n) x.2 := by
  obtain ⟨hlt, hx, -⟩ := read_eq h
  rw [hx]
  refine ⟨rfl, Nat.le_add_right _ _, ?_⟩
  show r.pos + min n (r.data.length - r.pos) + i = i + n + r.pos ∨ _
  omega

theorem moves_readByte {x : UInt8 × Reader} (h : readByte r = .ok x) : Moves i r (i + 1) x.2 := by
  rw [(readByte_eq h).2]
  exact moves_seek i 1 r

theorem readByte_lt {x : UInt8 × Reader} (h : readByte r = .ok x) : r.pos < r.data.length :=
  (List.getElem?_eq_some_iff.mp (readByte_eq h).1).1

theorem number_lt (k i : Nat) (data : List UInt8) : number k i data < 256 ^ k :=
  (ofBe_lt _).trans_le (Nat.pow_le_pow_right (by decide) (List.length_take_le _ _))

end Moves

section Lengths

variable {i j k n : Nat} {r r' : Reader} {v : Value}

theorem binaryToBytes_end {x : Decoded (List UInt8)} (hk : 0 < k) (h : binaryToBytes k i r = .ok x) :
    x.1 = i + k + number k r.pos r.data ∧ Moves i r x.1 x.2.2 := by
  obtain ⟨y, hy, h⟩ := bind_eq_ok h
  obtain ⟨-, rfl⟩ := (binaryRead_iff hk).mp hy
  simp only at h
  split at h
  · obtain ⟨z, hz, h⟩ := bind_eq_ok h
    have hm := (moves_seek i k r).trans (moves_read (i := i + k) hz)
    rw [← Except.ok.inj h]
    exact ⟨rfl, hm⟩
  · rename_i hn
    rw [← Except.ok.inj h]
    have h0 : number k r.pos r.data = 0 := by omega
    refine ⟨rfl, ?_⟩
    simp only [h0]
    exact moves_seek i k r

/-- What a name is read from, and how many of its bytes are kept. -/
theorem binaryToName_end {x : Decoded (List UInt8)} (hk : 0 < k) (h : binaryToName k i r = .ok x) :
    x.1 = i + k + number k r.pos r.data ∧ x.2.2 = r.seek (k + number k r.pos r.data) ∧
      x.2.1.length = (k + number k r.pos r.data) % 256 ^ k := by
  obtain ⟨y, hy, h⟩ := bind_eq_ok h
  obtain ⟨-, rfl⟩ := (binaryRead_iff hk).mp hy
  obtain ⟨value, hv, h⟩ := bind_eq_ok h
  have hlen := readAt_length hv
  rw [← Except.ok.inj h]
  exact ⟨rfl, Reader.seek_seek r k _, hlen⟩

/-- A node is read to its end, and it is kept if it does not wrap. -/
theorem binaryToAtom_end {x : Decoded (UInt8 × List UInt8)} (h : binaryToAtom i r = .ok x) :
    x.2.2 = r.seek (layout.nodeEnd r.pos r.data - r.pos) ∧ x.1 + r.pos = i + layout.nodeEnd r.pos r.data ∧
      (x.2.1.2.length < layout.nodeEnd r.pos r.data - (r.pos + 1) ↔ NodeWraps r.pos r.data) := by
  obtain ⟨y, hy, h⟩ := bind_eq_ok h
  obtain ⟨hat, hr⟩ := readByte_eq hy
  have hlong := number_lt 2 (r.pos + 1) r.data
  have hshort := number_lt 1 (r.pos + 1) r.data
  have hname : ∀ {k : Nat} {z : Decoded (List UInt8)}, 0 < k → binaryToName k (i + 1) y.2 = .ok z →
      z.2.2 = r.seek (1 + k + number k (r.pos + 1) r.data) ∧ z.1 = i + 1 + k + number k (r.pos + 1) r.data ∧
        z.2.1.length = (k + number k (r.pos + 1) r.data) % 256 ^ k := by
    intro k z hk hz
    rw [hr] at hz
    obtain ⟨h₁, h₂, h₃⟩ := binaryToName_end hk hz
    refine ⟨?_, h₁, h₃⟩
    rw [h₂, Reader.seek_seek, Nat.add_assoc]
    rfl
  unfold Layout.nodeEnd Layout.node NodeWraps
  rw [hat, Option.bind_some]
  simp only at h
  split at h
  · rename_i htag
    obtain ⟨z, hz, h⟩ := bind_eq_ok h
    obtain ⟨h₁, h₂, h₃⟩ := hname (by decide) hz
    rw [← Except.ok.inj h, htag]
    simp only [h₁, h₂, h₃]
    exact ⟨congrArg r.seek (by omega), by omega, by omega⟩
  · rename_i htag
    obtain ⟨z, hz, h⟩ := bind_eq_ok h
    obtain ⟨h₁, h₂, h₃⟩ := hname (by decide) hz
    rw [← Except.ok.inj h, htag]
    simp only [h₁, h₂, h₃]
    exact ⟨congrArg r.seek (by omega), by omega, by omega⟩
  · rename_i htag
    obtain ⟨z, hz, h⟩ := bind_eq_ok h
    obtain ⟨h₁, h₂, h₃⟩ := hname (by decide) hz
    rw [← Except.ok.inj h, htag]
    simp only [h₁, h₂, h₃, show layout.smallNode = 1 from rfl]
    exact ⟨congrArg r.seek (by omega), by omega, by omega⟩
  · rename_i htag
    obtain ⟨z, hz, h⟩ := bind_eq_ok h
    obtain ⟨h₁, h₂, h₃⟩ := hname (by decide) hz
    rw [← Except.ok.inj h, htag]
    simp only [h₁, h₂, h₃, show layout.smallNode = 1 from rfl]
    exact ⟨congrArg r.seek (by omega), by omega, by omega⟩
  · rename_i htag
    obtain ⟨z, hz, h⟩ := bind_eq_ok h
    rw [← Except.ok.inj h, htag, (readByte_eq hz).2, hr, Reader.seek_seek]
    simp only [List.length_singleton]
    exact ⟨congrArg r.seek (by omega), by omega, iff_of_false (by omega) id⟩
  · cases h

theorem moves_atom {x : Decoded (UInt8 × List UInt8)} (h : binaryToAtom i r = .ok x) : Moves i r x.1 x.2.2 := by
  obtain ⟨hr, hx, -⟩ := binaryToAtom_end h
  have hlt := layout.lt_nodeEnd r.pos r.data
  rw [hr, show x.1 = i + (layout.nodeEnd r.pos r.data - r.pos) by omega]
  exact moves_seek _ _ _

/-- What follows a node in a pid, a port or a reference is there. -/
theorem binaryToNodeId_end {make : UInt8 → List UInt8 → List UInt8 → UInt8 → Value} {x : Decoded Value}
    (h : binaryToNodeId make i r = .ok x) :
    Moves i r x.1 x.2.2 ∧ x.1 + r.pos = i + layout.nodeEnd r.pos r.data + 5 ∧
      ∃ nodeTag node id creation, x.2.1 = make nodeTag node id creation ∧
        (node.length < layout.nodeEnd r.pos r.data - (r.pos + 1) ↔ NodeWraps r.pos r.data) := by
  obtain ⟨a, ha, h⟩ := bind_eq_ok h
  obtain ⟨id, hid, h⟩ := bind_eq_ok h
  obtain ⟨c, hc, h⟩ := bind_eq_ok h
  obtain ⟨-, hx, hk⟩ := binaryToAtom_end ha
  have hm := (moves_atom ha).trans ((moves_read hid).trans (moves_readByte hc))
  rw [← Except.ok.inj h]
  exact ⟨hm, by simp only; omega, _, _, _, _, rfl, hk⟩

theorem binaryToPidFields_end {x : Decoded Value} (h : binaryToPidFields i r = .ok x) :
    Moves i r x.1 x.2.2 ∧ x.1 + r.pos = i + layout.nodeEnd r.pos r.data + 9 ∧
      x.2.2.pos = layout.nodeEnd r.pos r.data + 9 ∧ ∃ nodeTag node id serial creation,
        x.2.1 = .otpErlangPid nodeTag node id serial creation ∧
          (node.length < layout.nodeEnd r.pos r.data - (r.pos + 1) ↔ NodeWraps r.pos r.data) := by
  obtain ⟨a, ha, h⟩ := bind_eq_ok h
  obtain ⟨id, hid, h⟩ := bind_eq_ok h
  obtain ⟨serial, hs, h⟩ := bind_eq_ok h
  obtain ⟨c, hc, h⟩ := bind_eq_ok h
  obtain ⟨har, hx, hk⟩ := binaryToAtom_end ha
  have hm := (moves_atom ha).trans ((moves_read hid).trans ((moves_read hs).trans (moves_readByte hc)))
  have hlt := layout.lt_nodeEnd r.pos r.data
  -- a short read leaves no byte for what follows it
  have hpos : c.2.pos = layout.nodeEnd r.pos r.data + 9 := by
    obtain ⟨h₁, hid', -⟩ := read_eq hid
    obtain ⟨h₂, hs', -⟩ := read_eq hs
    have h₃ := readByte_lt hc
    have h₄ := congrArg Reader.pos (readByte_eq hc).2
    rw [hs', hid', har] at h₃ h₄
    rw [hid', har] at h₂
    rw [har] at h₁
    simp only [Reader.seek] at h₁ h₂ h₃ h₄
    omega
  rw [← Except.ok.inj h]
  exact ⟨hm, by simp only; omega, hpos, _, _, _, _, _, rfl, hk⟩

theorem binaryToPid_end {x : Decoded Value} (h : binaryToPid i r = .ok x) :
    Moves i r x.1 x.2.2 ∧ x.1 + r.pos = i + layout.nodeEnd (r.pos + 1) r.data + 9 ∧
      x.2.2.pos = layout.nodeEnd (r.pos + 1) r.data + 9 := by
  obtain ⟨y, hy, h⟩ := bind_eq_ok h
  have hm := moves_readByte (i := i) hy
  simp only at h
  split at h
  · obtain ⟨hm', hx, hp, -⟩ := binaryToPidFields_end h
    rw [(readByte_eq hy).2] at hx hp
    refine ⟨hm.trans hm', ?_, hp⟩
    simp only [Reader.seek] at hx
    omega
  · cases h

theorem moves_int32 {x : Decoded Value} (h : binaryToInt32 i r = .ok x) : Moves i r x.1 x.2.2 := by
  obtain ⟨y, hy, h⟩ := bind_eq_ok h
  obtain ⟨-, rfl⟩ := (binaryRead_iff (by decide)).mp hy
  rw [← Except.ok.inj h]
  exact moves_seek i 4 r

theorem moves_smallInteger {x : Decoded Value} (h : binaryToSmallInteger i r = .ok x) : Moves i r x.1 x.2.2 := by
  obtain ⟨y, hy, h⟩ := bind_eq_ok h
  rw [← Except.ok.inj h]
  exact moves_readByte hy

theorem moves_integer {x : Decoded Value} (h : binaryToInteger i r = .ok x) : Moves i r x.1 x.2.2 := by
  obtain ⟨y, hy, h⟩ := bind_eq_ok h
  have hm := moves_readByte (i := i) hy
  simp only at h
  split at h
  · exact hm.trans (moves_smallInteger h)
  · exact hm.trans (moves_int32 h)
  · cases h

theorem binaryToBignum_end {x : Decoded Value} (hk : 0 < k) (h : binaryToBignum k i r = .ok x) :
    Moves i r x.1 x.2.2 ∧ x.1 = i + k + 1 + number k r.pos r.data := by
  obtain ⟨y, hy, h⟩ := bind_eq_ok h
  obtain ⟨-, rfl⟩ := (binaryRead_iff hk).mp hy
  obtain ⟨z, hz, h⟩ := bind_eq_ok h
  obtain ⟨n, -, h⟩ := bind_eq_ok h
  have hm := (moves_seek i k r).trans (moves_readByte (i := i + k) hz)
  rw [← Except.ok.inj h]
  exact ⟨hm.trans (moves_seek _ _ _), rfl⟩

theorem binaryToExport_end {x : Decoded Value} (h : binaryToExport i r = .ok x) :
    Moves i r x.1 x.2.2 ∧ x.1 + r.pos = i + layout.nodeEnd (layout.nodeEnd r.pos r.data) r.data + 2 ∧
      ∃ value, x.2.1 = .otpErlangFunction Tag.exportExt.byte value := by
  obtain ⟨a, ha, h⟩ := bind_eq_ok h
  obtain ⟨b, hb, h⟩ := bind_eq_ok h
  obtain ⟨c, hc, h⟩ := bind_eq_ok h
  obtain ⟨har, hax, -⟩ := binaryToAtom_end ha
  obtain ⟨-, hbx, -⟩ := binaryToAtom_end hb
  have hlt := layout.lt_nodeEnd r.pos r.data
  have hm := (moves_atom ha).trans ((moves_atom hb).trans (moves_readByte hc))
  have hpos : a.2.2.pos = layout.nodeEnd r.pos r.data := by
    rw [har]
    show r.pos + (layout.nodeEnd r.pos r.data - r.pos) = _
    omega
  have hdata : a.2.2.data = r.data := by rw [har]; rfl
  rw [hpos, hdata] at hbx
  simp only at h
  split at h
  · cases h
  · obtain ⟨d, hd, h⟩ := bind_eq_ok h
    obtain ⟨value, -, h⟩ := bind_eq_ok h
    rw [← Except.ok.inj h]
    exact ⟨hm.trans (moves_readByte hd), by simp only; omega, value, rfl⟩

theorem binaryToNewReference_end {x : Decoded Value} (h : binaryToNewReference i r = .ok x) :
    Moves i r x.1 x.2.2 ∧
      x.1 + r.pos = i + layout.nodeEnd (r.pos + 2) r.data + 1 + number 2 r.pos r.data * 4 % 65536 ∧
        ∃ nodeTag node id creation, x.2.1 = .otpErlangReference nodeTag node id creation ∧
          (node.length < layout.nodeEnd (r.pos + 2) r.data - (r.pos + 3) ↔ NodeWraps (r.pos + 2) r.data) ∧
            id.length = number 2 r.pos r.data * 4 % 65536 := by
  obtain ⟨y, hy, h⟩ := bind_eq_ok h
  obtain ⟨-, rfl⟩ := (binaryRead_iff (by decide)).mp hy
  obtain ⟨a, ha, h⟩ := bind_eq_ok h
  obtain ⟨c, hc, h⟩ := bind_eq_ok h
  obtain ⟨-, hax, hk⟩ := binaryToAtom_end ha
  have hm := (moves_seek i 2 r).trans ((moves_atom ha).trans (moves_readByte hc))
  have hax : a.1 + (r.pos + 2) = i + 2 + layout.nodeEnd (r.pos + 2) r.data := hax
  simp only at h
  split at h
  · obtain ⟨id, hid, h⟩ := bind_eq_ok h
    have hlen := (read_eq hid).2.2
    have hm' := hm.trans (moves_read (i := a.1 + 1) hid)
    rw [← Except.ok.inj h]
    exact ⟨hm', by simp only; omega, _, _, _, _, rfl, hk, hlen⟩
  · rename_i h0
    rw [← Except.ok.inj h]
    have h0 : number 2 r.pos r.data * 4 % 65536 = 0 := by omega
    simp only [h0]
    exact ⟨hm, by omega, _, _, _, _, rfl, hk, rfl⟩

theorem binaryToFunStart_end {x : Decoded Nat} (h : binaryToFunStart i r = .ok x) :
    Moves i r x.1 x.2.2 ∧
      i + layout.nodeEnd (layout.nodeEnd (r.pos + 5) r.data + 9) r.data ≤ x.1 + r.pos := by
  obtain ⟨y, hy, h⟩ := bind_eq_ok h
  obtain ⟨-, rfl⟩ := (binaryRead_iff (by decide)).mp hy
  obtain ⟨a, ha, h⟩ := bind_eq_ok h
  obtain ⟨b, hb, h⟩ := bind_eq_ok h
  obtain ⟨c, hc, h⟩ := bind_eq_ok h
  obtain ⟨d, hd, h⟩ := bind_eq_ok h
  obtain ⟨ham, hax, hap⟩ := binaryToPid_end ha
  obtain ⟨-, hbx, -⟩ := binaryToAtom_end hb
  have hcm := moves_integer hc
  have hdm := moves_integer hd
  have hm := (moves_seek i 4 r).trans (ham.trans ((moves_atom hb).trans (hcm.trans hdm)))
  have hax : a.1 + (r.pos + 4) = i + 4 + layout.nodeEnd (r.pos + 5) r.data + 9 := hax
  have hap : a.2.2.pos = layout.nodeEnd (r.pos + 5) r.data + 9 := hap
  have hdata : a.2.2.data = r.data := ham.1
  rw [hap, hdata] at hbx
  have hle := hcm.2.1
  have hle' := hdm.2.1
  rw [← Except.ok.inj h]
  exact ⟨hm, by simp only; omega⟩

theorem not_shortened {tag : Tag} {i : Nat} {data : List UInt8} {v : Value}
    (ht : tag ≠ .pidExt ∧ tag ≠ .portExt ∧ tag ≠ .referenceExt ∧ tag ≠ .newReferenceExt) :
    Shortened tag i data v ↔ Wraps tag i data := by
  obtain ⟨h₁, h₂, h₃, h₄⟩ := ht
  have hw : ¬Wraps tag i data := by
    cases tag <;> first | exact id | contradiction
  refine iff_of_false (fun h => ?_) hw
  cases v with
  | otpErlangPid => exact h₁ h.1
  | otpErlangPort => exact h₂ h.1
  | otpErlangReference => exact h.elim (fun h => h₃ h.1) fun h => h₄ h.1
  | _ => exact h

/-- What a term is read from has all that its lengths say, and its value too, if no length wraps. -/
theorem leaf_lengths {tag : Tag} (ht : ¬Composite tag) {x : Decoded Value}
    (h : binaryToTermsOf uncalled lib tag i r = .ok x) :
    Moves i r x.1 x.2.2 ∧
      (¬Wraps tag r.pos r.data → ∀ s ∈ layout.lengths tag r.pos r.data, s.1 + s.2 + i ≤ x.1 + r.pos) ∧
        (Shortened tag r.pos r.data x.2.1 ↔ Wraps tag r.pos r.data) := by
  have hnode := layout.lt_nodeEnd r.pos r.data
  have hbytes : ∀ {k : Nat} (make : List UInt8 → Value), 0 < k → (do
      let (i, value, reader) ← binaryToBytes k i r
      return (i, make value, reader)) = Except.ok x → Moves i r x.1 x.2.2 ∧
        x.1 = i + k + number k r.pos r.data := by
    intro k make hk h
    obtain ⟨y, hy, h⟩ := bind_eq_ok h
    obtain ⟨hx, hm⟩ := binaryToBytes_end hk hy
    rw [← Except.ok.inj h]
    exact ⟨hm, hx⟩
  unfold Layout.lengths
  cases tag with
  | newFloatExt =>
    obtain ⟨y, hy, h⟩ := bind_eq_ok h
    obtain ⟨-, rfl⟩ := (binaryRead_iff (by decide)).mp hy
    rw [← Except.ok.inj h]
    exact ⟨moves_seek i 8 r, fun _ => nofun, not_shortened (by decide)⟩
  | integerExt => exact ⟨moves_int32 h, fun _ => nofun, not_shortened (by decide)⟩
  | smallIntegerExt => exact ⟨moves_smallInteger h, fun _ => nofun, not_shortened (by decide)⟩
  | atomCacheRef =>
    obtain ⟨y, hy, h⟩ := bind_eq_ok h
    rw [← Except.ok.inj h]
    exact ⟨moves_readByte hy, fun _ => nofun, not_shortened (by decide)⟩
  | bitBinaryExt =>
    obtain ⟨y, hy, h⟩ := bind_eq_ok h
    obtain ⟨-, rfl⟩ := (binaryRead_iff (by decide)).mp hy
    obtain ⟨z, hz, h⟩ := bind_eq_ok h
    have hm := (moves_seek i 4 r).trans (moves_readByte (i := i + 4) hz)
    simp only at h
    split at h
    · obtain ⟨w, hw, h⟩ := bind_eq_ok h
      have hm' := hm.trans (moves_read (i := i + 4 + 1) hw)
      rw [← Except.ok.inj h]
      refine ⟨hm', fun _ s hs => ?_, not_shortened (by decide)⟩
      rw [List.mem_singleton.mp hs]
      simp only
      omega
    · rename_i h0
      rw [← Except.ok.inj h]
      have h0 : number 4 r.pos r.data = 0 := by omega
      refine ⟨?_, fun _ s hs => ?_, not_shortened (by decide)⟩
      · simp only [h0]
        exact hm
      · rw [List.mem_singleton.mp hs]
        simp only
        omega
  | floatExt =>
    obtain ⟨y, hy, h⟩ := bind_eq_ok h
    obtain ⟨z, -, h⟩ := bind_eq_ok h
    rw [← Except.ok.inj h]
    exact ⟨moves_read hy, fun _ => nofun, not_shortened (by decide)⟩
  | atomExt | stringExt | atomUtf8Ext =>
    obtain ⟨hm, hx⟩ := hbytes (k := 2) _ (by decide) h
    refine ⟨hm, fun _ s hs => ?_, not_shortened (by decide)⟩
    rw [List.mem_singleton.mp hs, hx]
    simp only
    omega
  | smallAtomExt | smallAtomUtf8Ext =>
    obtain ⟨hm, hx⟩ := hbytes (k := 1) _ (by decide) h
    refine ⟨hm, fun _ s hs => ?_, not_shortened (by decide)⟩
    rw [List.mem_singleton.mp hs, hx]
    simp only
    omega
  | binaryExt =>
    obtain ⟨hm, hx⟩ := hbytes (k := 4) (fun value => .otpErlangBinary value 8) (by decide) h
    refine ⟨hm, fun _ s hs => ?_, not_shortened (by decide)⟩
    rw [List.mem_singleton.mp hs, hx]
    simp only
    omega
  | newFunExt =>
    obtain ⟨hm, hx⟩ := hbytes (k := 4) _ (by decide) h
    refine ⟨hm, fun _ s hs => ?_, not_shortened (by decide)⟩
    rw [List.mem_singleton.mp hs, hx]
    simp only [show layout.newFun = 4 from rfl]
    omega
  | referenceExt =>
    obtain ⟨hm, hx, nodeTag, node, id, creation, hv, hk⟩ := binaryToNodeId_end h
    refine ⟨hm, fun _ s hs => ?_, ?_⟩
    · rw [List.mem_singleton.mp hs]
      have := layout.node_le_nodeEnd r.pos r.data
      omega
    · rw [hv]
      constructor
      · rintro (⟨-, h⟩ | ⟨h, -⟩)
        · exact hk.mp h
        · cases h
      · exact fun h => .inl ⟨rfl, hk.mpr h⟩
  | portExt =>
    obtain ⟨hm, hx, nodeTag, node, id, creation, hv, hk⟩ := binaryToNodeId_end h
    refine ⟨hm, fun _ s hs => ?_, ?_⟩
    · rw [List.mem_singleton.mp hs]
      have := layout.node_le_nodeEnd r.pos r.data
      omega
    · rw [hv]
      exact ⟨fun h => hk.mp h.2, fun h => ⟨rfl, hk.mpr h⟩⟩
  | pidExt =>
    obtain ⟨hm, hx, -, nodeTag, node, id, serial, creation, hv, hk⟩ := binaryToPidFields_end h
    refine ⟨hm, fun _ s hs => ?_, ?_⟩
    · rw [List.mem_singleton.mp hs]
      have := layout.node_le_nodeEnd r.pos r.data
      omega
    · rw [hv]
      exact ⟨fun h => hk.mp h.2, fun h => ⟨rfl, hk.mpr h⟩⟩
  | nilExt =>
    rw [← Except.ok.inj h]
    exact ⟨Moves.refl i r, fun _ => nofun, not_shortened (by decide)⟩
  | smallBigExt =>
    obtain ⟨hm, hx⟩ := binaryToBignum_end (by decide) h
    refine ⟨hm, fun _ s hs => ?_, not_shortened (by decide)⟩
    rw [List.mem_singleton.mp hs, hx]
    simp only
    omega
  | largeBigExt =>
    obtain ⟨hm, hx⟩ := binaryToBignum_end (by decide) h
    refine ⟨hm, fun _ s hs => ?_, not_shortened (by decide)⟩
    rw [List.mem_singleton.mp hs, hx]
    simp only
    omega
  | exportExt =>
    obtain ⟨hm, hx, -⟩ := binaryToExport_end h
    have hnode' := layout.lt_nodeEnd (layout.nodeEnd r.pos r.data) r.data
    have h₁ := layout.node_le_nodeEnd r.pos r.data
    have h₂ := layout.node_le_nodeEnd (layout.nodeEnd r.pos r.data) r.data
    refine ⟨hm, fun _ s hs => ?_, not_shortened (by decide)⟩
    rcases List.mem_cons.mp hs with rfl | hs
    · omega
    · rw [List.mem_singleton.mp hs]
      omega
  | newReferenceExt =>
    obtain ⟨hm, hx, nodeTag, node, id, creation, hv, hk, hid⟩ := binaryToNewReference_end h
    have hnode' := layout.lt_nodeEnd (r.pos + 2) r.data
    have h₁ := layout.node_le_nodeEnd (r.pos + 2) r.data
    refine ⟨hm, fun hw s hs => ?_, ?_⟩
    · have hsmall : ¬65536 ≤ 4 * number 2 r.pos r.data := fun h => hw (.inr h)
      rcases List.mem_cons.mp hs with rfl | hs
      · omega
      · rw [List.mem_singleton.mp hs]
        simp only
        omega
    · rw [hv]
      have hshort : id.length < 4 * number 2 r.pos r.data ↔ 65536 ≤ 4 * number 2 r.pos r.data := by omega
      constructor
      · rintro (⟨h, -⟩ | ⟨-, h⟩)
        · cases h
        · exact h.imp hk.mp hshort.mp
      · exact fun h => .inr ⟨rfl, h.imp hk.mpr hshort.mpr⟩
  | smallTupleExt | largeTupleExt | listExt | mapExt | funExt | compressedZlib => simp [Composite] at ht

/-! ## Composite terms -/

/-- A call is behind the start and ends before the end, or it is in data of its own, which it reads to its end. -/
def Within (f : Place → Except Fault (Decoded Value)) (i : Nat) (r : Reader) (j : Nat) (q : Place) : Prop :=
  (Moves i r q.1 q.2 ∧ ∀ x, f q = .ok x → x.1 ≤ j) ∨
    (q.2.pos = q.1 ∧ ∀ x, f q = .ok x → x.1 ≤ q.2.data.length)

section Composite

variable (hf : ∀ p x, f p = .ok x → Moves p.1 p.2 x.1 x.2.2)
include hf

theorem moves_sequence {p p' : Place} {rs : List (Decoded Value)} (h : (sequence next n p).run f = .ok (p', rs)) :
    Moves p.1 p.2 p'.1 p'.2 := by
  refine sequence_keeps (I := fun p' : Place => Moves p.1 p.2 p'.1 p'.2) (fun q x hI hq => ?_) (Moves.refl _ _) h
  exact hI.trans (hf q x hq)

theorem sequence_within {p p' q : Place} {rs : List (Decoded Value)} (h : (sequence next n p).run f = .ok (p', rs))
    (hq : (sequence next n p).Calls f q) : Moves p.1 p.2 q.1 q.2 ∧ ∀ x, f q = .ok x → x.1 ≤ p'.1 := by
  refine ⟨?_, fun x hx => ?_⟩
  · refine sequence_calls (I := fun q : Place => Moves p.1 p.2 q.1 q.2) (fun q x hI hq => ?_) (Moves.refl _ _) hq
    exact hI.trans (hf q x hq)
  · exact sequence_calls_le (P := Place) (R := Decoded Value) (fun q x hq => (hf q x hq).2.1) h hq hx

/-- A number of elements, and what stands behind them. -/
theorem counted_read {β : Type} {y : Except Fault β} {start : β → Place} {count : β → Nat}
    {k : β → Place × List (Decoded Value) → TermCall (Decoded Value)} {w : Decoded Value}
    (h : (done y >>= fun b => sequence next (count b) (start b) >>= k b).run f = .ok w)
    (hk : ∀ b z, (k b z).run f = .ok w → Moves z.1.1 z.1.2 w.1 w.2.2 ∧
      ∀ q, (k b z).Calls f q → Moves z.1.1 z.1.2 q.1 q.2 ∧ ∀ x, f q = .ok x → x.1 ≤ w.1) :
    ∃ b, y = .ok b ∧ Moves (start b).1 (start b).2 w.1 w.2.2 ∧
      ∀ q, (done y >>= fun b => sequence next (count b) (start b) >>= k b).Calls f q →
        Moves (start b).1 (start b).2 q.1 q.2 ∧ ∀ x, f q = .ok x → x.1 ≤ w.1 := by
  rw [run_bind] at h
  obtain ⟨b, hb, h⟩ := bind_eq_ok h
  rw [run_bind] at h
  obtain ⟨z, hz, h⟩ := bind_eq_ok h
  obtain ⟨hm, hcalls⟩ := hk b z h
  have hs := moves_sequence hf hz
  refine ⟨b, hb, hs.trans hm, fun q hq => ?_⟩
  rcases (calls_bind _ _).mp hq with hq | ⟨b', hb', hq⟩
  · exact hq.elim
  · obtain rfl := Except.ok.inj (hb.symm.trans hb')
    rcases (calls_bind _ _).mp hq with hq | ⟨z', hz', hq⟩
    · obtain ⟨hq, hle⟩ := sequence_within hf hz hq
      exact ⟨hq, fun x hx => (hle x hx).trans hm.2.1⟩
    · obtain rfl := Except.ok.inj (hz.symm.trans hz')
      obtain ⟨hq, hle⟩ := hcalls q hq
      exact ⟨hs.trans hq, hle⟩

theorem tuple_read {x : Decoded Value} (hk : 0 < k) (h : (tupleBody k i r).run f = .ok x) :
    Moves i r x.1 x.2.2 ∧ ∀ q, (tupleBody k i r).Calls f q → Within f i r x.1 q := by
  obtain ⟨b, hb, hm, hc⟩ := counted_read hf h fun b z hz => by
    rw [← Except.ok.inj hz]
    exact ⟨Moves.refl _ _, fun q hq => (calls_pure _ hq).elim⟩
  obtain ⟨-, rfl⟩ := (binaryRead_iff hk).mp hb
  have hs := moves_seek i k r
  exact ⟨hs.trans hm, fun q hq => .inl ⟨hs.trans (hc q hq).1, (hc q hq).2⟩⟩

omit hf in
theorem pairs_read {x : Decoded Value} (h : (pairsBody i n r).run f = .ok x) :
    x.1 = i ∧ x.2.2 = r ∧ n = 0 := by
  cases n with
  | zero =>
    rw [← Except.ok.inj h]
    exact ⟨rfl, rfl, rfl⟩
  | succ n =>
    rw [pairsBody, run_bind, run_ask] at h
    obtain ⟨key, -, h⟩ := bind_eq_ok h
    simp only at h
    split at h
    · cases h
    · rw [run_bind] at h
      obtain ⟨_, -, h⟩ := bind_eq_ok h
      cases h

omit hf in
theorem uncompress_end {x : Decoded (List UInt8)} (h : uncompress lib i r = .ok x) : Moves i r x.1 x.2.2 := by
  obtain ⟨y, hy, h⟩ := bind_eq_ok h
  obtain ⟨hle, rfl⟩ := (binaryRead_iff (by decide)).mp hy
  simp only at h
  split at h
  · cases h
  · obtain ⟨d, -, h⟩ := bind_eq_ok h
    split at h
    · cases h
    · rw [← Except.ok.inj h]
      refine ⟨rfl, by simp only; omega, .inr ?_⟩
      show r.data.length + i ≤ i + 4 + (r.data.length - (r.pos + 4)) + r.pos
      omega

/-- What a composite term is read from has all that its lengths say, and its terms end in it. -/
theorem composite_lengths {tag : Tag} (ht : Composite tag) {x : Decoded Value}
    (h : (bodyOf lib tag i r).run f = .ok x) :
    Moves i r x.1 x.2.2 ∧ (∀ s ∈ layout.lengths tag r.pos r.data, s.1 + s.2 + i ≤ x.1 + r.pos) ∧
      ∀ q, (bodyOf lib tag i r).Calls f q → Within f i r x.1 q := by
  rcases ht with rfl | rfl | rfl | rfl | rfl | rfl
  · obtain ⟨hm, hc⟩ := tuple_read hf (by decide) h
    exact ⟨hm, nofun, hc⟩
  · obtain ⟨hm, hc⟩ := tuple_read hf (by decide) h
    exact ⟨hm, nofun, hc⟩
  · obtain ⟨b, hb, hm, hc⟩ := counted_read hf h fun b z hz => by
      rw [run_bind, run_ask] at hz
      obtain ⟨y, hy, hz⟩ := bind_eq_ok hz
      have hy' := hf z.1 y hy
      rw [← Except.ok.inj hz]
      refine ⟨hy', fun q hq => ?_⟩
      rcases (calls_bind _ _).mp hq with hq | ⟨_, -, hq⟩
      · obtain rfl := (calls_ask _).mp hq
        exact ⟨Moves.refl _ _, fun x' hx' => (congrArg Prod.fst (Except.ok.inj (hx'.symm.trans hy))).le⟩
      · exact (calls_pure _ hq).elim
    obtain ⟨-, rfl⟩ := (binaryRead_iff (by decide)).mp hb
    have hs := moves_seek i 4 r
    exact ⟨hs.trans hm, nofun, fun q hq => .inl ⟨hs.trans (hc q hq).1, (hc q hq).2⟩⟩
  · rw [bodyOf, run_bind] at h
    obtain ⟨b, hb, h⟩ := bind_eq_ok h
    obtain ⟨-, rfl⟩ := (binaryRead_iff (by decide)).mp hb
    obtain ⟨hx, hr, h0⟩ := pairs_read h
    refine ⟨?_, nofun, fun q hq => ?_⟩
    · rw [hx, hr]
      exact moves_seek i 4 r
    · rw [bodyOf, calls_bind] at hq
      rcases hq with hq | ⟨b', hb', hq⟩
      · exact hq.elim
      · obtain rfl := Except.ok.inj (hb.symm.trans hb')
        simp only [h0] at hq
        exact (calls_pure _ hq).elim
  · obtain ⟨b, hb, hm, hc⟩ := counted_read hf h fun b z hz => by
      rw [run_bind, run_done] at hz
      obtain ⟨_, -, hz⟩ := bind_eq_ok hz
      rw [← Except.ok.inj hz]
      refine ⟨Moves.refl _ _, fun q hq => ?_⟩
      rcases (calls_bind _ _).mp hq with hq | ⟨_, -, hq⟩
      · exact hq.elim
      · exact (calls_pure _ hq).elim
    obtain ⟨hs, hle⟩ := binaryToFunStart_end hb
    have hmle := hm.2.1
    have h₁ := layout.node_le_nodeEnd (r.pos + 5) r.data
    have h₂ := layout.node_le_nodeEnd (layout.nodeEnd (r.pos + 5) r.data + 9) r.data
    have h₃ := layout.lt_nodeEnd (layout.nodeEnd (r.pos + 5) r.data + 9) r.data
    refine ⟨hs.trans hm, fun s hs' => ?_, fun q hq => .inl ⟨hs.trans (hc q hq).1, (hc q hq).2⟩⟩
    rcases List.mem_cons.mp hs' with rfl | hs'
    · omega
    · rw [List.mem_singleton.mp hs']
      omega
  · rw [bodyOf, run_bind] at h
    obtain ⟨y, hy, h⟩ := bind_eq_ok h
    have hm := uncompress_end hy
    simp only at h
    rw [run_bind, run_ask] at h
    obtain ⟨z, hz, h⟩ := bind_eq_ok h
    split at h
    · cases h
    · rename_i hsize
      rw [← Except.ok.inj h]
      refine ⟨hm, nofun, fun q hq => .inr ?_⟩
      rw [bodyOf, calls_bind] at hq
      rcases hq with hq | ⟨y', hy', hq⟩
      · exact hq.elim
      · obtain rfl := Except.ok.inj (hy.symm.trans hy')
        rcases (calls_bind _ _).mp hq with hq | ⟨z', -, hq⟩
        · obtain rfl := (calls_ask _).mp hq
          refine ⟨rfl, fun x' hx' => ?_⟩
          obtain rfl := Except.ok.inj (hz.symm.trans hx')
          exact (not_not.mp hsize).le
        · simp only at hq
          split at hq
          · exact hq.elim
          · exact (calls_pure _ hq).elim

end Composite

/-- What stands behind a tag that the decoder reads. -/
theorem body_read {p : Place} {x : Decoded Value} (h : (body lib p).run f = .ok x) :
    ∃ tag : Tag, p.2.data[p.2.pos]? = some tag.byte ∧ (bodyOf lib tag (p.1 + 1) (p.2.seek 1)).run f = .ok x ∧
      ∀ q, (body lib p).Calls f q → (bodyOf lib tag (p.1 + 1) (p.2.seek 1)).Calls f q := by
  rw [body, run_bind] at h
  obtain ⟨b, hb, h⟩ := bind_eq_ok h
  have hb : readByte p.2 = .ok b := hb
  obtain ⟨hat, hr⟩ := readByte_eq hb
  cases htag : Tag.ofByte b.1 with
  | none =>
    simp only [htag] at h
    cases h
  | some tag =>
    simp only [htag, hr] at h
    refine ⟨tag, hat.trans (congrArg some (ofByte_eq_some htag)), h, fun q hq => ?_⟩
    rw [body, calls_bind] at hq
    rcases hq with hq | ⟨b', hb', hq⟩
    · exact hq.elim
    · obtain rfl := Except.ok.inj (hb.symm.trans hb')
      simp only [htag, hr] at hq
      exact hq

theorem body_lengths (hf : ∀ p x, f p = .ok x → Moves p.1 p.2 x.1 x.2.2) {p : Place} {x : Decoded Value}
    (h : (body lib p).run f = .ok x) :
    Moves (p.1 + 1) (p.2.seek 1) x.1 x.2.2 ∧
      (∀ tag : Tag, p.2.data[p.2.pos]? = some tag.byte →
        (¬Wraps tag (p.2.pos + 1) p.2.data →
          ∀ s ∈ layout.lengths tag (p.2.pos + 1) p.2.data, s.1 + s.2 + p.1 ≤ x.1 + p.2.pos) ∧
        (Shortened tag (p.2.pos + 1) p.2.data x.2.1 ↔ Wraps tag (p.2.pos + 1) p.2.data)) ∧
      ∀ q, (body lib p).Calls f q → Within f (p.1 + 1) (p.2.seek 1) x.1 q := by
  obtain ⟨tag, hat, hrun, hcalls⟩ := body_read h
  have hsame : ∀ tag' : Tag, p.2.data[p.2.pos]? = some tag'.byte → tag' = tag := fun tag' hat' => by
    have hb := congrArg (·.bind Tag.ofByte) (hat'.symm.trans hat)
    simpa using hb
  by_cases hc : Composite tag
  · obtain ⟨hm, hl, hq⟩ := composite_lengths hf hc hrun
    refine ⟨hm, fun tag' hat' => ?_, fun q h => hq q (hcalls q h)⟩
    obtain rfl := hsame tag' hat'
    refine ⟨fun _ s hs => ?_, not_shortened ?_⟩
    · have hl : s.1 + s.2 + (p.1 + 1) ≤ x.1 + (p.2.pos + 1) := hl s hs
      omega
    · rcases hc with rfl | rfl | rfl | rfl | rfl | rfl <;> decide
  · have hleaf := hrun
    rw [bodyOf_leaf hc] at hleaf
    obtain ⟨hm, hl, hs⟩ := leaf_lengths hc hleaf
    refine ⟨hm, fun tag' hat' => ?_, fun q h => ?_⟩
    · obtain rfl := hsame tag' hat'
      refine ⟨fun hw s hs => ?_, hs⟩
      have hl : s.1 + s.2 + (p.1 + 1) ≤ x.1 + (p.2.pos + 1) := hl hw s hs
      omega
    · have hq := hcalls q h
      rw [bodyOf_leaf hc] at hq
      exact hq.elim

end Lengths

variable {depth m : Nat} {p : Place}

theorem descend_moves {x : Decoded Value} (h : descend (body lib) .depth depth p = .ok x) :
    Moves p.1 p.2 x.1 x.2.2 := by
  induction depth generalizing p x with
  | zero => cases h
  | succ depth ih => exact (moves_seek p.1 1 p.2).trans (body_lengths (fun _ _ h => ih h) h).1

/-- The reader is where the index is, or the index is at the end. -/
def Synced (p : Place) : Prop := p.2.pos = p.1 ∨ p.2.data.length ≤ p.1

theorem Synced.moves {i j : Nat} {r r' : Reader} (h : Synced (i, r)) (hm : Moves i r j r') : Synced (j, r') := by
  obtain ⟨hd, hle, hp⟩ := hm
  unfold Synced at h ⊢
  simp only at h ⊢
  rw [hd]
  omega

/-- What is visited in data that is decoded to its end is in the data, and has all its bytes, if no length wraps. -/
theorem visits_lengths {i : Nat} {r : Reader} {x y : Decoded Value}
    (h : descend (body lib) .depth depth (i, r) = .ok x) (hi : r.pos = i) (hx : x.1 ≤ r.data.length)
    (hv : Visits (body lib) .depth depth (i, r) m p) (hy : descend (body lib) .depth m p = .ok y) {tag : Tag}
    (ht : p.2.data[p.2.pos]? = some tag.byte) :
    (¬Wraps tag (p.2.pos + 1) p.2.data →
      ∀ s ∈ layout.lengths tag (p.2.pos + 1) p.2.data, s.1 + s.2 ≤ p.2.data.length) ∧
    (Shortened tag (p.2.pos + 1) p.2.data y.2.1 ↔ Wraps tag (p.2.pos + 1) p.2.data) := by
  obtain ⟨hsync, hin⟩ := visits_of_ok
    (Q := fun m q => Synced q ∧ ∀ x', descend (body lib) .depth m q = .ok x' → x'.1 ≤ q.2.data.length) h
    ⟨.inl hi, fun x' hx' => Except.ok.inj (h.symm.trans hx') ▸ hx⟩
    (fun m q q' x' hQ hrun hc => by
      obtain ⟨-, -, hcalls⟩ := body_lengths (fun _ _ h => descend_moves h) hrun
      rcases hcalls q' hc with ⟨hm, hle⟩ | ⟨hpos, hle⟩
      · have hm := (moves_seek q.1 1 q.2).trans hm
        refine ⟨Synced.moves hQ.1 hm, fun x'' hx'' => ?_⟩
        rw [hm.1]
        exact (hle x'' hx'').trans (hQ.2 x' hrun)
      · exact ⟨.inl hpos, hle⟩) hv
  cases m with
  | zero => cases hy
  | succ m =>
    obtain ⟨hm, hl, -⟩ := body_lengths (fun _ _ h => descend_moves h) hy
    obtain ⟨hlen, hs⟩ := hl tag ht
    refine ⟨fun hw s hs => ?_, hs⟩
    have hend := hin y hy
    have hlt := hm.2.1
    have hsum := hlen hw s hs
    rcases hsync with hpos | hpos
    · omega
    · omega

/-- Of data that is accepted, no length goes behind the end and no value is shortened iff no length wraps. -/
theorem accepted_lengths_iff {data : List UInt8} {t : Value} (h : binaryToTerm lib depth data = .ok t) :
    (∀ m p, Visits (body lib) .depth depth (1, ⟨data, 1⟩) m p → ∀ tag : Tag, p.2.data[p.2.pos]? = some tag.byte →
      (∀ s ∈ layout.lengths tag (p.2.pos + 1) p.2.data, s.1 + s.2 ≤ p.2.data.length) ∧
        ∀ x, binaryToTerms lib m p.1 p.2 = .ok x → ¬Shortened tag (p.2.pos + 1) p.2.data x.2.1) ↔
    ∀ m p, Visits (body lib) .depth depth (1, ⟨data, 1⟩) m p → ∀ tag : Tag, p.2.data[p.2.pos]? = some tag.byte →
      ¬Wraps tag (p.2.pos + 1) p.2.data := by
  obtain ⟨x, hx, hlen⟩ : ∃ x, descend (body lib) .depth depth (1, ⟨data, 1⟩) = .ok x ∧ x.1 ≤ data.length := by
    unfold binaryToTerm at h
    split at h
    · cases h
    · obtain ⟨⟨b, r⟩, hb, h⟩ := bind_eq_ok h
      obtain rfl : r = ⟨data, 1⟩ := (readByte_eq hb).2
      simp only at h
      split at h
      · cases h
      · obtain ⟨x, hx, h⟩ := bind_eq_ok h
        split at h
        · cases h
        · rename_i hend
          exact ⟨x, (binaryToTerms_eq _ _ _).symm.trans hx, (not_not.mp hend).le⟩
  constructor
  · intro hall m p hv tag ht hw
    obtain ⟨y, hy⟩ := visits_ok hx hv
    have hs := (visits_lengths hx rfl hlen hv hy ht).2.mpr hw
    exact (hall m p hv tag ht).2 y ((binaryToTerms_eq _ _ _).trans hy) hs
  · intro hall m p hv tag ht
    obtain ⟨y, hy⟩ := visits_ok hx hv
    obtain ⟨hl, hs⟩ := visits_lengths hx rfl hlen hv hy ht
    refine ⟨hl (hall m p hv tag ht), fun z hz hshort => ?_⟩
    have hz := (binaryToTerms_eq _ _ _).symm.trans hz
    obtain rfl := Except.ok.inj (hy.symm.trans hz)
    exact hall m p hv tag ht (hs.mp hshort)

end CloudI.Api.Go
