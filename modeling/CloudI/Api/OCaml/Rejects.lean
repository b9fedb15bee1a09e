import CloudI.Api.OCaml.Reencode
import CloudI.Api.Lengths
import CloudI.Framework.Calls

/-!
# What the OCaml decoder does with malformed data

`body` is what `binary_to_term_` does at an index, with its calls of itself
(`binaryToTermAt_eq`). It raises something other than `Invalid_argument` where
the text of a float is none, or where the stack ends (`raises_iff`). What it
accepts has all that the lengths say (`accepted_lengths`).
-/

namespace CloudI.Api.OCaml

open Calling Slices

abbrev TermCall (α : Type) := Calling Fault Place (Decoded Value) α

/-- The bindings of a map, from its keys and values. -/
def pairsOf : List (Decoded Value) → List (Value × Value)
  | (_, key) :: (_, value) :: rs => (key, value) :: pairsOf rs
  | _ => []

/-- What stands before the free variables of a function: their number. -/
def binaryToFunStart (i0 : Nat) (binary : List UInt8) : Except Fault (Decoded Nat) := do
  let numfree ← unpackUint32 i0 binary
  let i1 := i0 + 4
  let (i2, _) ← binaryToPid i1 binary
  let (i3, _) ← binaryToAtom i2 binary
  let (i4, _) ← binaryToInteger i3 binary
  let (i5, _) ← binaryToInteger i4 binary
  return (i5, numfree)

variable (fos : FloatOfString)

/-- What is not called. -/
def uncalled (_ : Nat) (_ : List UInt8) : Except Fault (Decoded Value) := .error .invalidArgument

def bodyOf : Tag → Nat → List UInt8 → TermCall (Decoded Value)
  | .smallTupleExt, i, binary => do
    let length ← done (charAt i binary)
    let (p, rs) ← sequence next length.toNat (i + 1, binary)
    return (p.1, .otpErlangTuple (rs.map Prod.snd))
  | .largeTupleExt, i, binary => do
    let (i1, length) ← done (unpackLength i binary)
    let (p, rs) ← sequence next length (i1, binary)
    return (p.1, .otpErlangTuple (rs.map Prod.snd))
  | .listExt, i, binary => do
    let length ← done (unpackUint32 i binary)
    let (p, rs) ← sequence next length (i + 4, binary)
    let (i3, tail) ← ask (p.1, binary)
    return (i3, listWithTail (rs.map Prod.snd) tail)
  | .mapExt, i, binary => do
    let length ← done (unpackUint32 i binary)
    let (p, rs) ← sequence next (2 * length) (i + 4, binary)
    return (p.1, .otpErlangMap (pairsOf rs))
  | .funExt, i, binary => do
    let (i5, numfree) ← done (binaryToFunStart i binary)
    let (p, _) ← sequence next numfree (i5, binary)
    let value ← done (sub i (p.1 - i) binary)
    return (p.1, .otpErlangFunction Tag.funExt.byte.toNat value)
  | tag, i, binary => done (binaryToTermOf uncalled fos tag i binary)

def body (p : Place) : TermCall (Decoded Value) := do
  let tag ← done (charAt p.1 p.2)
  match Tag.ofByte tag with
  | some tag => bodyOf fos tag (p.1 + 1) p.2
  | none => done (.error (.parseError "invalid tag"))

variable {fos} {f : Place → Except Fault (Decoded Value)} {terms : Nat → List UInt8 → Except Fault (Decoded Value)}

/-! ## The decoder and its calls -/

section Same

variable (hf : ∀ i data, terms i data = f (i, data))
include hf

theorem sequence_run (n i : Nat) (data : List UInt8) :
    binaryToTermSequence terms i n data =
      (sequence next n (i, data)).run f >>= fun x => .ok (x.1.1, x.2.map Prod.snd) := by
  induction n generalizing i with
  | zero => rfl
  | succ n ih =>
    rw [binaryToTermSequence, hf, sequence_succ, run_bind, run_ask]
    cases f (i, data) with
    | error e => rfl
    | ok r =>
      show (binaryToTermSequence terms r.1 n data >>= _) = ((sequence next n (r.1, data) >>= _).run f >>= _)
      rw [ih, run_bind]
      cases (sequence next n (r.1, data)).run f with
      | error e => rfl
      | ok x => rfl

theorem pairs_run (n i : Nat) (data : List UInt8) :
    binaryToPairs terms i n data =
      (sequence next (2 * n) (i, data)).run f >>= fun x => .ok (x.1.1, pairsOf x.2) := by
  induction n generalizing i with
  | zero => rfl
  | succ n ih =>
    show _ = (sequence next (2 * n + 1 + 1) (i, data)).run f >>= _
    rw [binaryToPairs, hf, sequence_succ, run_bind, run_ask]
    cases f (i, data) with
    | error e => rfl
    | ok key =>
      show (terms key.1 data >>= _) = ((sequence next (2 * n + 1) (key.1, data) >>= _).run f >>= _)
      rw [hf, run_bind, sequence_succ, run_bind, run_ask]
      cases f (key.1, data) with
      | error e => rfl
      | ok value =>
        show (binaryToPairs terms value.1 n data >>= _) =
          (((sequence next (2 * n) (value.1, data) >>= _).run f >>= _) >>= _)
        rw [ih, run_bind]
        cases (sequence next (2 * n) (value.1, data)).run f with
        | error e => rfl
        | ok x => rfl

theorem list_run (i : Nat) (data : List UInt8) :
    binaryToList terms i data = (bodyOf fos .listExt i data).run f := by
  rw [binaryToList, bodyOf, run_bind, run_done]
  cases unpackUint32 i data with
  | error e => rfl
  | ok length =>
    show (binaryToTermSequence terms (i + 4) length data >>= _) = (sequence next length (i + 4, data) >>= _).run f
    rw [sequence_run hf, run_bind]
    cases (sequence next length (i + 4, data)).run f with
    | error e => rfl
    | ok x =>
      show (terms x.1.1 data >>= _) = (ask (x.1.1, data) >>= _).run f
      rw [hf, run_bind, run_ask]
      cases f (x.1.1, data) with
      | error e => rfl
      | ok tail => rfl

theorem map_run (i : Nat) (data : List UInt8) : binaryToMap terms i data = (bodyOf fos .mapExt i data).run f := by
  rw [binaryToMap, bodyOf, run_bind, run_done]
  cases unpackUint32 i data with
  | error e => rfl
  | ok length =>
    show (binaryToPairs terms (i + 4) length data >>= _) = (sequence next (2 * length) (i + 4, data) >>= _).run f
    rw [pairs_run hf, run_bind]
    cases (sequence next (2 * length) (i + 4, data)).run f with
    | error e => rfl
    | ok x => rfl

omit hf in
theorem fun_start (i : Nat) (data : List UInt8) :
    binaryToFun terms i data = binaryToFunStart i data >>= fun x => do
      let (i6, _) ← binaryToTermSequence terms x.1 x.2 data
      let value ← sub i (i6 - i) data
      return (i6, .otpErlangFunction Tag.funExt.byte.toNat value) := by
  simp only [binaryToFun, binaryToFunStart, bind_assoc, pure_bind]

theorem fun_run (i : Nat) (data : List UInt8) : binaryToFun terms i data = (bodyOf fos .funExt i data).run f := by
  rw [fun_start, bodyOf, run_bind, run_done]
  cases binaryToFunStart i data with
  | error e => rfl
  | ok x =>
    show (binaryToTermSequence terms x.1 x.2 data >>= _) = (sequence next x.2 (x.1, data) >>= _).run f
    rw [sequence_run hf, run_bind]
    cases (sequence next x.2 (x.1, data)).run f with
    | error e => rfl
    | ok y =>
      show (sub i (y.1.1 - i) data >>= _) = (done (sub i (y.1.1 - i) data) >>= _).run f
      rw [run_bind, run_done]
      cases sub i (y.1.1 - i) data with
      | error e => rfl
      | ok value => rfl

theorem bodyOf_run (tag : Tag) (i : Nat) (data : List UInt8) :
    binaryToTermOf terms fos tag i data = (bodyOf fos tag i data).run f := by
  cases tag with
  | smallTupleExt =>
    rw [binaryToTermOf, bodyOf, run_bind, run_done]
    cases charAt i data with
    | error e => rfl
    | ok length =>
      show (binaryToTermSequence terms (i + 1) length.toNat data >>= _) =
        (sequence next length.toNat (i + 1, data) >>= _).run f
      rw [sequence_run hf, run_bind]
      cases (sequence next length.toNat (i + 1, data)).run f with
      | error e => rfl
      | ok x => rfl
  | largeTupleExt =>
    rw [binaryToTermOf, bodyOf, run_bind, run_done]
    cases unpackLength i data with
    | error e => rfl
    | ok x =>
      show (binaryToTermSequence terms x.1 x.2 data >>= _) = (sequence next x.2 (x.1, data) >>= _).run f
      rw [sequence_run hf, run_bind]
      cases (sequence next x.2 (x.1, data)).run f with
      | error e => rfl
      | ok y => rfl
  | listExt => exact list_run hf i data
  | mapExt => exact map_run hf i data
  | funExt => exact fun_run hf i data
  | _ => rfl

end Same

theorem binaryToTermAt_eq (depth i : Nat) (data : List UInt8) :
    binaryToTermAt fos depth i data = descend (body fos) .stackOverflow depth (i, data) := by
  induction depth generalizing i data with
  | zero => rfl
  | succ depth ih =>
    rw [binaryToTermAt, descend, body, run_bind, run_done]
    cases charAt i data with
    | error e => rfl
    | ok b =>
      show (match Tag.ofByte b with
        | some tag => binaryToTermOf (binaryToTermAt fos depth) fos tag (i + 1) data
        | none => .error (.parseError "invalid tag")) = (match Tag.ofByte b with
        | some tag => bodyOf fos tag (i + 1) data
        | none => done (.error (.parseError "invalid tag"))).run _
      cases Tag.ofByte b with
      | none => rfl
      | some tag => exact bodyOf_run ih tag (i + 1) data

/-! ## What it raises -/

/-- `binary_to_term` makes a result of the error. -/
def Fault.Returned : Fault → Prop
  | .failure | .stackOverflow => False
  | _ => True

/-- It ends with no error but those that `binary_to_term` makes a result of. -/
abbrev Quiet {α : Type} (x : Except Fault α) : Prop := Errors Fault.Returned x

section Quiet

variable (i j : Nat) (data : List UInt8)

theorem charAt_quiet : Quiet (charAt i data) := by
  unfold charAt
  split
  · exact errors_ok _
  · exact errors_error trivial

theorem sub_quiet : Quiet (sub i j data) := by
  unfold sub
  split
  · exact errors_error trivial
  · exact errors_ok _

theorem unpack_quiet : Quiet (unpack j i data) := (sub_quiet i j data).bind fun _ => errors_ok _

theorem unpackLength_quiet : Quiet (unpackLength i data) := by
  refine (unpack_quiet i 4 data).bind fun n => ?_
  split
  · exact errors_error trivial
  · exact errors_ok _

theorem binaryToAtom_quiet : Quiet (binaryToAtom i data) := by
  refine (charAt_quiet i data).bind fun tag => ?_
  simp only
  split
  · exact (unpack_quiet _ _ data).bind fun _ => (sub_quiet _ _ data).bind fun _ => errors_ok _
  · exact (unpack_quiet _ _ data).bind fun _ => (sub_quiet _ _ data).bind fun _ => errors_ok _
  · exact (charAt_quiet _ data).bind fun _ => errors_ok _
  · exact (charAt_quiet _ data).bind fun _ => (sub_quiet _ _ data).bind fun _ => errors_ok _
  · exact (charAt_quiet _ data).bind fun _ => (sub_quiet _ _ data).bind fun _ => errors_ok _
  · exact errors_error trivial

theorem binaryToNodeId_quiet (make : Int → List UInt8 → List UInt8 → Int → Value) :
    Quiet (binaryToNodeId make i data) :=
  (binaryToAtom_quiet i data).bind fun _ => (sub_quiet _ _ data).bind fun _ => (charAt_quiet _ data).bind fun _ =>
    errors_ok _

theorem binaryToPidFields_quiet : Quiet (binaryToPidFields i data) :=
  (binaryToAtom_quiet i data).bind fun _ => (sub_quiet _ _ data).bind fun _ => (sub_quiet _ _ data).bind fun _ =>
    (charAt_quiet _ data).bind fun _ => errors_ok _

theorem binaryToPid_quiet : Quiet (binaryToPid i data) := by
  refine (charAt_quiet i data).bind fun tag => ?_
  simp only
  split
  · exact binaryToPidFields_quiet _ data
  · exact errors_error trivial

theorem binaryToSmallInteger_quiet : Quiet (binaryToSmallInteger i data) :=
  (charAt_quiet i data).bind fun _ => errors_ok _

theorem binaryToInt32_quiet : Quiet (binaryToInt32 i data) :=
  ((unpack_quiet i 4 data).bind fun _ => errors_ok _).bind fun _ => errors_ok _

theorem binaryToInteger_quiet : Quiet (binaryToInteger i data) := by
  refine (charAt_quiet i data).bind fun tag => ?_
  simp only
  split
  · exact binaryToSmallInteger_quiet _ data
  · exact binaryToInt32_quiet _ data
  · exact errors_error trivial

theorem bignumLoop_quiet (n b : Nat) : Quiet (bignumLoop data i n b) := by
  induction n generalizing b with
  | zero => exact errors_ok _
  | succ n ih => exact (charAt_quiet _ data).bind fun _ => ih _

theorem binaryToBignum_quiet : Quiet (binaryToBignum i j data) := by
  unfold binaryToBignum
  split
  · exact errors_error trivial
  · exact (charAt_quiet i data).bind fun _ => (bignumLoop_quiet i data j 0).bind fun _ => errors_ok _

theorem binaryToExport_quiet : Quiet (binaryToExport i data) := by
  refine (binaryToAtom_quiet i data).bind fun _ => (binaryToAtom_quiet _ data).bind fun _ =>
    (charAt_quiet _ data).bind fun tag => ?_
  simp only
  split
  · exact errors_error trivial
  · exact (sub_quiet _ _ data).bind fun _ => errors_ok _

theorem binaryToNewReference_quiet : Quiet (binaryToNewReference i data) :=
  (unpack_quiet i 2 data).bind fun _ => (binaryToAtom_quiet _ data).bind fun _ => (charAt_quiet _ data).bind fun _ =>
    (sub_quiet _ _ data).bind fun _ => errors_ok _

theorem binaryToFunStart_quiet : Quiet (binaryToFunStart i data) :=
  (unpack_quiet i 4 data).bind fun _ => (binaryToPid_quiet _ data).bind fun _ => (binaryToAtom_quiet _ data).bind
    fun _ => (binaryToInteger_quiet _ data).bind fun _ => (binaryToInteger_quiet _ data).bind fun _ => errors_ok _

/-- The tags behind which there can be terms. -/
def Composite (tag : Tag) : Prop :=
  tag = .smallTupleExt ∨ tag = .largeTupleExt ∨ tag = .listExt ∨ tag = .mapExt ∨ tag = .funExt

theorem leaf_quiet {tag : Tag} (hf : tag ≠ .floatExt) (ht : ¬Composite tag) :
    Quiet (binaryToTermOf uncalled fos tag i data) := by
  unfold Composite at ht
  have hbytes : ∀ (k : Nat) (make : List UInt8 → Value), Quiet (do
      let j ← unpack k i data
      let value ← sub (i + k) j data
      return (i + k + j, make value)) := fun k make =>
    (unpack_quiet i k data).bind fun _ => (sub_quiet _ _ data).bind fun _ => errors_ok _
  have hsmall : ∀ make : List UInt8 → Value, Quiet (do
      let j ← charAt i data
      let value ← sub (i + 1) j.toNat data
      return (i + 1 + j.toNat, make value)) := fun make =>
    (charAt_quiet i data).bind fun _ => (sub_quiet _ _ data).bind fun _ => errors_ok _
  cases tag with
  | newFloatExt => exact ((unpack_quiet i 8 data).bind fun _ => errors_ok _).bind fun _ => errors_ok _
  | bitBinaryExt =>
    exact (unpackLength_quiet i data).bind fun _ => (charAt_quiet _ data).bind fun _ =>
      (sub_quiet _ _ data).bind fun _ => errors_ok _
  | atomCacheRef => exact (charAt_quiet i data).bind fun _ => errors_ok _
  | smallIntegerExt => exact binaryToSmallInteger_quiet i data
  | integerExt => exact binaryToInt32_quiet i data
  | floatExt => exact absurd rfl hf
  | atomExt | stringExt | atomUtf8Ext => exact hbytes 2 _
  | newFunExt => exact hbytes 4 _
  | smallAtomExt | smallAtomUtf8Ext => exact hsmall _
  | referenceExt | portExt => exact binaryToNodeId_quiet i data _
  | pidExt => exact binaryToPidFields_quiet i data
  | nilExt => exact errors_ok _
  | binaryExt => exact (unpackLength_quiet i data).bind fun _ => (sub_quiet _ _ data).bind fun _ => errors_ok _
  | smallBigExt => exact (charAt_quiet i data).bind fun _ => binaryToBignum_quiet _ _ data
  | largeBigExt => exact (unpack_quiet i 4 data).bind fun _ => binaryToBignum_quiet _ _ data
  | exportExt => exact binaryToExport_quiet i data
  | newReferenceExt => exact binaryToNewReference_quiet i data
  | compressedZlib => exact errors_error trivial
  | smallTupleExt | largeTupleExt | listExt | mapExt | funExt => simp at ht

end Quiet

theorem quiet_fails {α : Type} {x : Except Fault α} (h : Quiet x) {e : Fault} (he : ¬e.Returned) : x ≠ .error e :=
  fun hx => he (h e hx)

/-- A term with terms in it raises nothing by itself. -/
theorem composite_fails {tag : Tag} {i : Nat} {data : List UInt8} {e : Fault} (ht : Composite tag) (he : ¬e.Returned) :
    ¬(bodyOf fos tag i data).Fails f e := by
  have hseq : ∀ {n : Nat} {p : Place} {g : Place × List (Decoded Value) → TermCall (Decoded Value)},
      (∀ x, ¬(g x).Fails f e) → ¬(sequence next n p >>= g).Fails f e := by
    intro n p g hg h
    rcases (fails_bind _ _).mp h with h | ⟨x, -, h⟩
    · exact sequence_fails h
    · exact hg x h
  have hdone : ∀ {α : Type} {x : Except Fault α} {g : α → TermCall (Decoded Value)}, Quiet x → (∀ a, ¬(g a).Fails f e) →
      ¬(done x >>= g).Fails f e := by
    intro α x g hx hg h
    rcases (fails_bind _ _).mp h with h | ⟨a, -, h⟩
    · exact quiet_fails hx he h
    · exact hg a h
  rcases ht with rfl | rfl | rfl | rfl | rfl
  · exact hdone (charAt_quiet i data) fun _ => hseq fun _ => fails_pure _
  · exact hdone (unpackLength_quiet i data) fun _ => hseq fun _ => fails_pure _
  · refine hdone (unpack_quiet i 4 data) fun _ => hseq fun x h => ?_
    rcases (fails_bind _ _).mp h with h | ⟨_, -, h⟩
    · exact fails_ask _ h
    · exact fails_pure _ h
  · exact hdone (unpack_quiet i 4 data) fun _ => hseq fun _ => fails_pure _
  · exact hdone (binaryToFunStart_quiet i data) fun _ => hseq fun _ => hdone (sub_quiet _ _ data) fun _ => fails_pure _

theorem bodyOf_leaf {tag : Tag} (ht : ¬Composite tag) (i : Nat) (data : List UInt8) :
    bodyOf fos tag i data = done (binaryToTermOf uncalled fos tag i data) := by
  unfold Composite at ht
  cases tag <;> first | rfl | simp at ht

/-- The text of a float stands there and is none. -/
def BadFloat (fos : FloatOfString) (p : Place) : Prop :=
  p.2[p.1]? = some Tag.floatExt.byte ∧ p.1 + 1 + 31 ≤ p.2.length ∧
    fos (((p.2.drop (p.1 + 1)).take 31).takeWhile (· ≠ 0)) = none

theorem charAt_eq {i : Nat} {data : List UInt8} {b : UInt8} (h : charAt i data = .ok b) : data[i]? = some b := by
  unfold charAt at h
  split at h
  · rename_i hb
    exact hb.trans (congrArg some (Except.ok.inj h))
  · cases h

theorem float_fails {i : Nat} {data : List UInt8} {e : Fault} (he : ¬e.Returned) :
    binaryToTermOf uncalled fos .floatExt i data = .error e ↔
      e = .failure ∧ i + 31 ≤ data.length ∧ fos (((data.drop i).take 31).takeWhile (· ≠ 0)) = none := by
  show (sub i 31 data >>= fun data => _) = _ ↔ _
  unfold sub
  split
  · rename_i hlt
    constructor
    · intro h
      cases h
      exact absurd trivial he
    · rintro ⟨-, hle, -⟩
      exact absurd hle (by omega)
  · rename_i hlt
    dsimp only [bind, Except.bind]
    cases fos (((data.drop i).take 31).takeWhile (· ≠ 0)) with
    | some value =>
      constructor
      · intro h
        cases h
      · rintro ⟨-, -, h⟩
        cases h
    | none =>
      refine ⟨fun h => ⟨(Except.error.inj h).symm, by omega, rfl⟩, ?_⟩
      rintro ⟨rfl, -, -⟩
      rfl

theorem body_fails {p : Place} {e : Fault} (he : ¬e.Returned) :
    (body fos p).Fails f e ↔ e = .failure ∧ BadFloat fos p := by
  obtain ⟨i, data⟩ := p
  rw [body, fails_bind]
  constructor
  · rintro (h | ⟨b, hb, h⟩)
    · exact absurd h (quiet_fails (charAt_quiet i data) he)
    · have hat := charAt_eq hb
      cases htag : Tag.ofByte b with
      | none =>
        rw [htag] at h
        have hinvalid : Quiet (.error (.parseError "invalid tag") : Except Fault (Decoded Value)) :=
          errors_error trivial
        exact absurd h (quiet_fails hinvalid he)
      | some tag =>
        rw [htag] at h
        obtain rfl := ofByte_eq_some htag
        by_cases hc : Composite tag
        · exact absurd h (composite_fails hc he)
        · by_cases hfloat : tag = .floatExt
          · subst hfloat
            obtain ⟨rfl, hle, hnone⟩ := (float_fails he).mp h
            exact ⟨rfl, hat, hle, hnone⟩
          · simp only [bodyOf_leaf hc] at h
            exact absurd h (quiet_fails (leaf_quiet _ _ hfloat hc) he)
  · rintro ⟨rfl, hat, hle, hnone⟩
    refine .inr ⟨Tag.floatExt.byte, ?_, ?_⟩
    · show charAt i data = _
      rw [charAt, show data[i]? = _ from hat]
    · exact (float_fails he).mpr ⟨rfl, hle, hnone⟩

/-- It comes to the end of the stack, or to the text of a float that is none. -/
theorem binaryToTermAt_raises_iff {depth i : Nat} {data : List UInt8} :
    (∃ e, binaryToTermAt fos depth i data = .error e ∧ ¬e.Returned) ↔
      ∃ m p, Visits (body fos) .stackOverflow depth (i, data) m p ∧ (m = 0 ∨ BadFloat fos p) := by
  constructor
  · rintro ⟨e, h, he⟩
    rw [binaryToTermAt_eq, descend_error_iff] at h
    obtain ⟨m, p, hv, hs⟩ := h
    refine ⟨m, p, hv, ?_⟩
    cases m with
    | zero => exact .inl rfl
    | succ m => exact .inr ((body_fails he).mp hs).2
  · rintro ⟨m, p, hv, hm⟩
    cases m with
    | zero => exact ⟨.stackOverflow, (binaryToTermAt_eq _ _ _).trans (visits_error hv rfl), id⟩
    | succ m =>
      rcases hm with hm | hm
      · cases hm
      · exact ⟨.failure, (binaryToTermAt_eq _ _ _).trans
          (visits_error hv (stops_error ((body_fails id).mpr ⟨rfl, hm⟩))), id⟩

/-! ## What it accepts -/

/-- The length of a small node is read where its tag is. -/
def layout : Layout := ⟨0, 4⟩

section Lengths

variable {i j n k : Nat} {data l : List UInt8} {v : Value}

theorem unpack_eq (h : unpack k i data = .ok n) : n = number k i data := by
  obtain ⟨bytes, hs, h⟩ := bind_eq_ok h
  rw [← Except.ok.inj h]
  unfold sub at hs
  split at hs
  · cases hs
  · rw [← Except.ok.inj hs, number]

theorem unpackLength_eq {x : Nat × Nat} (h : unpackLength i data = .ok x) : x = (i + 4, number 4 i data) := by
  obtain ⟨n, hn, h⟩ := bind_eq_ok h
  have hn := unpack_eq hn
  split at h
  · cases h
  · rw [← Except.ok.inj h, hn]

theorem charAt_number {c : UInt8} (h : charAt i data = .ok c) : c.toNat = number 1 i data := by
  have hc := charAt_eq h
  have hd : (data.drop i).take 1 = [c] := by
    rw [List.take_one, List.head?_drop, hc]
    rfl
  rw [number, hd]
  simp [ofBe]

theorem binaryToAtom_end {x : Decoded (UInt8 × List UInt8)} (h : binaryToAtom i data = .ok x) :
    x.1 = layout.nodeEnd i data := by
  obtain ⟨b, hb, h⟩ := bind_eq_ok h
  have hat := charAt_eq hb
  have hnum := charAt_number hb
  unfold Layout.nodeEnd Layout.node
  rw [hat, Option.bind_some]
  simp only at h
  split at h
  · rename_i htag
    obtain ⟨j, hj, h⟩ := bind_eq_ok h
    obtain ⟨_, -, h⟩ := bind_eq_ok h
    rw [← Except.ok.inj h, htag, unpack_eq hj]
  · rename_i htag
    obtain ⟨j, hj, h⟩ := bind_eq_ok h
    obtain ⟨_, -, h⟩ := bind_eq_ok h
    rw [← Except.ok.inj h, htag, unpack_eq hj]
  · rename_i htag
    obtain ⟨_, -, h⟩ := bind_eq_ok h
    rw [← Except.ok.inj h, htag]
  · rename_i htag
    obtain ⟨j, hj, h⟩ := bind_eq_ok h
    obtain ⟨_, -, h⟩ := bind_eq_ok h
    rw [← Except.ok.inj h, htag, charAt_number hj]
    rfl
  · rename_i htag
    obtain ⟨j, hj, h⟩ := bind_eq_ok h
    obtain ⟨_, -, h⟩ := bind_eq_ok h
    rw [← Except.ok.inj h, htag, charAt_number hj]
    rfl
  · cases h

theorem binaryToNodeId_end {make : Int → List UInt8 → List UInt8 → Int → Value}
    (h : binaryToNodeId make i data = .ok (j, v)) : j = layout.nodeEnd i data + 5 := by
  obtain ⟨x, hx, h⟩ := bind_eq_ok h
  have hx := binaryToAtom_end hx
  obtain ⟨_, -, h⟩ := bind_eq_ok h
  obtain ⟨_, -, h⟩ := bind_eq_ok h
  cases h
  rw [hx]

theorem binaryToPidFields_end (h : binaryToPidFields i data = .ok (j, v)) : j = layout.nodeEnd i data + 9 := by
  obtain ⟨x, hx, h⟩ := bind_eq_ok h
  have hx := binaryToAtom_end hx
  obtain ⟨_, -, h⟩ := bind_eq_ok h
  obtain ⟨_, -, h⟩ := bind_eq_ok h
  obtain ⟨_, -, h⟩ := bind_eq_ok h
  cases h
  rw [hx]

theorem binaryToPid_end (h : binaryToPid i data = .ok (j, v)) : j = layout.nodeEnd (i + 1) data + 9 := by
  obtain ⟨b, -, h⟩ := bind_eq_ok h
  simp only at h
  split at h
  · exact binaryToPidFields_end h
  · cases h

theorem binaryToInteger_le (h : binaryToInteger i data = .ok (j, v)) : i ≤ j := by
  obtain ⟨b, -, h⟩ := bind_eq_ok h
  simp only at h
  split at h
  · obtain ⟨_, -, h⟩ := bind_eq_ok h
    cases h
    omega
  · obtain ⟨_, -, h⟩ := bind_eq_ok h
    cases h
    omega
  · cases h

theorem binaryToBignum_end (h : binaryToBignum i n data = .ok (j, v)) : j = i + 1 + n := by
  unfold binaryToBignum at h
  split at h
  · cases h
  · obtain ⟨_, -, h⟩ := bind_eq_ok h
    obtain ⟨_, -, h⟩ := bind_eq_ok h
    cases h
    rfl

theorem binaryToExport_end (h : binaryToExport i data = .ok (j, v)) :
    j = layout.nodeEnd (layout.nodeEnd i data) data + 2 := by
  obtain ⟨x, hx, h⟩ := bind_eq_ok h
  obtain ⟨y, hy, h⟩ := bind_eq_ok h
  have hx := binaryToAtom_end hx
  have hy := binaryToAtom_end hy
  obtain ⟨b, -, h⟩ := bind_eq_ok h
  simp only at h
  split at h
  · cases h
  · obtain ⟨_, -, h⟩ := bind_eq_ok h
    cases h
    rw [hy, hx]

theorem binaryToNewReference_end (h : binaryToNewReference i data = .ok (j, v)) :
    j = layout.nodeEnd (i + 2) data + 1 + number 2 i data * 4 := by
  obtain ⟨n, hn, h⟩ := bind_eq_ok h
  obtain ⟨x, hx, h⟩ := bind_eq_ok h
  have hn := unpack_eq hn
  have hx := binaryToAtom_end hx
  obtain ⟨_, -, h⟩ := bind_eq_ok h
  obtain ⟨_, -, h⟩ := bind_eq_ok h
  cases h
  rw [hx, hn]

theorem binaryToFunStart_le (h : binaryToFunStart i data = .ok (j, n)) :
    layout.nodeEnd (layout.nodeEnd (i + 5) data + 9) data ≤ j := by
  obtain ⟨_, -, h⟩ := bind_eq_ok h
  obtain ⟨⟨i2, _⟩, hp, h⟩ := bind_eq_ok h
  obtain ⟨x, hx, h⟩ := bind_eq_ok h
  obtain ⟨⟨i4, _⟩, h4, h⟩ := bind_eq_ok h
  obtain ⟨⟨i5, _⟩, h5, h⟩ := bind_eq_ok h
  have hp := binaryToPid_end hp
  have hx := binaryToAtom_end hx
  have h4 := binaryToInteger_le h4
  have h5 := binaryToInteger_le h5
  cases h
  rw [hp] at hx
  show layout.nodeEnd (layout.nodeEnd (i + 4 + 1) data + 9) data ≤ _
  omega

/-- What a term is read from has all that its lengths say. -/
theorem leaf_lengths {tag : Tag} (ht : ¬Composite tag) (h : binaryToTermOf uncalled fos tag i data = .ok (j, v)) :
    i ≤ j ∧ ∀ s ∈ layout.lengths tag i data, s.1 + s.2 ≤ j := by
  have hnode := layout.lt_nodeEnd i data
  unfold Layout.lengths
  cases tag with
  | newFloatExt | integerExt =>
    obtain ⟨_, -, h⟩ := bind_eq_ok h
    cases h
    exact ⟨by omega, nofun⟩
  | atomCacheRef | smallIntegerExt =>
    obtain ⟨_, -, h⟩ := bind_eq_ok h
    cases h
    exact ⟨by omega, nofun⟩
  | bitBinaryExt =>
    obtain ⟨x, hx, h⟩ := bind_eq_ok h
    obtain rfl := unpackLength_eq hx
    obtain ⟨_, -, h⟩ := bind_eq_ok h
    obtain ⟨_, -, h⟩ := bind_eq_ok h
    cases h
    exact ⟨by omega, fun s hs => by rw [List.mem_singleton.mp hs]⟩
  | floatExt =>
    obtain ⟨_, -, h⟩ := bind_eq_ok h
    split at h
    · cases h
      exact ⟨by omega, nofun⟩
    · cases h
  | atomExt | stringExt | atomUtf8Ext =>
    obtain ⟨n, hn, h⟩ := bind_eq_ok h
    obtain rfl := unpack_eq hn
    obtain ⟨_, -, h⟩ := bind_eq_ok h
    cases h
    exact ⟨by omega, fun s hs => by rw [List.mem_singleton.mp hs]⟩
  | newFunExt =>
    obtain ⟨n, hn, h⟩ := bind_eq_ok h
    obtain rfl := unpack_eq hn
    obtain ⟨_, -, h⟩ := bind_eq_ok h
    cases h
    exact ⟨by omega, fun s hs => by rw [List.mem_singleton.mp hs]; rfl⟩
  | smallAtomExt | smallAtomUtf8Ext =>
    obtain ⟨n, hn, h⟩ := bind_eq_ok h
    have hn := charAt_number hn
    obtain ⟨_, -, h⟩ := bind_eq_ok h
    cases h
    exact ⟨by omega, fun s hs => by rw [List.mem_singleton.mp hs, hn]⟩
  | binaryExt =>
    obtain ⟨x, hx, h⟩ := bind_eq_ok h
    obtain rfl := unpackLength_eq hx
    obtain ⟨_, -, h⟩ := bind_eq_ok h
    cases h
    exact ⟨by omega, fun s hs => by rw [List.mem_singleton.mp hs]⟩
  | referenceExt | portExt =>
    obtain rfl := binaryToNodeId_end h
    refine ⟨by omega, fun s hs => ?_⟩
    rw [List.mem_singleton.mp hs]
    exact Layout.node_le (by omega)
  | pidExt =>
    obtain rfl := binaryToPidFields_end h
    refine ⟨by omega, fun s hs => ?_⟩
    rw [List.mem_singleton.mp hs]
    exact Layout.node_le (by omega)
  | nilExt =>
    cases h
    exact ⟨le_rfl, nofun⟩
  | smallBigExt =>
    obtain ⟨n, hn, h⟩ := bind_eq_ok h
    have hn := charAt_number hn
    obtain rfl := binaryToBignum_end h
    refine ⟨by omega, fun s hs => ?_⟩
    rw [List.mem_singleton.mp hs, hn]
  | largeBigExt =>
    obtain ⟨n, hn, h⟩ := bind_eq_ok h
    obtain rfl := unpack_eq hn
    obtain rfl := binaryToBignum_end h
    refine ⟨by omega, fun s hs => ?_⟩
    rw [List.mem_singleton.mp hs]
  | exportExt =>
    obtain rfl := binaryToExport_end h
    have hnode' := layout.lt_nodeEnd (layout.nodeEnd i data) data
    refine ⟨by omega, fun s hs => ?_⟩
    rcases List.mem_cons.mp hs with rfl | hs
    · exact Layout.node_le (by omega)
    · rw [List.mem_singleton.mp hs]
      exact Layout.node_le (by omega)
  | newReferenceExt =>
    obtain rfl := binaryToNewReference_end h
    have hnode' := layout.lt_nodeEnd (i + 2) data
    refine ⟨by omega, fun s hs => ?_⟩
    rcases List.mem_cons.mp hs with rfl | hs
    · exact Layout.node_le (by omega)
    · rw [List.mem_singleton.mp hs]
      simp only
      omega
  | compressedZlib => cases h
  | smallTupleExt | largeTupleExt | listExt | mapExt | funExt => simp [Composite] at ht

/-- What a composite term is read from has all that its lengths say, and its terms end in it. -/
theorem composite_lengths {tag : Tag} (ht : Composite tag) (hle : ∀ p r, f p = .ok r → p.1 ≤ r.1)
    (h : (bodyOf fos tag i data).run f = .ok (j, v)) :
    (i ≤ j ∧ ∀ s ∈ layout.lengths tag i data, s.1 + s.2 ≤ j) ∧
      ∀ q, (bodyOf fos tag i data).Calls f q → q.2 = data ∧ ∀ r, f q = .ok r → r.1 ≤ j := by
  rcases ht with rfl | rfl | rfl | rfl | rfl
  · obtain ⟨⟨c, -, hj⟩, hc⟩ := counted_read (j := j) hle h fun z hz => by
      cases hz
      exact ⟨le_rfl, fun q hq => (calls_pure _ hq).elim⟩
    exact ⟨⟨by omega, nofun⟩, hc⟩
  · obtain ⟨⟨x, hx, hj⟩, hc⟩ := counted_read (j := j) hle h fun z hz => by
      cases hz
      exact ⟨le_rfl, fun q hq => (calls_pure _ hq).elim⟩
    obtain rfl := unpackLength_eq hx
    exact ⟨⟨by omega, nofun⟩, hc⟩
  · obtain ⟨⟨c, -, hj⟩, hc⟩ := counted_read (j := j) hle h fun z hz => by
      rw [run_bind, run_ask] at hz
      obtain ⟨r, hr, hz⟩ := bind_eq_ok hz
      cases hz
      refine ⟨hle (z.1.1, data) _ hr, fun q hq => ?_⟩
      rcases (calls_bind _ _).mp hq with hq | ⟨_, -, hq⟩
      · obtain rfl := (calls_ask _).mp hq
        exact ⟨rfl, fun r' hr' => (congrArg Prod.fst (Except.ok.inj (hr'.symm.trans hr))).le⟩
      · exact (calls_pure _ hq).elim
    exact ⟨⟨by omega, nofun⟩, hc⟩
  · obtain ⟨⟨c, -, hj⟩, hc⟩ := counted_read (j := j) hle h fun z hz => by
      cases hz
      exact ⟨le_rfl, fun q hq => (calls_pure _ hq).elim⟩
    exact ⟨⟨by omega, nofun⟩, hc⟩
  · obtain ⟨⟨x, hx, hj⟩, hc⟩ := counted_read (j := j) hle h fun z hz => by
      rw [run_bind, run_done] at hz
      obtain ⟨_, -, hz⟩ := bind_eq_ok hz
      cases hz
      refine ⟨le_rfl, fun q hq => ?_⟩
      rcases (calls_bind _ _).mp hq with hq | ⟨_, -, hq⟩
      · exact hq.elim
      · exact (calls_pure _ hq).elim
    have hstart := binaryToFunStart_le hx
    have hnode := layout.lt_nodeEnd (i + 5) data
    have hnode' := layout.lt_nodeEnd (layout.nodeEnd (i + 5) data + 9) data
    refine ⟨⟨by omega, fun s hs => ?_⟩, hc⟩
    rcases List.mem_cons.mp hs with rfl | hs
    · exact Layout.node_le (by omega)
    · rw [List.mem_singleton.mp hs]
      exact Layout.node_le (by omega)

/-- What stands behind a tag that the decoder reads. -/
theorem body_read {p : Place} {r : Decoded Value} (h : (body fos p).run f = .ok r) :
    ∃ tag : Tag, p.2[p.1]? = some tag.byte ∧ (bodyOf fos tag (p.1 + 1) p.2).run f = .ok r ∧
      ∀ q, (body fos p).Calls f q → (bodyOf fos tag (p.1 + 1) p.2).Calls f q := by
  rw [body, run_bind] at h
  obtain ⟨b, hb, h⟩ := bind_eq_ok h
  have hb : charAt p.1 p.2 = .ok b := hb
  cases htag : Tag.ofByte b with
  | none =>
    rw [htag] at h
    cases h
  | some tag =>
    rw [htag] at h
    refine ⟨tag, (charAt_eq hb).trans (congrArg some (ofByte_eq_some htag)), h, fun q hq => ?_⟩
    rw [body, calls_bind] at hq
    rcases hq with hq | ⟨b', hb', hq⟩
    · exact hq.elim
    · obtain rfl := Except.ok.inj (hb.symm.trans hb')
      rw [htag] at hq
      exact hq

theorem body_lengths (hle : ∀ p r, f p = .ok r → p.1 ≤ r.1) {p : Place} {r : Decoded Value}
    (h : (body fos p).run f = .ok r) :
    p.1 ≤ r.1 ∧ (∀ tag : Tag, p.2[p.1]? = some tag.byte → ∀ s ∈ layout.lengths tag (p.1 + 1) p.2, s.1 + s.2 ≤ r.1) ∧
      ∀ q, (body fos p).Calls f q → q.2 = p.2 ∧ ∀ r', f q = .ok r' → r'.1 ≤ r.1 := by
  obtain ⟨tag, hat, hrun, hcalls⟩ := body_read h
  have hsame : ∀ tag' : Tag, p.2[p.1]? = some tag'.byte → tag' = tag := fun tag' hat' => by
    have hb := congrArg (·.bind Tag.ofByte) (hat'.symm.trans hat)
    simpa using hb
  by_cases hc : Composite tag
  · obtain ⟨⟨hj, hl⟩, hq⟩ := composite_lengths (j := r.1) (v := r.2) hc hle hrun
    exact ⟨by omega, fun tag' hat' => hsame tag' hat' ▸ hl, fun q h => hq q (hcalls q h)⟩
  · have hleaf := hrun
    rw [bodyOf_leaf hc] at hleaf
    obtain ⟨hj, hl⟩ := leaf_lengths (j := r.1) (v := r.2) hc hleaf
    refine ⟨by omega, fun tag' hat' => hsame tag' hat' ▸ hl, fun q h => ?_⟩
    have hq := hcalls q h
    rw [bodyOf_leaf hc] at hq
    exact hq.elim

end Lengths

/-! ### Nodes that are shortened -/

/-- Where the length of a small node is: behind its tag. -/
def format : Layout := ⟨1, 4⟩

/-- The length of the small node at an index is more than its tag, which is read in its place. -/
def Misread (a : Nat) (data : List UInt8) : Prop :=
  match data[a]?.bind Tag.ofByte with
  | some .smallAtomExt | some .smallAtomUtf8Ext => number 1 a data < number 1 (a + 1) data
  | _ => False

/-- The node of a term is. -/
def Misreads (tag : Tag) (i : Nat) (data : List UInt8) : Prop :=
  match tag with
  | .referenceExt | .portExt | .pidExt => Misread i data
  | .newReferenceExt => Misread (i + 2) data
  | _ => False

/-- The node of a value has fewer bytes than its length says. -/
def Shortened (tag : Tag) (i : Nat) (data : List UInt8) : Value → Prop
  | .otpErlangPid _ node _ _ _ => tag = .pidExt ∧ node.length < format.nodeEnd i data - (i + 1)
  | .otpErlangPort _ node _ _ => tag = .portExt ∧ node.length < format.nodeEnd i data - (i + 1)
  | .otpErlangReference _ node _ _ =>
    tag = .referenceExt ∧ node.length < format.nodeEnd i data - (i + 1) ∨
      tag = .newReferenceExt ∧ node.length < format.nodeEnd (i + 2) data - (i + 3)
  | _ => False

section Nodes

variable {i : Nat} {data : List UInt8} {tag : Tag} {r : Decoded Value}

theorem binaryToAtom_kept {x : Decoded (UInt8 × List UInt8)} (h : binaryToAtom i data = .ok x) :
    x.2.2.length < format.nodeEnd i data - (i + 1) ↔ Misread i data := by
  obtain ⟨b, hb, h⟩ := bind_eq_ok h
  unfold Layout.nodeEnd Layout.node Misread
  rw [charAt_eq hb, Option.bind_some]
  simp only at h
  split at h
  · rename_i htag
    obtain ⟨j, hj, h⟩ := bind_eq_ok h
    obtain ⟨node, hn, h⟩ := bind_eq_ok h
    rw [← Except.ok.inj h, htag, sub_length hn, unpack_eq hj]
    exact iff_of_false (by simp only; omega) id
  · rename_i htag
    obtain ⟨j, hj, h⟩ := bind_eq_ok h
    obtain ⟨node, hn, h⟩ := bind_eq_ok h
    rw [← Except.ok.inj h, htag, sub_length hn, unpack_eq hj]
    exact iff_of_false (by simp only; omega) id
  · rename_i htag
    obtain ⟨c, -, h⟩ := bind_eq_ok h
    rw [← Except.ok.inj h, htag]
    simp only [List.length_singleton]
    exact iff_of_false (by omega) id
  · rename_i htag
    obtain ⟨j, hj, h⟩ := bind_eq_ok h
    obtain ⟨node, hn, h⟩ := bind_eq_ok h
    rw [← Except.ok.inj h, htag, sub_length hn, charAt_number hj]
    simp only [show format.smallNode = 1 from rfl]
    omega
  · rename_i htag
    obtain ⟨j, hj, h⟩ := bind_eq_ok h
    obtain ⟨node, hn, h⟩ := bind_eq_ok h
    rw [← Except.ok.inj h, htag, sub_length hn, charAt_number hj]
    simp only [show format.smallNode = 1 from rfl]
    omega
  · cases h

theorem binaryToNodeId_kept {make : Int → List UInt8 → List UInt8 → Int → Value}
    (h : binaryToNodeId make i data = .ok r) : ∃ nodeTag node id creation, r.2 = make nodeTag node id creation ∧
      (node.length < format.nodeEnd i data - (i + 1) ↔ Misread i data) := by
  obtain ⟨x, hx, h⟩ := bind_eq_ok h
  have hk := binaryToAtom_kept hx
  obtain ⟨_, -, h⟩ := bind_eq_ok h
  obtain ⟨_, -, h⟩ := bind_eq_ok h
  rw [← Except.ok.inj h]
  exact ⟨_, _, _, _, rfl, hk⟩

theorem binaryToPidFields_kept (h : binaryToPidFields i data = .ok r) : ∃ nodeTag node id serial creation,
    r.2 = .otpErlangPid nodeTag node id serial creation ∧
      (node.length < format.nodeEnd i data - (i + 1) ↔ Misread i data) := by
  obtain ⟨x, hx, h⟩ := bind_eq_ok h
  have hk := binaryToAtom_kept hx
  obtain ⟨_, -, h⟩ := bind_eq_ok h
  obtain ⟨_, -, h⟩ := bind_eq_ok h
  obtain ⟨_, -, h⟩ := bind_eq_ok h
  rw [← Except.ok.inj h]
  exact ⟨_, _, _, _, _, rfl, hk⟩

theorem binaryToNewReference_kept (h : binaryToNewReference i data = .ok r) : ∃ nodeTag node id creation,
    r.2 = .otpErlangReference nodeTag node id creation ∧
      (node.length < format.nodeEnd (i + 2) data - (i + 3) ↔ Misread (i + 2) data) := by
  obtain ⟨_, -, h⟩ := bind_eq_ok h
  obtain ⟨x, hx, h⟩ := bind_eq_ok h
  have hk := binaryToAtom_kept hx
  obtain ⟨_, -, h⟩ := bind_eq_ok h
  obtain ⟨_, -, h⟩ := bind_eq_ok h
  rw [← Except.ok.inj h]
  exact ⟨_, _, _, _, rfl, hk⟩

theorem not_shortened {v : Value} (ht : tag ≠ .pidExt ∧ tag ≠ .portExt ∧ tag ≠ .referenceExt ∧ tag ≠ .newReferenceExt) :
    Shortened tag i data v ↔ Misreads tag i data := by
  obtain ⟨h₁, h₂, h₃, h₄⟩ := ht
  have hw : ¬Misreads tag i data := by
    cases tag <;> first | exact id | contradiction
  refine iff_of_false (fun h => ?_) hw
  cases v with
  | otpErlangPid => exact h₁ h.1
  | otpErlangPort => exact h₂ h.1
  | otpErlangReference => exact h.elim (fun h => h₃ h.1) fun h => h₄ h.1
  | _ => exact h

/-- The node of a value is shortened iff its length is misread. -/
theorem bodyOf_shortened (h : (bodyOf fos tag i data).run f = .ok r) :
    Shortened tag i data r.2 ↔ Misreads tag i data := by
  cases tag with
  | referenceExt =>
    obtain ⟨nodeTag, node, id, creation, hv, hk⟩ := binaryToNodeId_kept h
    rw [hv]
    constructor
    · rintro (⟨-, h⟩ | ⟨h, -⟩)
      · exact hk.mp h
      · cases h
    · exact fun h => .inl ⟨rfl, hk.mpr h⟩
  | portExt =>
    obtain ⟨nodeTag, node, id, creation, hv, hk⟩ := binaryToNodeId_kept h
    rw [hv]
    exact ⟨fun h => hk.mp h.2, fun h => ⟨rfl, hk.mpr h⟩⟩
  | pidExt =>
    obtain ⟨nodeTag, node, id, serial, creation, hv, hk⟩ := binaryToPidFields_kept h
    rw [hv]
    exact ⟨fun h => hk.mp h.2, fun h => ⟨rfl, hk.mpr h⟩⟩
  | newReferenceExt =>
    obtain ⟨nodeTag, node, id, creation, hv, hk⟩ := binaryToNewReference_kept h
    rw [hv]
    constructor
    · rintro (⟨h, -⟩ | ⟨-, h⟩)
      · cases h
      · exact hk.mp h
    · exact fun h => .inr ⟨rfl, hk.mpr h⟩
  | _ => exact not_shortened (by decide)

theorem binaryToTermAt_shortened {m : Nat} {p : Place} (h : binaryToTermAt fos m p.1 p.2 = .ok r)
    (ht : p.2[p.1]? = some tag.byte) : Shortened tag (p.1 + 1) p.2 r.2 ↔ Misreads tag (p.1 + 1) p.2 := by
  rw [binaryToTermAt_eq] at h
  cases m with
  | zero => cases h
  | succ m =>
    obtain ⟨tag', hat, hrun, -⟩ := body_read h
    have hb := congrArg (·.bind Tag.ofByte) (ht.symm.trans hat)
    obtain rfl : tag = tag' := by simpa using hb
    exact bodyOf_shortened hrun

end Nodes

variable {depth m : Nat} {p : Place}

theorem descend_le {r : Decoded Value} (h : descend (body fos) .stackOverflow depth p = .ok r) : p.1 ≤ r.1 := by
  induction depth generalizing p r with
  | zero => cases h
  | succ depth ih => exact (body_lengths (fun _ _ h => ih h) h).1

/-- What is visited in data that is decoded to its end is in the data. -/
theorem visits_lengths {i : Nat} {data : List UInt8} {r : Decoded Value}
    (h : descend (body fos) .stackOverflow depth (i, data) = .ok r) (hr : r.1 ≤ data.length)
    (hv : Visits (body fos) .stackOverflow depth (i, data) m p) {tag : Tag} (ht : p.2[p.1]? = some tag.byte) :
    ∀ s ∈ layout.lengths tag (p.1 + 1) p.2, s.1 + s.2 ≤ p.2.length := by
  have hin := visits_of_ok (Q := fun m q => ∀ r', descend (body fos) .stackOverflow m q = .ok r' → r'.1 ≤ q.2.length) h
    (fun r' hr' => Except.ok.inj (h.symm.trans hr') ▸ hr)
    (fun m q q' r' hQ hrun hc r'' hr'' => by
      obtain ⟨-, -, hcalls⟩ := body_lengths (fun _ _ h => descend_le h) hrun
      obtain ⟨hsame, hle⟩ := hcalls q' hc
      exact hsame ▸ (hle r'' hr'').trans (hQ r' hrun)) hv
  obtain ⟨r', hr'⟩ := visits_ok h hv
  cases m with
  | zero => cases hr'
  | succ m =>
    obtain ⟨-, hl, -⟩ := body_lengths (fun _ _ h => descend_le h) hr'
    exact fun s hs => (hl tag ht s hs).trans (hin r' hr')

/-! ## `binary_to_term` -/

theorem binaryToTerm_error {depth : Nat} {data : List UInt8} {e : Fault} (he : ¬e.Returned) :
    binaryToTerm fos depth data = .error e ↔ Started data ∧ binaryToTermAt fos depth 1 data = .error e := by
  unfold binaryToTerm Started
  split
  · rename_i hlen
    exact ⟨fun h => absurd (show e.Returned from Except.error.inj h ▸ trivial) he, fun h => absurd h.1.1 (by omega)⟩
  · split
    · rename_i hver
      exact ⟨fun h => absurd (show e.Returned from Except.error.inj h ▸ trivial) he, fun h => absurd h.1.2 hver⟩
    · rename_i hlen hver
      have hs : 1 < data.length ∧ data.head? = some tagVersion := ⟨by omega, not_not.mp hver⟩
      split
      · rename_i hat
        split
        · exact ⟨fun h => absurd (show e.Returned from Except.error.inj h ▸ trivial) he,
            fun h => nomatch hat.symm.trans h.2⟩
        · exact ⟨nofun, fun h => nomatch hat.symm.trans h.2⟩
      · rename_i hat
        refine ⟨fun h => absurd (show e.Returned from Except.error.inj h ▸ trivial) he, fun h => ?_⟩
        exact absurd (show e.Returned from Except.error.inj (hat.symm.trans h.2) ▸ trivial) he
      · rename_i hat
        exact ⟨fun h => ⟨hs, hat.trans (congrArg _ (Except.error.inj h))⟩,
          fun h => congrArg _ (Except.error.inj (hat.symm.trans h.2))⟩

/-- It raises something iff it comes to the end of the stack, or to the text of a float that is none. -/
theorem raises_iff {depth : Nat} {data : List UInt8} :
    (∃ e, binaryToTerm fos depth data = .error e ∧ ¬e.Returned) ↔ Started data ∧
      ∃ m p, Visits (body fos) .stackOverflow depth (1, data) m p ∧ (m = 0 ∨ BadFloat fos p) := by
  rw [← binaryToTermAt_raises_iff]
  constructor
  · rintro ⟨e, h, he⟩
    obtain ⟨hs, h⟩ := (binaryToTerm_error he).mp h
    exact ⟨hs, e, h, he⟩
  · rintro ⟨hs, e, h, he⟩
    exact ⟨e, (binaryToTerm_error he).mpr ⟨hs, h⟩, he⟩

/-- What is accepted is decoded to its end. -/
theorem accepted_eq {depth : Nat} {data : List UInt8} {t : Value} (h : binaryToTerm fos depth data = .ok t) :
    descend (body fos) .stackOverflow depth (1, data) = .ok (data.length, t) := by
  unfold binaryToTerm at h
  split at h
  · cases h
  · split at h
    · cases h
    · split at h
      · rename_i hat
        split at h
        · cases h
        · rename_i hend
          rw [binaryToTermAt_eq] at hat
          rw [hat, not_not.mp hend, Except.ok.inj h]
      · cases h
      · cases h

theorem accepted_visits {depth m : Nat} {data : List UInt8} {t : Value} {p : Place}
    (h : binaryToTerm fos depth data = .ok t) (hv : Visits (body fos) .stackOverflow depth (1, data) m p) :
    ∃ x, binaryToTermAt fos m p.1 p.2 = .ok x := by
  obtain ⟨x, hx⟩ := visits_ok (accepted_eq h) hv
  exact ⟨x, (binaryToTermAt_eq _ _ _).trans hx⟩

/-- What is accepted has all that the lengths say. -/
theorem accepted_lengths {depth m : Nat} {data : List UInt8} {t : Value} {p : Place}
    (h : binaryToTerm fos depth data = .ok t) (hv : Visits (body fos) .stackOverflow depth (1, data) m p) {tag : Tag}
    (ht : p.2[p.1]? = some tag.byte) : ∀ s ∈ layout.lengths tag (p.1 + 1) p.2, s.1 + s.2 ≤ p.2.length :=
  visits_lengths (accepted_eq h) le_rfl hv ht

end CloudI.Api.OCaml
