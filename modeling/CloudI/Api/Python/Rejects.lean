import CloudI.Api.Python.Codec
import CloudI.Api.Lengths
import CloudI.Framework.Slices

/-!
# What the Python decoder does with malformed data

`body` is what `_binary_to_term` does at an index, with its calls of itself
(`binaryToTermAt_eq`). `Bad` is where it raises something that `binary_to_term`
does not make a `ParseException` of (`raises_iff`). What it accepts has all that
the lengths say (`accepted_lengths`).
-/

namespace CloudI.Api.Python.Erlang

open Calling Slices

abbrev TermCall (α : Type) := Calling Fault Place (Decoded Value) α

variable (py3 : Bool) (lib : Library)

/-- What stands before the free variables of a function: their number. -/
def binaryToFunStart (i : Nat) (data : List UInt8) : Except Fault (Decoded Nat) := do
  let numfree ← unpack 4 i data
  let i := i + 4
  let (i, _) ← binaryToPid py3 lib i data
  let (i, _) ← binaryToAtom py3 lib i data
  let (i, _) ← binaryToInteger i data
  let (i, _) ← binaryToInteger i data
  return (i, numfree)

/-- The index behind compressed data, and what it is decompressed to. -/
def uncompress (i : Nat) (data : List UInt8) : Except Fault (Decoded (List UInt8)) := do
  let sizeUncompressed ← unpack 4 i data
  if sizeUncompressed = 0 then .error (.parseException "compressed data null")
  else
    match lib.decompress (data.drop (i + 4)) with
    | none => .error .zlibError
    | some dataUncompressed =>
      if sizeUncompressed ≠ dataUncompressed.length then .error (.parseException "compression corrupt")
      else return (i + 4 + (data.drop (i + 4)).length, dataUncompressed)

/-- What is not called. -/
def uncalled (_ : Nat) (_ : List UInt8) : Except Fault (Decoded Value) := .error .indexError

def pairsBody (data : List UInt8) : Nat → Nat → List (Value × Value) → TermCall (Decoded (List (Value × Value)))
  | 0, i, pairs => pure (i, pairs)
  | length + 1, i, pairs => do
    let (i, key) ← ask (i, data)
    let (i, value) ← ask (i, data)
    let pairs ← done (store py3 lib key value pairs)
    pairsBody data length i pairs

def bodyOf : Tag → Nat → List UInt8 → TermCall (Decoded Value)
  | .smallTupleExt, i, data => do
    let length ← done (bOrd i data)
    let (p, rs) ← sequence next length.toNat (i + 1, data)
    return (p.1, .tuple (rs.map Prod.snd))
  | .largeTupleExt, i, data => do
    let length ← done (unpack 4 i data)
    let (p, rs) ← sequence next length (i + 4, data)
    return (p.1, .tuple (rs.map Prod.snd))
  | .listExt, i, data => do
    let length ← done (unpack 4 i data)
    let (p, rs) ← sequence next length (i + 4, data)
    let (i, tail) ← ask (p.1, data)
    return (i, listWithTail (rs.map Prod.snd) tail)
  | .mapExt, i, data => do
    let length ← done (unpack 4 i data)
    let (i, pairs) ← pairsBody py3 lib data length (i + 4) []
    return (i, .dict pairs)
  | .funExt, i, data => do
    let (i5, numfree) ← done (binaryToFunStart py3 lib i data)
    let (p, _) ← sequence next numfree (i5, data)
    return (p.1, .otpErlangFunction Tag.funExt.byte (slice i (p.1 - i) data))
  | .compressedZlib, i, data => do
    let (j, dataUncompressed) ← done (uncompress lib i data)
    let (iNew, term) ← ask (0, dataUncompressed)
    if iNew ≠ dataUncompressed.length then done (.error (.parseException "unparsed data")) else return (j, term)
  | tag, i, data => done (binaryToTermOf py3 lib uncalled tag i data)

def body (p : Place) : TermCall (Decoded Value) := do
  let tag ← done (bOrd p.1 p.2)
  match Tag.ofByte tag with
  | some tag => bodyOf py3 lib tag (p.1 + 1) p.2
  | none => done (.error (.parseException "invalid tag"))

variable {py3 lib} {f : Place → Except Fault (Decoded Value)} {terms : Nat → List UInt8 → Except Fault (Decoded Value)}

/-! ## The decoder and its calls -/

section Same

variable (hf : ∀ i data, terms i data = f (i, data))
include hf

theorem sequence_run (n i : Nat) (data : List UInt8) :
    binaryToTermSequence terms i n data =
      (sequence next n (i, data)).run f >>= fun x => .ok (x.1.1, x.2.map Prod.snd) := by
  induction n generalizing i with
  | zero => rfl
  | succ n ih =>
    rw [binaryToTermSequence, hf, sequence_succ, run_bind, run_ask]
    cases f (i, data) with
    | error e => rfl
    | ok r =>
      show (binaryToTermSequence terms r.1 n data >>= _) = ((sequence next n (r.1, data) >>= _).run f >>= _)
      rw [ih, run_bind]
      cases (sequence next n (r.1, data)).run f with
      | error e => rfl
      | ok x => rfl

theorem tuple_run (n i : Nat) (data : List UInt8) :
    binaryToTuple terms i n data =
      (do let (p, rs) ← sequence next n (i, data); return (p.1, .tuple (rs.map Prod.snd)) : TermCall _).run f := by
  rw [binaryToTuple, sequence_run hf, run_bind]
  cases (sequence next n (i, data)).run f with
  | error e => rfl
  | ok x => rfl

theorem pairs_run (n i : Nat) (pairs : List (Value × Value)) (data : List UInt8) :
    binaryToPairs py3 lib terms i n pairs data = (pairsBody py3 lib data n i pairs).run f := by
  induction n generalizing i pairs with
  | zero => rfl
  | succ n ih =>
    rw [binaryToPairs, pairsBody, hf, run_bind, run_ask]
    cases f (i, data) with
    | error e => rfl
    | ok key =>
      show (terms key.1 data >>= _) = (ask (key.1, data) >>= _).run f
      rw [hf, run_bind, run_ask]
      cases f (key.1, data) with
      | error e => rfl
      | ok value =>
        show (store py3 lib key.2 value.2 pairs >>= _) = (done (store py3 lib key.2 value.2 pairs) >>= _).run f
        rw [run_bind, run_done]
        cases store py3 lib key.2 value.2 pairs with
        | error e => rfl
        | ok pairs => exact ih value.1 pairs

theorem list_run (i : Nat) (data : List UInt8) :
    binaryToList terms i data = (bodyOf py3 lib .listExt i data).run f := by
  rw [binaryToList, bodyOf, run_bind, run_done]
  cases unpack 4 i data with
  | error e => rfl
  | ok length =>
    show (binaryToTermSequence terms (i + 4) length data >>= _) = (sequence next length (i + 4, data) >>= _).run f
    rw [sequence_run hf, run_bind]
    cases (sequence next length (i + 4, data)).run f with
    | error e => rfl
    | ok x =>
      show (terms x.1.1 data >>= _) = (ask (x.1.1, data) >>= _).run f
      rw [hf, run_bind, run_ask]
      cases f (x.1.1, data) with
      | error e => rfl
      | ok tail => rfl

theorem map_run (i : Nat) (data : List UInt8) :
    binaryToMap py3 lib terms i data = (bodyOf py3 lib .mapExt i data).run f := by
  rw [binaryToMap, bodyOf, run_bind, run_done]
  cases unpack 4 i data with
  | error e => rfl
  | ok length =>
    show (binaryToPairs py3 lib terms (i + 4) length [] data >>= _) =
      (pairsBody py3 lib data length (i + 4) [] >>= _).run f
    rw [pairs_run hf, run_bind]
    cases (pairsBody py3 lib data length (i + 4) []).run f with
    | error e => rfl
    | ok x => rfl

omit hf in
theorem fun_start (i : Nat) (data : List UInt8) :
    binaryToFun py3 lib terms i data = binaryToFunStart py3 lib i data >>= fun x => do
      let (i6, _) ← binaryToTermSequence terms x.1 x.2 data
      return (i6, .otpErlangFunction Tag.funExt.byte (slice i (i6 - i) data)) := by
  simp only [binaryToFun, binaryToFunStart, bind_assoc, pure_bind]

theorem fun_run (i : Nat) (data : List UInt8) :
    binaryToFun py3 lib terms i data = (bodyOf py3 lib .funExt i data).run f := by
  rw [fun_start, bodyOf, run_bind, run_done]
  cases binaryToFunStart py3 lib i data with
  | error e => rfl
  | ok x =>
    show (binaryToTermSequence terms x.1 x.2 data >>= _) = (sequence next x.2 (x.1, data) >>= _).run f
    rw [sequence_run hf, run_bind]
    cases (sequence next x.2 (x.1, data)).run f with
    | error e => rfl
    | ok y => rfl

theorem compressed_run (i : Nat) (data : List UInt8) :
    binaryToCompressed lib terms i data = (bodyOf py3 lib .compressedZlib i data).run f := by
  rw [binaryToCompressed, bodyOf, uncompress, run_bind, run_done]
  cases unpack 4 i data with
  | error e => rfl
  | ok size =>
    show (if size = 0 then _ else _) = (if size = 0 then _ else _) >>= _
    split
    · rfl
    · cases lib.decompress (data.drop (i + 4)) with
      | none => rfl
      | some dataUncompressed =>
        show (if size ≠ dataUncompressed.length then _ else _) = (if size ≠ dataUncompressed.length then _ else _) >>= _
        split
        · rfl
        · rename_i hsize
          show (terms 0 dataUncompressed >>= _) = (ask (0, dataUncompressed) >>= _).run f
          rw [hf, run_bind, run_ask, not_not.mp hsize]
          cases f (0, dataUncompressed) with
          | error e => rfl
          | ok r =>
            show (if r.1 ≠ dataUncompressed.length then _ else _) =
              (if r.1 ≠ dataUncompressed.length then _ else _ : TermCall _).run f
            split
            · rfl
            · rfl

theorem bodyOf_run (tag : Tag) (i : Nat) (data : List UInt8) :
    binaryToTermOf py3 lib terms tag i data = (bodyOf py3 lib tag i data).run f := by
  cases tag with
  | smallTupleExt =>
    rw [binaryToTermOf, bodyOf, run_bind, run_done]
    cases bOrd i data with
    | error e => rfl
    | ok length => exact tuple_run hf length.toNat (i + 1) data
  | largeTupleExt =>
    rw [binaryToTermOf, bodyOf, run_bind, run_done]
    cases unpack 4 i data with
    | error e => rfl
    | ok length => exact tuple_run hf length (i + 4) data
  | listExt => exact list_run hf i data
  | mapExt => exact map_run hf i data
  | funExt => exact fun_run hf i data
  | compressedZlib => exact compressed_run hf i data
  | _ => rfl

end Same

theorem binaryToTermAt_eq (depth i : Nat) (data : List UInt8) :
    binaryToTermAt py3 lib depth i data = descend (body py3 lib) .recursionError depth (i, data) := by
  induction depth generalizing i data with
  | zero => rfl
  | succ depth ih =>
    rw [binaryToTermAt, descend, body, run_bind, run_done]
    cases bOrd i data with
    | error e => rfl
    | ok b =>
      show (match Tag.ofByte b with
        | some tag => binaryToTermOf py3 lib (binaryToTermAt py3 lib depth) tag (i + 1) data
        | none => .error (.parseException "invalid tag")) = (match Tag.ofByte b with
        | some tag => bodyOf py3 lib tag (i + 1) data
        | none => done (.error (.parseException "invalid tag"))).run _
      cases Tag.ofByte b with
      | none => rfl
      | some tag => exact bodyOf_run ih tag (i + 1) data

/-! ## What it raises -/

/-- `binary_to_term` makes a `ParseException` of it. -/
def Fault.Parsed : Fault → Prop
  | .parseException _ | .structError | .indexError => True
  | _ => False

/-- Something is raised that stays what it is. -/
def Raises {α : Type} (x : Except Fault α) : Prop := ∃ e, x = .error e ∧ ¬e.Parsed

/-- So it is, and not by a call. -/
def Loud {α : Type} (f : Place → Except Fault (Decoded Value)) (x : TermCall α) : Prop := ∃ e, x.Fails f e ∧ ¬e.Parsed

section Raises

variable {α β : Type}

theorem not_raises_ok (a : α) : ¬Raises (.ok a : Except Fault α) := fun ⟨_, h, _⟩ => nomatch h

theorem not_raises_error {e : Fault} (h : e.Parsed) : ¬Raises (.error e : Except Fault α) :=
  fun ⟨_, he, hp⟩ => hp (Except.error.inj he ▸ h)

theorem raises_error {e : Fault} (h : ¬e.Parsed) : Raises (.error e : Except Fault α) := ⟨e, rfl, h⟩

theorem raises_bind (x : Except Fault α) (g : α → Except Fault β) :
    Raises (x >>= g) ↔ Raises x ∨ ∃ a, x = .ok a ∧ Raises (g a) := by
  cases x with
  | ok a =>
    refine ⟨fun h => .inr ⟨a, rfl, h⟩, ?_⟩
    rintro (h | ⟨_, ha, h⟩)
    · exact (not_raises_ok a h).elim
    · exact Except.ok.inj ha ▸ h
  | error e =>
    refine ⟨fun ⟨e', he, hp⟩ => .inl ⟨e', congrArg _ (Except.error.inj he), hp⟩, ?_⟩
    rintro (⟨e', he, hp⟩ | ⟨_, ha, _⟩)
    · exact ⟨e', congrArg _ (Except.error.inj he), hp⟩
    · cases ha

theorem raises_first {x : Except Fault α} {g : α → Except Fault β} (hg : ∀ a, ¬Raises (g a)) :
    Raises (x >>= g) ↔ Raises x := by
  rw [raises_bind]
  exact ⟨fun h => h.elim id fun ⟨a, _, h⟩ => (hg a h).elim, .inl⟩

theorem raises_second {x : Except Fault α} {g : α → Except Fault β} (hx : ¬Raises x) :
    Raises (x >>= g) ↔ ∃ a, x = .ok a ∧ Raises (g a) := by
  rw [raises_bind]
  exact ⟨fun h => h.elim (fun h => (hx h).elim) id, .inr⟩

theorem not_raises_bind {x : Except Fault α} {g : α → Except Fault β} (hx : ¬Raises x) (hg : ∀ a, ¬Raises (g a)) :
    ¬Raises (x >>= g) := fun h => hx ((raises_first hg).mp h)

theorem loud_done (x : Except Fault α) : Loud f (done x) ↔ Raises x := Iff.rfl

theorem not_loud_pure (a : α) : ¬Loud f (pure a : TermCall α) := fun ⟨_, h, _⟩ => fails_pure a h

theorem not_loud_ask (p : Place) : ¬Loud f (ask p) := fun ⟨_, h, _⟩ => fails_ask p h

theorem not_loud_sequence (n : Nat) (p : Place) : ¬Loud f (sequence next n p) := fun ⟨_, h, _⟩ => sequence_fails h

theorem loud_bind (x : TermCall α) (g : α → TermCall β) :
    Loud f (x >>= g) ↔ Loud f x ∨ ∃ a, x.run f = .ok a ∧ Loud f (g a) := by
  constructor
  · rintro ⟨e, h, he⟩
    rcases (fails_bind _ _).mp h with h | ⟨a, ha, h⟩
    · exact .inl ⟨e, h, he⟩
    · exact .inr ⟨a, ha, e, h, he⟩
  · rintro (⟨e, h, he⟩ | ⟨a, ha, e, h, he⟩)
    · exact ⟨e, (fails_bind _ _).mpr (.inl h), he⟩
    · exact ⟨e, (fails_bind _ _).mpr (.inr ⟨a, ha, h⟩), he⟩

theorem loud_first {x : TermCall α} {g : α → TermCall β} (hg : ∀ a, ¬Loud f (g a)) : Loud f (x >>= g) ↔ Loud f x := by
  rw [loud_bind]
  exact ⟨fun h => h.elim id fun ⟨a, _, h⟩ => (hg a h).elim, .inl⟩

end Raises

/-! ## Where it raises -/

variable (py3 lib)

/-- The node at an index raises something: its name is no UTF-8, or its length or its number is no number. -/
def BadNode (a : Nat) (data : List UInt8) : Prop :=
  match data[a]?.bind Tag.ofByte with
  | some .atomUtf8Ext => a + 3 ≤ data.length ∧ lib.validUtf8 (slice (a + 3) (number 2 (a + 1) data) data) = false
  | some .smallAtomUtf8Ext => py3 = true ∨ data.length ≤ a + 1 ∨
      lib.validUtf8 (slice (a + 2) (number 1 (a + 1) data) data) = false
  | some .smallAtomExt => py3 = true ∨ data.length ≤ a + 1
  | some .atomCacheRef => py3 = false ∧ data.length ≤ a + 1
  | _ => False

/-- Of the pairs at an index, one has a key that has no hash, or that does not compare with a key before it. -/
def BadPairs (f : Place → Except Fault (Decoded Value)) (data : List UInt8) : Nat → Nat → List (Value × Value) → Prop
  | 0, _, _ => False
  | length + 1, i, pairs => ∃ key value, f (i, data) = .ok key ∧ f (key.1, data) = .ok value ∧
      (Raises (store py3 lib key.2 value.2 pairs) ∨
        ∃ pairs', store py3 lib key.2 value.2 pairs = .ok pairs' ∧ BadPairs f data length value.1 pairs')

/-- What follows a tag raises something. -/
def BadTerm (f : Place → Except Fault (Decoded Value)) (tag : Tag) (i : Nat) (data : List UInt8) : Prop :=
  match tag with
  | .floatExt => lib.float ((slice i 31 data).takeWhile (· ≠ 0)) = none
  | .atomUtf8Ext => i + 2 ≤ data.length ∧ lib.validUtf8 (slice (i + 2) (number 2 i data) data) = false
  | .smallAtomUtf8Ext => py3 = true ∨ data.length ≤ i ∨ lib.validUtf8 (slice (i + 1) (number 1 i data) data) = false
  | .atomCacheRef => py3 = false ∧ data.length ≤ i
  | .referenceExt | .portExt | .pidExt => BadNode py3 lib i data
  | .newReferenceExt => i + 2 ≤ data.length ∧ BadNode py3 lib (i + 2) data
  | .exportExt => BadNode py3 lib i data ∨ ∃ x, binaryToAtom py3 lib i data = .ok x ∧ BadNode py3 lib x.1 data
  | .funExt => i + 4 ≤ data.length ∧ data[i + 4]? = some Tag.pidExt.byte ∧ (BadNode py3 lib (i + 5) data ∨
      ∃ x, binaryToPidFields py3 lib (i + 5) data = .ok x ∧ BadNode py3 lib x.1 data)
  | .mapExt => i + 4 ≤ data.length ∧ BadPairs py3 lib f data (number 4 i data) (i + 4) []
  | .compressedZlib => i + 4 ≤ data.length ∧ number 4 i data ≠ 0 ∧ lib.decompress (data.drop (i + 4)) = none
  | _ => False

/-- What stands there raises something by itself. -/
def Bad (f : Place → Except Fault (Decoded Value)) (p : Place) : Prop :=
  ∃ tag : Tag, p.2[p.1]? = some tag.byte ∧ BadTerm py3 lib f tag (p.1 + 1) p.2

variable {py3 lib}

section Read

variable {i j k n : Nat} {data : List UInt8}

theorem bOrd_quiet (i : Nat) (data : List UInt8) : ¬Raises (bOrd i data) := by
  unfold bOrd
  split
  · exact not_raises_ok _
  · exact not_raises_error trivial

theorem unpack_quiet (k i : Nat) (data : List UInt8) : ¬Raises (unpack k i data) := by
  unfold unpack
  split
  · exact not_raises_error trivial
  · exact not_raises_ok _

theorem slice_length (i n : Nat) (data : List UInt8) : (slice i n data).length = min n (data.length - i) := by
  rw [slice, List.length_take, List.length_drop]

theorem unpack_ok (hk : 0 < k) : unpack k i data = .ok n ↔ i + k ≤ data.length ∧ n = number k i data := by
  unfold unpack
  rw [slice_length]
  split
  · exact ⟨nofun, fun ⟨h, _⟩ => by omega⟩
  · exact ⟨fun h => ⟨by omega, (Except.ok.inj h).symm⟩, fun ⟨_, h⟩ => h ▸ rfl⟩

theorem bOrd_eq {b : UInt8} (h : bOrd i data = .ok b) : data[i]? = some b := by
  unfold bOrd at h
  split at h
  · rename_i hb
    exact hb.trans (congrArg some (Except.ok.inj h))
  · cases h

theorem number_one {b : UInt8} (h : data[i]? = some b) : number 1 i data = b.toNat := by
  have hd : (data.drop i).take 1 = [b] := by
    rw [List.take_one, List.head?_drop, h]
    rfl
  rw [number, hd]
  simp [ofBe]

theorem lt_of_getElem? {b : UInt8} (h : data[i]? = some b) : i < data.length := (List.getElem?_eq_some_iff.mp h).1

theorem smallLength_raises : Raises (smallLength py3 i data) ↔ py3 = true ∨ data.length ≤ i := by
  unfold smallLength
  split
  · rename_i h
    exact ⟨fun _ => .inl h, fun _ => raises_error id⟩
  · rename_i h
    split
    · rename_i b hb
      have := lt_of_getElem? hb
      exact ⟨fun h => (not_raises_ok _ h).elim, fun h' => h'.elim (absurd · h) fun h' => absurd h' (by omega)⟩
    · rename_i hb
      exact ⟨fun _ => .inr (List.getElem?_eq_none_iff.mp hb), fun _ => raises_error id⟩

theorem smallLength_ok (h : smallLength py3 i data = .ok n) : n = number 1 i data := by
  unfold smallLength at h
  split at h
  · cases h
  · split at h
    · rename_i b hb
      rw [number_one hb, Except.ok.inj h]
    · cases h

theorem cacheRef_raises : Raises (cacheRef py3 i data) ↔ py3 = false ∧ data.length ≤ i := by
  unfold cacheRef
  split
  · rename_i h
    exact ⟨fun h => (not_raises_ok _ h).elim, fun h' => nomatch h.symm.trans h'.1⟩
  · rename_i h
    split
    · rename_i b hb
      have := lt_of_getElem? hb
      exact ⟨fun h => (not_raises_ok _ h).elim, fun h' => absurd h'.2 (by omega)⟩
    · rename_i hb
      exact ⟨fun _ => ⟨Bool.eq_false_iff.mpr h, List.getElem?_eq_none_iff.mp hb⟩, fun _ => raises_error id⟩

theorem binaryToUnicode_raises : Raises (binaryToUnicode lib i j data) ↔ lib.validUtf8 (slice i j data) = false := by
  unfold binaryToUnicode
  split
  · rename_i h
    exact ⟨fun h => (not_raises_ok _ h).elim, fun h' => nomatch h.symm.trans h'⟩
  · rename_i h
    exact ⟨fun _ => Bool.eq_false_iff.mpr h, fun _ => raises_error id⟩

/-- A text with its length in two bytes. -/
theorem unicode_raises : Raises (unpack 2 i data >>= fun j => binaryToUnicode lib (i + 2) j data) ↔
    i + 2 ≤ data.length ∧ lib.validUtf8 (slice (i + 2) (number 2 i data) data) = false := by
  rw [raises_second (unpack_quiet 2 i data)]
  constructor
  · rintro ⟨n, hn, h⟩
    obtain ⟨hle, rfl⟩ := (unpack_ok (by decide)).mp hn
    exact ⟨hle, binaryToUnicode_raises.mp h⟩
  · rintro ⟨hle, h⟩
    exact ⟨_, (unpack_ok (by decide)).mpr ⟨hle, rfl⟩, binaryToUnicode_raises.mpr h⟩

theorem smallLength_of {b : UInt8} (hp : py3 ≠ true) (h : data[i]? = some b) :
    smallLength py3 i data = .ok b.toNat := by
  rw [smallLength, if_neg hp, h]

/-- A text with its length in one byte. -/
theorem smallUnicode_raises : Raises (smallLength py3 i data >>= fun j => binaryToUnicode lib (i + 1) j data) ↔
    py3 = true ∨ data.length ≤ i ∨ lib.validUtf8 (slice (i + 1) (number 1 i data) data) = false := by
  rw [raises_bind, smallLength_raises, or_assoc]
  constructor
  · rintro (h | h | ⟨n, hn, h⟩)
    · exact .inl h
    · exact .inr (.inl h)
    · obtain rfl := smallLength_ok hn
      exact .inr (.inr (binaryToUnicode_raises.mp h))
  · rintro (h | h | h)
    · exact .inl h
    · exact .inr (.inl h)
    · by_cases hp : py3 = true
      · exact .inl hp
      · by_cases hi : data.length ≤ i
        · exact .inr (.inl hi)
        · have hb : data[i]? = some data[i] := List.getElem?_eq_getElem (by omega)
          exact .inr (.inr ⟨_, smallLength_of hp hb, number_one hb ▸ binaryToUnicode_raises.mpr h⟩)

theorem raises_at {α : Type} {b : UInt8} (h : data[i]? = some b) (g : UInt8 → Except Fault α) :
    Raises (bOrd i data >>= g) ↔ Raises (g b) := by
  rw [bOrd, h]
  rfl

theorem binaryToAtom_raises : Raises (binaryToAtom py3 lib i data) ↔ BadNode py3 lib i data := by
  rw [binaryToAtom, BadNode]
  cases hat : data[i]? with
  | none =>
    refine ⟨fun h => ?_, False.elim⟩
    obtain ⟨b, hb, -⟩ := (raises_second (bOrd_quiet i data)).mp h
    rw [bOrd_eq hb] at hat
    cases hat
  | some b =>
    refine (raises_at hat _).trans ?_
    rw [Option.bind_some]
    cases htag : Tag.ofByte b with
    | none =>
      simp only
      exact ⟨fun h => (not_raises_error (e := .parseException _) trivial h).elim, False.elim⟩
    | some tag =>
      simp only
      cases tag with
      | atomUtf8Ext => exact unicode_raises
      | smallAtomUtf8Ext => exact smallUnicode_raises
      | smallAtomExt => exact (raises_first fun _ => not_raises_ok _).trans smallLength_raises
      | atomCacheRef => exact (raises_first fun _ => not_raises_ok _).trans cacheRef_raises
      | atomExt =>
        exact ⟨fun h => (unpack_quiet 2 _ data ((raises_first fun _ => not_raises_ok _).mp h)).elim, False.elim⟩
      | _ => exact ⟨fun h => (not_raises_error (e := .parseException _) trivial h).elim, False.elim⟩

theorem binaryToNodeId_raises {make : AtomValue → List UInt8 → List UInt8 → Value} :
    Raises (binaryToNodeId py3 lib make i data) ↔ BadNode py3 lib i data :=
  (raises_first fun _ => not_raises_ok _).trans binaryToAtom_raises

theorem binaryToPidFields_raises : Raises (binaryToPidFields py3 lib i data) ↔ BadNode py3 lib i data :=
  (raises_first fun _ => not_raises_ok _).trans binaryToAtom_raises

theorem binaryToSmallInteger_quiet (i : Nat) (data : List UInt8) : ¬Raises (binaryToSmallInteger i data) :=
  not_raises_bind (bOrd_quiet i data) fun _ => not_raises_ok _

theorem binaryToInt32_quiet (i : Nat) (data : List UInt8) : ¬Raises (binaryToInt32 i data) :=
  not_raises_bind (unpack_quiet 4 i data) fun _ => not_raises_ok _

theorem binaryToInteger_quiet (i : Nat) (data : List UInt8) : ¬Raises (binaryToInteger i data) := by
  refine not_raises_bind (bOrd_quiet i data) fun tag => ?_
  simp only
  split
  · exact binaryToSmallInteger_quiet _ data
  · exact binaryToInt32_quiet _ data
  · exact not_raises_error trivial

theorem bignumLoop_quiet (i n b : Nat) (data : List UInt8) : ¬Raises (bignumLoop data i n b) := by
  induction n generalizing b with
  | zero => exact not_raises_ok _
  | succ n ih => exact not_raises_bind (bOrd_quiet _ data) fun _ => ih _

theorem binaryToBignum_quiet (i j : Nat) (data : List UInt8) : ¬Raises (binaryToBignum i j data) :=
  not_raises_bind (bOrd_quiet i data) fun _ => not_raises_bind (bignumLoop_quiet i j 0 data) fun _ => not_raises_ok _

theorem binaryToExport_raises : Raises (binaryToExport py3 lib i data) ↔
    BadNode py3 lib i data ∨ ∃ x, binaryToAtom py3 lib i data = .ok x ∧ BadNode py3 lib x.1 data := by
  rw [binaryToExport, raises_bind, binaryToAtom_raises]
  refine or_congr_right (exists_congr fun x => and_congr_right fun _ => ?_)
  refine Iff.trans (raises_first fun y => ?_) binaryToAtom_raises
  refine not_raises_bind (bOrd_quiet _ data) fun tag => ?_
  simp only
  split
  · exact not_raises_error trivial
  · exact not_raises_bind (bOrd_quiet _ data) fun _ => not_raises_ok _

theorem binaryToNewReference_raises :
    Raises (binaryToNewReference py3 lib i data) ↔ i + 2 ≤ data.length ∧ BadNode py3 lib (i + 2) data := by
  rw [binaryToNewReference, raises_second (unpack_quiet 2 i data)]
  constructor
  · rintro ⟨n, hn, h⟩
    exact ⟨((unpack_ok (by decide)).mp hn).1, binaryToAtom_raises.mp ((raises_first fun _ => not_raises_ok _).mp h)⟩
  · rintro ⟨hle, h⟩
    exact ⟨_, (unpack_ok (by decide)).mpr ⟨hle, rfl⟩,
      (raises_first fun _ => not_raises_ok _).mpr (binaryToAtom_raises.mpr h)⟩

theorem binaryToPid_pid (h : data[i]? = some Tag.pidExt.byte) :
    binaryToPid py3 lib i data = binaryToPidFields py3 lib (i + 1) data := by
  rw [binaryToPid, bOrd, h]
  rfl

theorem binaryToPid_other (py3 : Bool) (lib : Library) (h : data[i]? ≠ some Tag.pidExt.byte) :
    ¬Raises (binaryToPid py3 lib i data) ∧
    ∀ x, binaryToPid py3 lib i data ≠ .ok x := by
  cases hb : bOrd i data with
  | error e =>
    have heq : binaryToPid py3 lib i data = .error e := by
      rw [binaryToPid, hb]
      rfl
    rw [heq]
    refine ⟨?_, by intro x hx; cases hx⟩
    rintro ⟨e', he, hp⟩
    exact bOrd_quiet i data ⟨e', hb.trans (congrArg _ (Except.error.inj he)), hp⟩
  | ok b =>
    have hat := bOrd_eq hb
    have heq : binaryToPid py3 lib i data = .error (.parseException "invalid pid tag") := by
      rw [binaryToPid, bind_ok hb]
      dsimp only
      split
      · rename_i htag
        exact absurd (hat.trans (congrArg some (ofByte_eq_some htag))) h
      · rfl
    rw [heq]
    exact ⟨not_raises_error trivial, by intro x hx; cases hx⟩

theorem binaryToFunStart_raises : Raises (binaryToFunStart py3 lib i data) ↔
    i + 4 ≤ data.length ∧ data[i + 4]? = some Tag.pidExt.byte ∧ (BadNode py3 lib (i + 5) data ∨
      ∃ x, binaryToPidFields py3 lib (i + 5) data = .ok x ∧ BadNode py3 lib x.1 data) := by
  rw [binaryToFunStart, raises_second (unpack_quiet 4 i data)]
  constructor
  · rintro ⟨n, hn, h⟩
    refine ⟨((unpack_ok (by decide)).mp hn).1, ?_⟩
    by_cases hp : data[i + 4]? = some Tag.pidExt.byte
    · refine ⟨hp, ?_⟩
      simp only [binaryToPid_pid hp] at h
      rcases (raises_bind _ _).mp h with h | ⟨x, hx, h⟩
      · exact .inl (binaryToPidFields_raises.mp h)
      · refine .inr ⟨x, hx, binaryToAtom_raises.mp ((raises_first fun _ => ?_).mp h)⟩
        exact not_raises_bind (binaryToInteger_quiet _ data) fun _ =>
          not_raises_bind (binaryToInteger_quiet _ data) fun _ => not_raises_ok _
    · obtain ⟨hq, hne⟩ := binaryToPid_other py3 lib hp
      rcases (raises_bind _ _).mp h with h | ⟨x, hx, h⟩
      · exact absurd h hq
      · exact absurd hx (hne x)
  · rintro ⟨hle, hp, h⟩
    refine ⟨_, (unpack_ok (by decide)).mpr ⟨hle, rfl⟩, ?_⟩
    simp only [binaryToPid_pid hp]
    refine (raises_bind _ _).mpr ?_
    rcases h with h | ⟨x, hx, h⟩
    · exact .inl (binaryToPidFields_raises.mpr h)
    · refine .inr ⟨x, hx, (raises_first fun _ => ?_).mpr (binaryToAtom_raises.mpr h)⟩
      exact not_raises_bind (binaryToInteger_quiet _ data) fun _ =>
        not_raises_bind (binaryToInteger_quiet _ data) fun _ => not_raises_ok _

theorem uncompress_raises : Raises (uncompress lib i data) ↔
    i + 4 ≤ data.length ∧ number 4 i data ≠ 0 ∧ lib.decompress (data.drop (i + 4)) = none := by
  rw [uncompress, raises_second (unpack_quiet 4 i data)]
  have hone : ∀ n, Raises (if n = 0 then (.error (.parseException "compressed data null") : Except Fault _)
      else
        match lib.decompress (data.drop (i + 4)) with
        | none => .error .zlibError
        | some dataUncompressed =>
          if n ≠ dataUncompressed.length then .error (.parseException "compression corrupt")
          else .ok (i + 4 + (data.drop (i + 4)).length, dataUncompressed)) ↔
      n ≠ 0 ∧ lib.decompress (data.drop (i + 4)) = none := by
    intro n
    split
    · rename_i hn
      exact ⟨fun h => (not_raises_error (e := .parseException _) trivial h).elim, fun h => absurd hn h.1⟩
    · rename_i hn
      split
      · rename_i hd
        exact ⟨fun _ => ⟨hn, hd⟩, fun _ => raises_error id⟩
      · rename_i d hd
        refine ⟨fun h => ?_, fun h => nomatch hd.symm.trans h.2⟩
        split at h
        · exact (not_raises_error (e := .parseException _) trivial h).elim
        · exact (not_raises_ok _ h).elim
  constructor
  · rintro ⟨n, hn, h⟩
    obtain ⟨hle, rfl⟩ := (unpack_ok (by decide)).mp hn
    exact ⟨hle, (hone _).mp h⟩
  · rintro ⟨hle, h⟩
    exact ⟨_, (unpack_ok (by decide)).mpr ⟨hle, rfl⟩, (hone _).mpr h⟩

end Read

/-- The tags behind which there can be terms. -/
def Composite (tag : Tag) : Prop :=
  tag = .smallTupleExt ∨ tag = .largeTupleExt ∨ tag = .listExt ∨ tag = .mapExt ∨ tag = .funExt ∨ tag = .compressedZlib

theorem bodyOf_leaf {tag : Tag} (ht : ¬Composite tag) (i : Nat) (data : List UInt8) :
    bodyOf py3 lib tag i data = done (binaryToTermOf py3 lib uncalled tag i data) := by
  unfold Composite at ht
  cases tag <;> first | rfl | simp at ht

theorem leaf_raises {tag : Tag} (ht : ¬Composite tag) (i : Nat) (data : List UInt8) :
    Raises (binaryToTermOf py3 lib uncalled tag i data) ↔ BadTerm py3 lib f tag i data := by
  have hquiet : ∀ {x : Except Fault (Decoded Value)}, ¬Raises x → (Raises x ↔ False) := fun h => iff_false_intro h
  have hname : ∀ (k : Nat) (g : Nat → Decoded Value), ¬Raises (unpack k i data >>= fun j => .ok (g j)) := fun k g =>
    not_raises_bind (unpack_quiet k i data) fun _ => not_raises_ok _
  unfold Composite at ht
  cases tag with
  | newFloatExt => exact hquiet (hname 8 _)
  | bitBinaryExt =>
    exact hquiet (not_raises_bind (unpack_quiet 4 i data) fun _ => not_raises_bind (bOrd_quiet _ data) fun _ =>
      not_raises_ok _)
  | atomCacheRef => exact (raises_first fun _ => not_raises_ok _).trans cacheRef_raises
  | smallIntegerExt => exact hquiet (binaryToSmallInteger_quiet i data)
  | integerExt => exact hquiet (binaryToInt32_quiet i data)
  | floatExt =>
    cases hf : lib.float ((slice i 31 data).takeWhile (· ≠ 0)) with
    | some value =>
      have heq : binaryToTermOf py3 lib uncalled .floatExt i data = .ok (i + 31, .float value) := by
        rw [binaryToTermOf, hf]
      rw [heq]
      exact ⟨fun h => (not_raises_ok _ h).elim, fun h => absurd (hf.symm.trans h) (Option.some_ne_none value)⟩
    | none =>
      have heq : binaryToTermOf py3 lib uncalled .floatExt i data = .error .valueError := by
        rw [binaryToTermOf, hf]
      rw [heq]
      exact ⟨fun _ => hf, fun _ => raises_error id⟩
  | atomExt | stringExt => exact hquiet (hname 2 _)
  | binaryExt | newFunExt => exact hquiet (hname 4 _)
  | referenceExt | portExt => exact binaryToNodeId_raises
  | pidExt => exact binaryToPidFields_raises
  | nilExt => exact hquiet (not_raises_ok _)
  | smallBigExt => exact hquiet (not_raises_bind (bOrd_quiet i data) fun _ => binaryToBignum_quiet _ _ data)
  | largeBigExt => exact hquiet (not_raises_bind (unpack_quiet 4 i data) fun _ => binaryToBignum_quiet _ _ data)
  | exportExt => exact binaryToExport_raises
  | newReferenceExt => exact binaryToNewReference_raises
  | smallAtomExt => exact hquiet (not_raises_bind (bOrd_quiet i data) fun _ => not_raises_ok _)
  | atomUtf8Ext =>
    show Raises (unpack 2 i data >>= fun j => binaryToUnicode lib (i + 2) j data >>= fun x =>
      .ok (x.1, Value.otpErlangAtom x.2)) ↔ _
    rw [← bind_assoc]
    exact (raises_first fun _ => not_raises_ok _).trans unicode_raises
  | smallAtomUtf8Ext =>
    show Raises (smallLength py3 i data >>= fun j => binaryToUnicode lib (i + 1) j data >>= fun x =>
      .ok (x.1, Value.otpErlangAtom x.2)) ↔ _
    rw [← bind_assoc]
    exact (raises_first fun _ => not_raises_ok _).trans smallUnicode_raises
  | smallTupleExt | largeTupleExt | listExt | mapExt | funExt | compressedZlib => simp at ht

theorem pairs_loud {data : List UInt8} {n i : Nat} {pairs : List (Value × Value)} :
    Loud f (pairsBody py3 lib data n i pairs) ↔ BadPairs py3 lib f data n i pairs := by
  induction n generalizing i pairs with
  | zero => exact ⟨fun h => (not_loud_pure _ h).elim, False.elim⟩
  | succ n ih =>
    rw [pairsBody, BadPairs, loud_bind]
    constructor
    · rintro (h | ⟨key, hkey, h⟩)
      · exact (not_loud_ask _ h).elim
      · rw [run_ask] at hkey
        rcases (loud_bind _ _).mp h with h | ⟨value, hvalue, h⟩
        · exact (not_loud_ask _ h).elim
        · rw [run_ask] at hvalue
          refine ⟨key, value, hkey, hvalue, ?_⟩
          rcases (loud_bind _ _).mp h with h | ⟨pairs', hs, h⟩
          · exact .inl h
          · exact .inr ⟨pairs', hs, ih.mp h⟩
    · rintro ⟨key, value, hkey, hvalue, h⟩
      refine .inr ⟨key, (run_ask _).trans hkey, (loud_bind _ _).mpr (.inr ⟨value, (run_ask _).trans hvalue, ?_⟩)⟩
      refine (loud_bind _ _).mpr ?_
      rcases h with h | ⟨pairs', hs, h⟩
      · exact .inl h
      · exact .inr ⟨pairs', hs, ih.mpr h⟩

theorem bodyOf_loud (tag : Tag) (i : Nat) (data : List UInt8) :
    Loud f (bodyOf py3 lib tag i data) ↔ BadTerm py3 lib f tag i data := by
  have hcounted : ∀ {α : Type} {x : Except Fault α} {n : α → Nat} {p : α → Place}
      {g : α → Place × List (Decoded Value) → TermCall (Decoded Value)}, (∀ a z, ¬Loud f (g a z)) →
      (Loud f (done x >>= fun a => sequence next (n a) (p a) >>= g a) ↔ Raises x) := by
    intro α x n p g hg
    refine (loud_first fun a h => ?_).trans (loud_done x)
    exact not_loud_sequence _ _ ((loud_first (hg a)).mp h)
  by_cases ht : Composite tag
  · rcases ht with rfl | rfl | rfl | rfl | rfl | rfl
    · exact (hcounted fun _ _ => not_loud_pure _).trans (iff_false_intro (bOrd_quiet i data))
    · exact (hcounted fun _ _ => not_loud_pure _).trans (iff_false_intro (unpack_quiet 4 i data))
    · refine (hcounted fun _ z h => ?_).trans (iff_false_intro (unpack_quiet 4 i data))
      exact not_loud_ask _ ((loud_first fun _ => not_loud_pure _).mp h)
    · rw [bodyOf, loud_bind]
      constructor
      · rintro (h | ⟨n, hn, h⟩)
        · exact (unpack_quiet 4 i data h).elim
        · obtain ⟨hle, rfl⟩ := (unpack_ok (by decide)).mp hn
          exact ⟨hle, pairs_loud.mp ((loud_first fun _ => not_loud_pure _).mp h)⟩
      · rintro ⟨hle, h⟩
        exact .inr ⟨_, (unpack_ok (by decide)).mpr ⟨hle, rfl⟩,
          (loud_first fun _ => not_loud_pure _).mpr (pairs_loud.mpr h)⟩
    · exact (hcounted fun _ _ => not_loud_pure _).trans binaryToFunStart_raises
    · rw [bodyOf]
      refine (loud_first fun x h => ?_).trans uncompress_raises
      refine not_loud_ask _ ((loud_first fun r h => ?_).mp h)
      simp only at h
      split at h
      · exact not_raises_error (e := .parseException _) trivial h
      · exact not_loud_pure _ h
  · rw [bodyOf_leaf ht]
    exact leaf_raises ht i data

theorem bOrd_of {i : Nat} {data : List UInt8} {b : UInt8} (h : data[i]? = some b) : bOrd i data = .ok b := by
  rw [bOrd, h]

theorem body_loud {p : Place} : Loud f (body py3 lib p) ↔ Bad py3 lib f p := by
  rw [body, loud_bind]
  constructor
  · rintro (h | ⟨b, hb, h⟩)
    · exact (bOrd_quiet p.1 p.2 h).elim
    · have hat : p.2[p.1]? = some b := bOrd_eq hb
      cases htag : Tag.ofByte b with
      | none =>
        rw [htag] at h
        exact (not_raises_error (e := .parseException _) trivial h).elim
      | some tag =>
        rw [htag] at h
        exact ⟨tag, hat.trans (congrArg some (ofByte_eq_some htag)), (bodyOf_loud tag _ _).mp h⟩
  · rintro ⟨tag, hat, h⟩
    refine .inr ⟨tag.byte, bOrd_of hat, ?_⟩
    rw [Tag.ofByte_byte]
    exact (bodyOf_loud tag _ _).mpr h

theorem binaryToTermAt_raises_iff {depth i : Nat} {data : List UInt8} :
    Raises (binaryToTermAt py3 lib depth i data) ↔
      ∃ m p, Visits (body py3 lib) .recursionError depth (i, data) m p ∧
        (m = 0 ∨ ∃ n, m = n + 1 ∧ Bad py3 lib (descend (body py3 lib) .recursionError n) p) := by
  constructor
  · rintro ⟨e, h, he⟩
    rw [binaryToTermAt_eq, descend_error_iff] at h
    obtain ⟨m, p, hv, hs⟩ := h
    refine ⟨m, p, hv, ?_⟩
    cases m with
    | zero => exact .inl rfl
    | succ m => exact .inr ⟨m, rfl, body_loud.mp ⟨e, hs, he⟩⟩
  · rintro ⟨m, p, hv, rfl | ⟨n, rfl, hb⟩⟩
    · exact ⟨.recursionError, (binaryToTermAt_eq _ _ _).trans (visits_error hv rfl), id⟩
    · obtain ⟨e, hs, he⟩ := body_loud.mpr hb
      exact ⟨e, (binaryToTermAt_eq _ _ _).trans (visits_error hv (stops_error hs)), he⟩

/-! ## What it accepts -/

/-- The bytes of a `NEW_FUN_EXT` start with its length. -/
def layout : Layout := ⟨1, 0⟩

section Lengths

variable {i j n : Nat} {data : List UInt8} {v : Value}

theorem unpack_eq (k : Nat) (h : unpack k i data = .ok n) : n = number k i data := by
  unfold unpack at h
  split at h
  · cases h
  · exact (Except.ok.inj h).symm

theorem bOrd_number {b : UInt8} (h : bOrd i data = .ok b) : b.toNat = number 1 i data := (number_one (bOrd_eq h)).symm

theorem binaryToUnicode_end {x : Decoded AtomValue} (h : binaryToUnicode lib i n data = .ok x) : x.1 = i + n := by
  unfold binaryToUnicode at h
  split at h
  · rw [← Except.ok.inj h]
  · cases h

theorem binaryToAtom_end {x : Decoded AtomValue} (h : binaryToAtom py3 lib i data = .ok x) :
    x.1 = layout.nodeEnd i data := by
  obtain ⟨b, hb, h⟩ := bind_eq_ok h
  unfold Layout.nodeEnd Layout.node
  rw [bOrd_eq hb, Option.bind_some]
  simp only at h
  split at h
  · rename_i htag
    obtain ⟨j, hj, h⟩ := bind_eq_ok h
    rw [← Except.ok.inj h, htag, unpack_eq 2 hj]
  · rename_i htag
    obtain ⟨_, -, h⟩ := bind_eq_ok h
    rw [← Except.ok.inj h, htag]
  · rename_i htag
    obtain ⟨j, hj, h⟩ := bind_eq_ok h
    rw [← Except.ok.inj h, htag, smallLength_ok hj]
    rfl
  · rename_i htag
    obtain ⟨j, hj, h⟩ := bind_eq_ok h
    rw [binaryToUnicode_end h, htag, unpack_eq 2 hj]
  · rename_i htag
    obtain ⟨j, hj, h⟩ := bind_eq_ok h
    rw [binaryToUnicode_end h, htag, smallLength_ok hj]
    rfl
  · cases h

theorem binaryToNodeId_end {make : AtomValue → List UInt8 → List UInt8 → Value}
    (h : binaryToNodeId py3 lib make i data = .ok (j, v)) : j = layout.nodeEnd i data + 5 := by
  obtain ⟨x, hx, h⟩ := bind_eq_ok h
  have hx := binaryToAtom_end hx
  cases h
  rw [hx]

theorem binaryToPidFields_end (h : binaryToPidFields py3 lib i data = .ok (j, v)) :
    j = layout.nodeEnd i data + 9 := by
  obtain ⟨x, hx, h⟩ := bind_eq_ok h
  have hx := binaryToAtom_end hx
  cases h
  rw [hx]

theorem binaryToPid_end (h : binaryToPid py3 lib i data = .ok (j, v)) : j = layout.nodeEnd (i + 1) data + 9 := by
  obtain ⟨b, -, h⟩ := bind_eq_ok h
  simp only at h
  split at h
  · exact binaryToPidFields_end h
  · cases h

theorem binaryToInteger_le (h : binaryToInteger i data = .ok (j, v)) : i ≤ j := by
  obtain ⟨b, -, h⟩ := bind_eq_ok h
  simp only at h
  split at h
  · obtain ⟨_, -, h⟩ := bind_eq_ok h
    cases h
    omega
  · obtain ⟨_, -, h⟩ := bind_eq_ok h
    cases h
    omega
  · cases h

theorem binaryToBignum_end (h : binaryToBignum i n data = .ok (j, v)) : j = i + 1 + n := by
  obtain ⟨_, -, h⟩ := bind_eq_ok h
  obtain ⟨_, -, h⟩ := bind_eq_ok h
  cases h
  rfl

theorem binaryToExport_end (h : binaryToExport py3 lib i data = .ok (j, v)) :
    j = layout.nodeEnd (layout.nodeEnd i data) data + 2 := by
  obtain ⟨x, hx, h⟩ := bind_eq_ok h
  obtain ⟨y, hy, h⟩ := bind_eq_ok h
  have hx := binaryToAtom_end hx
  have hy := binaryToAtom_end hy
  obtain ⟨b, -, h⟩ := bind_eq_ok h
  simp only at h
  split at h
  · cases h
  · obtain ⟨_, -, h⟩ := bind_eq_ok h
    cases h
    rw [hy, hx]

theorem binaryToNewReference_end (h : binaryToNewReference py3 lib i data = .ok (j, v)) :
    j = layout.nodeEnd (i + 2) data + 1 + number 2 i data * 4 := by
  obtain ⟨n, hn, h⟩ := bind_eq_ok h
  obtain ⟨x, hx, h⟩ := bind_eq_ok h
  have hn := unpack_eq 2 hn
  have hx := binaryToAtom_end hx
  cases h
  rw [hx, hn]

theorem binaryToFunStart_le (h : binaryToFunStart py3 lib i data = .ok (j, n)) :
    layout.nodeEnd (layout.nodeEnd (i + 5) data + 9) data ≤ j := by
  obtain ⟨_, -, h⟩ := bind_eq_ok h
  obtain ⟨⟨i2, _⟩, hp, h⟩ := bind_eq_ok h
  obtain ⟨x, hx, h⟩ := bind_eq_ok h
  obtain ⟨⟨i4, _⟩, h4, h⟩ := bind_eq_ok h
  obtain ⟨⟨i5, _⟩, h5, h⟩ := bind_eq_ok h
  have hp := binaryToPid_end hp
  have hx := binaryToAtom_end hx
  have h4 := binaryToInteger_le h4
  have h5 := binaryToInteger_le h5
  cases h
  rw [hp] at hx
  show layout.nodeEnd (layout.nodeEnd (i + 4 + 1) data + 9) data ≤ _
  omega

/-- What a term is read from has all that its lengths say. -/
theorem leaf_lengths {tag : Tag} (ht : ¬Composite tag)
    (h : binaryToTermOf py3 lib uncalled tag i data = .ok (j, v)) :
    i ≤ j ∧ ∀ s ∈ layout.lengths tag i data, s.1 + s.2 ≤ j := by
  have hnode := layout.lt_nodeEnd i data
  unfold Layout.lengths
  cases tag with
  | newFloatExt | integerExt | atomCacheRef | smallIntegerExt =>
    obtain ⟨_, -, h⟩ := bind_eq_ok h
    cases h
    exact ⟨by omega, nofun⟩
  | bitBinaryExt =>
    obtain ⟨n, hn, h⟩ := bind_eq_ok h
    obtain rfl := unpack_eq 4 hn
    obtain ⟨_, -, h⟩ := bind_eq_ok h
    cases h
    exact ⟨by omega, fun s hs => by rw [List.mem_singleton.mp hs]⟩
  | floatExt =>
    rw [binaryToTermOf] at h
    split at h
    · cases h
      exact ⟨by omega, nofun⟩
    · cases h
  | atomExt | stringExt =>
    obtain ⟨n, hn, h⟩ := bind_eq_ok h
    obtain rfl := unpack_eq 2 hn
    cases h
    exact ⟨by omega, fun s hs => by rw [List.mem_singleton.mp hs]⟩
  | atomUtf8Ext =>
    obtain ⟨n, hn, h⟩ := bind_eq_ok h
    obtain rfl := unpack_eq 2 hn
    obtain ⟨x, hx, h⟩ := bind_eq_ok h
    have hx := binaryToUnicode_end hx
    cases h
    exact ⟨by omega, fun s hs => by rw [List.mem_singleton.mp hs, hx]⟩
  | newFunExt =>
    obtain ⟨n, hn, h⟩ := bind_eq_ok h
    obtain rfl := unpack_eq 4 hn
    cases h
    exact ⟨by omega, fun s hs => by rw [List.mem_singleton.mp hs]; rfl⟩
  | smallAtomExt =>
    obtain ⟨n, hn, h⟩ := bind_eq_ok h
    have hn := bOrd_number hn
    cases h
    exact ⟨by omega, fun s hs => by rw [List.mem_singleton.mp hs, hn]⟩
  | smallAtomUtf8Ext =>
    obtain ⟨n, hn, h⟩ := bind_eq_ok h
    have hn := smallLength_ok hn
    obtain ⟨x, hx, h⟩ := bind_eq_ok h
    have hx := binaryToUnicode_end hx
    cases h
    exact ⟨by omega, fun s hs => by rw [List.mem_singleton.mp hs, hx, hn]⟩
  | binaryExt =>
    obtain ⟨n, hn, h⟩ := bind_eq_ok h
    obtain rfl := unpack_eq 4 hn
    cases h
    exact ⟨by omega, fun s hs => by rw [List.mem_singleton.mp hs]⟩
  | referenceExt | portExt =>
    obtain rfl := binaryToNodeId_end h
    refine ⟨by omega, fun s hs => ?_⟩
    rw [List.mem_singleton.mp hs]
    exact Layout.node_le (by omega)
  | pidExt =>
    obtain rfl := binaryToPidFields_end h
    refine ⟨by omega, fun s hs => ?_⟩
    rw [List.mem_singleton.mp hs]
    exact Layout.node_le (by omega)
  | nilExt =>
    cases h
    exact ⟨le_rfl, nofun⟩
  | smallBigExt =>
    obtain ⟨n, hn, h⟩ := bind_eq_ok h
    have hn := bOrd_number hn
    obtain rfl := binaryToBignum_end h
    refine ⟨by omega, fun s hs => ?_⟩
    rw [List.mem_singleton.mp hs, hn]
  | largeBigExt =>
    obtain ⟨n, hn, h⟩ := bind_eq_ok h
    obtain rfl := unpack_eq 4 hn
    obtain rfl := binaryToBignum_end h
    refine ⟨by omega, fun s hs => ?_⟩
    rw [List.mem_singleton.mp hs]
  | exportExt =>
    obtain rfl := binaryToExport_end h
    have hnode' := layout.lt_nodeEnd (layout.nodeEnd i data) data
    refine ⟨by omega, fun s hs => ?_⟩
    rcases List.mem_cons.mp hs with rfl | hs
    · exact Layout.node_le (by omega)
    · rw [List.mem_singleton.mp hs]
      exact Layout.node_le (by omega)
  | newReferenceExt =>
    obtain rfl := binaryToNewReference_end h
    have hnode' := layout.lt_nodeEnd (i + 2) data
    refine ⟨by omega, fun s hs => ?_⟩
    rcases List.mem_cons.mp hs with rfl | hs
    · exact Layout.node_le (by omega)
    · rw [List.mem_singleton.mp hs]
      simp only
      omega
  | smallTupleExt | largeTupleExt | listExt | mapExt | funExt | compressedZlib => simp [Composite] at ht

/-- What is read for a map ends before the map does. -/
theorem pairs_read (hle : ∀ p r, f p = .ok r → p.1 ≤ r.1) {pairs pairs' : List (Value × Value)}
    (h : (pairsBody py3 lib data n i pairs).run f = .ok (j, pairs')) :
    i ≤ j ∧ ∀ q, (pairsBody py3 lib data n i pairs).Calls f q → q.2 = data ∧ ∀ r, f q = .ok r → r.1 ≤ j := by
  induction n generalizing i pairs with
  | zero =>
    cases h
    exact ⟨le_rfl, fun q hq => (calls_pure _ hq).elim⟩
  | succ n ih =>
    rw [pairsBody, run_bind, run_ask] at h
    obtain ⟨key, hkey, h⟩ := bind_eq_ok h
    simp only at h
    rw [run_bind, run_ask] at h
    obtain ⟨value, hvalue, h⟩ := bind_eq_ok h
    rw [run_bind] at h
    obtain ⟨pairs₁, hs, h⟩ := bind_eq_ok h
    obtain ⟨hj, hcalls⟩ := ih h
    have h₁ := hle _ _ hkey
    have h₂ := hle _ _ hvalue
    simp only at h₁ h₂
    refine ⟨by omega, fun q hq => ?_⟩
    rw [pairsBody, calls_bind] at hq
    rcases hq with hq | ⟨key', hkey', hq⟩
    · obtain rfl := (calls_ask _).mp hq
      refine ⟨rfl, fun r hr => ?_⟩
      obtain rfl := Except.ok.inj (hkey.symm.trans hr)
      omega
    · rw [run_ask] at hkey'
      obtain rfl := Except.ok.inj (hkey.symm.trans hkey')
      rcases (calls_bind _ _).mp hq with hq | ⟨value', hvalue', hq⟩
      · obtain rfl := (calls_ask _).mp hq
        refine ⟨rfl, fun r hr => ?_⟩
        obtain rfl := Except.ok.inj (hvalue.symm.trans hr)
        omega
      · rw [run_ask] at hvalue'
        obtain rfl := Except.ok.inj (hvalue.symm.trans hvalue')
        rcases (calls_bind _ _).mp hq with hq | ⟨pairs₂, hs', hq⟩
        · exact hq.elim
        · obtain rfl := Except.ok.inj (hs.symm.trans hs')
          exact hcalls q hq

/-- A call is in the same data and ends before the end, or it is in data of its own, which it reads to its end. -/
def Within (f : Place → Except Fault (Decoded Value)) (data : List UInt8) (j : Nat) (q : Place) : Prop :=
  (q.2 = data ∧ ∀ r, f q = .ok r → r.1 ≤ j) ∨ ∀ r, f q = .ok r → r.1 ≤ q.2.length

/-- What a composite term is read from has all that its lengths say, and its terms end in it. -/
theorem composite_lengths {tag : Tag} (ht : Composite tag) (hle : ∀ p r, f p = .ok r → p.1 ≤ r.1)
    (h : (bodyOf py3 lib tag i data).run f = .ok (j, v)) :
    (i ≤ j ∧ ∀ s ∈ layout.lengths tag i data, s.1 + s.2 ≤ j) ∧
      ∀ q, (bodyOf py3 lib tag i data).Calls f q → Within f data j q := by
  rcases ht with rfl | rfl | rfl | rfl | rfl | rfl
  · obtain ⟨⟨c, -, hj⟩, hc⟩ := counted_read (j := j) hle h fun z hz => by
      cases hz
      exact ⟨le_rfl, fun q hq => (calls_pure _ hq).elim⟩
    exact ⟨⟨by omega, nofun⟩, fun q hq => .inl (hc q hq)⟩
  · obtain ⟨⟨x, -, hj⟩, hc⟩ := counted_read (j := j) hle h fun z hz => by
      cases hz
      exact ⟨le_rfl, fun q hq => (calls_pure _ hq).elim⟩
    exact ⟨⟨by omega, nofun⟩, fun q hq => .inl (hc q hq)⟩
  · obtain ⟨⟨c, -, hj⟩, hc⟩ := counted_read (j := j) hle h fun z hz => by
      rw [run_bind, run_ask] at hz
      obtain ⟨r, hr, hz⟩ := bind_eq_ok hz
      cases hz
      refine ⟨hle (z.1.1, data) _ hr, fun q hq => ?_⟩
      rcases (calls_bind _ _).mp hq with hq | ⟨_, -, hq⟩
      · obtain rfl := (calls_ask _).mp hq
        exact ⟨rfl, fun r' hr' => (congrArg Prod.fst (Except.ok.inj (hr'.symm.trans hr))).le⟩
      · exact (calls_pure _ hq).elim
    exact ⟨⟨by omega, nofun⟩, fun q hq => .inl (hc q hq)⟩
  · rw [bodyOf, run_bind] at h
    obtain ⟨n, hn, h⟩ := bind_eq_ok h
    rw [run_bind] at h
    obtain ⟨⟨j', pairs⟩, hp, h⟩ := bind_eq_ok h
    cases h
    obtain ⟨hj, hcalls⟩ := pairs_read hle hp
    refine ⟨⟨by omega, nofun⟩, fun q hq => .inl ?_⟩
    rw [bodyOf, calls_bind] at hq
    rcases hq with hq | ⟨n', hn', hq⟩
    · exact hq.elim
    · obtain rfl := Except.ok.inj (hn.symm.trans hn')
      rcases (calls_bind _ _).mp hq with hq | ⟨_, -, hq⟩
      · exact hcalls q hq
      · exact (calls_pure _ hq).elim
  · obtain ⟨⟨x, hx, hj⟩, hc⟩ := counted_read (j := j) hle h fun z hz => by
      cases hz
      exact ⟨le_rfl, fun q hq => (calls_pure _ hq).elim⟩
    have hstart := binaryToFunStart_le hx
    have hnode := layout.lt_nodeEnd (i + 5) data
    have hnode' := layout.lt_nodeEnd (layout.nodeEnd (i + 5) data + 9) data
    refine ⟨⟨by omega, fun s hs => ?_⟩, fun q hq => .inl (hc q hq)⟩
    rcases List.mem_cons.mp hs with rfl | hs
    · exact Layout.node_le (by omega)
    · rw [List.mem_singleton.mp hs]
      exact Layout.node_le (by omega)
  · rw [bodyOf, run_bind] at h
    obtain ⟨⟨k, d⟩, hx, h⟩ := bind_eq_ok h
    simp only at h
    rw [run_bind, run_ask] at h
    obtain ⟨r, hr, h⟩ := bind_eq_ok h
    split at h
    · cases h
    · rename_i hsize
      cases h
      have hx' := hx
      obtain ⟨n, -, hx'⟩ := bind_eq_ok hx'
      split at hx'
      · cases hx'
      · split at hx'
        · cases hx'
        · split at hx'
          · cases hx'
          · cases hx'
            refine ⟨⟨by omega, nofun⟩, fun q hq => .inr ?_⟩
            rw [bodyOf, calls_bind] at hq
            rcases hq with hq | ⟨y, hy, hq⟩
            · exact hq.elim
            · obtain rfl := Except.ok.inj (hx.symm.trans hy)
              rcases (calls_bind _ _).mp hq with hq | ⟨r', -, hq⟩
              · obtain rfl := (calls_ask _).mp hq
                intro r' hr'
                obtain rfl := Except.ok.inj (hr.symm.trans hr')
                exact (not_not.mp hsize).le
              · simp only at hq
                split at hq
                · exact hq.elim
                · exact (calls_pure _ hq).elim

/-- What stands behind a tag that the decoder reads. -/
theorem body_read {p : Place} {r : Decoded Value} (h : (body py3 lib p).run f = .ok r) :
    ∃ tag : Tag, p.2[p.1]? = some tag.byte ∧ (bodyOf py3 lib tag (p.1 + 1) p.2).run f = .ok r ∧
      ∀ q, (body py3 lib p).Calls f q → (bodyOf py3 lib tag (p.1 + 1) p.2).Calls f q := by
  rw [body, run_bind] at h
  obtain ⟨b, hb, h⟩ := bind_eq_ok h
  have hb : bOrd p.1 p.2 = .ok b := hb
  cases htag : Tag.ofByte b with
  | none =>
    rw [htag] at h
    cases h
  | some tag =>
    rw [htag] at h
    refine ⟨tag, (bOrd_eq hb).trans (congrArg some (ofByte_eq_some htag)), h, fun q hq => ?_⟩
    rw [body, calls_bind] at hq
    rcases hq with hq | ⟨b', hb', hq⟩
    · exact hq.elim
    · obtain rfl := Except.ok.inj (hb.symm.trans hb')
      rw [htag] at hq
      exact hq

theorem body_lengths (hle : ∀ p r, f p = .ok r → p.1 ≤ r.1) {p : Place} {r : Decoded Value}
    (h : (body py3 lib p).run f = .ok r) :
    p.1 ≤ r.1 ∧ (∀ tag : Tag, p.2[p.1]? = some tag.byte → ∀ s ∈ layout.lengths tag (p.1 + 1) p.2, s.1 + s.2 ≤ r.1) ∧
      ∀ q, (body py3 lib p).Calls f q → Within f p.2 r.1 q := by
  obtain ⟨tag, hat, hrun, hcalls⟩ := body_read h
  have hsame : ∀ tag' : Tag, p.2[p.1]? = some tag'.byte → tag' = tag := fun tag' hat' => by
    have hb := congrArg (·.bind Tag.ofByte) (hat'.symm.trans hat)
    simpa using hb
  by_cases hc : Composite tag
  · obtain ⟨⟨hj, hl⟩, hq⟩ := composite_lengths (j := r.1) (v := r.2) hc hle hrun
    exact ⟨by omega, fun tag' hat' => hsame tag' hat' ▸ hl, fun q h => hq q (hcalls q h)⟩
  · have hleaf := hrun
    rw [bodyOf_leaf hc] at hleaf
    obtain ⟨hj, hl⟩ := leaf_lengths (j := r.1) (v := r.2) hc hleaf
    refine ⟨by omega, fun tag' hat' => hsame tag' hat' ▸ hl, fun q h => ?_⟩
    have hq := hcalls q h
    rw [bodyOf_leaf hc] at hq
    exact hq.elim

end Lengths

variable {depth m : Nat} {p : Place}

theorem descend_le {r : Decoded Value} (h : descend (body py3 lib) .recursionError depth p = .ok r) : p.1 ≤ r.1 := by
  induction depth generalizing p r with
  | zero => cases h
  | succ depth ih => exact (body_lengths (fun _ _ h => ih h) h).1

/-- What is visited in data that is decoded to its end is in the data. -/
theorem visits_lengths {i : Nat} {data : List UInt8} {r : Decoded Value}
    (h : descend (body py3 lib) .recursionError depth (i, data) = .ok r) (hr : r.1 ≤ data.length)
    (hv : Visits (body py3 lib) .recursionError depth (i, data) m p) {tag : Tag} (ht : p.2[p.1]? = some tag.byte) :
    ∀ s ∈ layout.lengths tag (p.1 + 1) p.2, s.1 + s.2 ≤ p.2.length := by
  have hin := visits_of_ok
    (Q := fun m q => ∀ r', descend (body py3 lib) .recursionError m q = .ok r' → r'.1 ≤ q.2.length) h
    (fun r' hr' => Except.ok.inj (h.symm.trans hr') ▸ hr)
    (fun m q q' r' hQ hrun hc r'' hr'' => by
      obtain ⟨-, -, hcalls⟩ := body_lengths (fun _ _ h => descend_le h) hrun
      rcases hcalls q' hc with ⟨hsame, hle⟩ | hle
      · exact hsame ▸ (hle r'' hr'').trans (hQ r' hrun)
      · exact hle r'' hr'') hv
  obtain ⟨r', hr'⟩ := visits_ok h hv
  cases m with
  | zero => cases hr'
  | succ m =>
    obtain ⟨-, hl, -⟩ := body_lengths (fun _ _ h => descend_le h) hr'
    exact fun s hs => (hl tag ht s hs).trans (hin r' hr')

/-! ## `binary_to_term` -/

theorem binaryToTerm_error {data : List UInt8} {e : Fault} (he : ¬e.Parsed) :
    binaryToTerm py3 lib depth data = .error e ↔ Started data ∧ binaryToTermAt py3 lib depth 1 data = .error e := by
  unfold binaryToTerm Started
  split
  · rename_i hlen
    exact ⟨fun h => absurd (show e.Parsed from Except.error.inj h ▸ trivial) he, fun h => absurd h.1.1 (by omega)⟩
  · split
    · rename_i hver
      exact ⟨fun h => absurd (show e.Parsed from Except.error.inj h ▸ trivial) he, fun h => absurd h.1.2 hver⟩
    · rename_i hlen hver
      have hs : 1 < data.length ∧ data.head? = some tagVersion := ⟨by omega, not_not.mp hver⟩
      split
      · rename_i hat
        split
        · exact ⟨fun h => absurd (show e.Parsed from Except.error.inj h ▸ trivial) he,
            fun h => nomatch hat.symm.trans h.2⟩
        · exact ⟨nofun, fun h => nomatch hat.symm.trans h.2⟩
      · rename_i hat
        refine ⟨fun h => absurd (show e.Parsed from Except.error.inj h ▸ trivial) he, fun h => ?_⟩
        exact absurd (show e.Parsed from Except.error.inj (hat.symm.trans h.2) ▸ trivial) he
      · rename_i hat
        refine ⟨fun h => absurd (show e.Parsed from Except.error.inj h ▸ trivial) he, fun h => ?_⟩
        exact absurd (show e.Parsed from Except.error.inj (hat.symm.trans h.2) ▸ trivial) he
      · rename_i hat
        exact ⟨fun h => ⟨hs, hat.trans (congrArg _ (Except.error.inj h))⟩,
          fun h => congrArg _ (Except.error.inj (hat.symm.trans h.2))⟩

/-- It raises something other than a `ParseException` iff it comes to a position where it does by itself. -/
theorem raises_iff {data : List UInt8} :
    Raises (binaryToTerm py3 lib depth data) ↔ Started data ∧
      ∃ m p, Visits (body py3 lib) .recursionError depth (1, data) m p ∧
        (m = 0 ∨ ∃ n, m = n + 1 ∧ Bad py3 lib (descend (body py3 lib) .recursionError n) p) := by
  rw [← binaryToTermAt_raises_iff]
  constructor
  · rintro ⟨e, h, he⟩
    obtain ⟨hs, h⟩ := (binaryToTerm_error he).mp h
    exact ⟨hs, e, h, he⟩
  · rintro ⟨hs, e, h, he⟩
    exact ⟨e, (binaryToTerm_error he).mpr ⟨hs, h⟩, he⟩

/-- What is accepted has all that the lengths say. -/
theorem accepted_lengths {data : List UInt8} {t : Value} (h : binaryToTerm py3 lib depth data = .ok t)
    (hv : Visits (body py3 lib) .recursionError depth (1, data) m p) {tag : Tag} (ht : p.2[p.1]? = some tag.byte) :
    ∀ s ∈ layout.lengths tag (p.1 + 1) p.2, s.1 + s.2 ≤ p.2.length := by
  unfold binaryToTerm at h
  split at h
  · cases h
  · split at h
    · cases h
    · split at h
      · rename_i hat
        split at h
        · cases h
        · rename_i hend
          rw [binaryToTermAt_eq] at hat
          exact visits_lengths hat (not_not.mp hend).le hv ht
      · cases h
      · cases h
      · cases h

end CloudI.Api.Python.Erlang
