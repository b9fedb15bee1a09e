import CloudI.Api.Terms
import CloudI.Framework.Bytes
import Mathlib.Data.List.DropRight

/-!
# The external term codec of the Go API

`binaryToTerm` and `termToBinary`, on the bytes of the external term format. The decoder reads from a
`bytes.Reader` and keeps the position of what it has read in `i`, which it also reads at (`readAt`). It calls
itself; `depth` bounds how deep. Decompression and the parsing of a decimal float are taken from outside
(`Library`), and so is the conversion of a `float32`.
-/

namespace CloudI.Api.Go

/-- What ends a call without a result. -/
inductive Fault
  | eof
  | unexpectedEOF
  | parseError (message : String)
  | inputError (message : String)
  | outputError (message : String)
  | panic (message : String)
  | depth

/-- A Go value that the codec has a case for, or of another type. -/
inductive Value
  | uint8 (n : UInt8)
  | uint16 (n : UInt16)
  | uint32 (n : UInt32)
  | uint64 (n : UInt64)
  | int8 (n : Int8)
  | int16 (n : Int16)
  | int32 (n : Int32)
  | int64 (n : Int64)
  | int (n : Int64)
  | bigInt (n : Int)
  | float32 (bits : BitVec 32)
  | float64 (bits : BitVec 64)
  | bool (b : Bool)
  | otpErlangAtom (s : List UInt8)
  | otpErlangAtomUTF8 (s : List UInt8)
  | otpErlangAtomCacheRef (n : UInt8)
  | bytes (value : List UInt8)
  | otpErlangBinary (value : List UInt8) (bits : UInt8)
  | otpErlangFunction (tag : UInt8) (value : List UInt8)
  | otpErlangPid (nodeTag : UInt8) (node id serial : List UInt8) (creation : UInt8)
  | otpErlangPort (nodeTag : UInt8) (node id : List UInt8) (creation : UInt8)
  | otpErlangReference (nodeTag : UInt8) (node id : List UInt8) (creation : UInt8)
  | string (s : List UInt8)
  | otpErlangTuple (value : List Value)
  | slice (value : List Value)
  | otpErlangMap (pairs : List (Value × Value))
  | mapInterface (pairs : List (Value × Value))
  | otpErlangList (value : List Value) (improper : Bool)
  | other

/-- What the codec takes from the standard library: `strconv.ParseFloat`, the conversion of a `float32` to a
`float64`, a `zlib` reader, with the bytes it puts into a buffer of some size and how many it takes, and a
`zlib` writer. -/
structure Library where
  parseFloat : List UInt8 → Except Fault (BitVec 64)
  float64 : BitVec 32 → BitVec 64
  zlibRead : List UInt8 → Nat → Except Fault (List UInt8 × Nat)
  zlibWrite : Int → List UInt8 → Except Fault (List UInt8)

/-! ## The reader -/

section Read

variable (r : Reader)

def readByte : Except Fault (UInt8 × Reader) :=
  if h : r.pos < r.data.length then .ok (r.data[r.pos], r.seek 1) else .error .eof

/-- `binary.Read` of an unsigned number of `n` bytes. -/
def binaryRead (n : Nat) : Except Fault (Nat × Reader) :=
  if r.data.length ≤ r.pos then .error .eof
  else if r.data.length < r.pos + n then .error .unexpectedEOF
  else .ok (ofBe ((r.data.drop r.pos).take n), r.seek n)

/-- `reader.Read` into a new slice of `n` bytes, which keeps its zeros where there is nothing left to read. -/
def read (n : Nat) : Except Fault (List UInt8 × Reader) :=
  if r.data.length ≤ r.pos then .error .eof
  else
    let value := (r.data.drop r.pos).take n
    .ok (value ++ List.replicate (n - value.length) 0, r.seek value.length)

def readAt (n offset : Nat) : Except Fault (List UInt8) :=
  if r.data.length ≤ offset then .error .eof
  else
    let value := (r.data.drop offset).take n
    if value.length < n then .error .eof else .ok value

end Read

/-- What a decoder returns: the position after it, what it made, and the reader. -/
abbrev Decoded (α : Type) := Nat × α × Reader

/-! ## Decoding -/

/-- A number of `k` bytes, and as many bytes as it says. -/
def binaryToBytes (k i : Nat) (reader : Reader) : Except Fault (Decoded (List UInt8)) := do
  let (j, reader) ← binaryRead reader k
  let i := i + k
  if j > 0 then
    let (value, reader) ← read reader j
    return (i + j, value, reader)
  else
    return (i + j, [], reader)

/-- The bytes of an atom with its length of `k` bytes, read at `i`. The length of the slice is a number of
`k` bytes. -/
def binaryToName (k i : Nat) (reader : Reader) : Except Fault (Decoded (List UInt8)) := do
  let (j, reader) ← binaryRead reader k
  let value ← readAt reader ((k + j) % 256 ^ k) i
  return (i + k + j, value, reader.seek j)

def binaryToAtom (i : Nat) (reader : Reader) : Except Fault (Decoded (UInt8 × List UInt8)) := do
  let (tag, reader) ← readByte reader
  let i := i + 1
  match Tag.ofByte tag with
  | some .atomExt | some .atomUtf8Ext =>
    let (i, value, reader) ← binaryToName 2 i reader
    return (i, (tag, value), reader)
  | some .smallAtomExt | some .smallAtomUtf8Ext =>
    let (i, value, reader) ← binaryToName 1 i reader
    return (i, (tag, value), reader)
  | some .atomCacheRef =>
    let (value, reader) ← readByte reader
    return (i + 1, (tag, [value]), reader)
  | _ => .error (.parseError "invalid atom tag")

/-- What follows the tag of a pid. -/
def binaryToPidFields (i : Nat) (reader : Reader) : Except Fault (Decoded Value) := do
  let (i, (nodeTag, node), reader) ← binaryToAtom i reader
  let (id, reader) ← read reader 4
  let i := i + 4
  let (serial, reader) ← read reader 4
  let i := i + 4
  let (creation, reader) ← readByte reader
  let i := i + 1
  return (i, .otpErlangPid nodeTag node id serial creation, reader)

def binaryToPid (i : Nat) (reader : Reader) : Except Fault (Decoded Value) := do
  let (tag, reader) ← readByte reader
  let i := i + 1
  match Tag.ofByte tag with
  | some .pidExt => binaryToPidFields i reader
  | _ => .error (.parseError "invalid pid tag")

def binaryToSmallInteger (i : Nat) (reader : Reader) : Except Fault (Decoded Value) := do
  let (value, reader) ← readByte reader
  return (i + 1, .uint8 value, reader)

def binaryToInt32 (i : Nat) (reader : Reader) : Except Fault (Decoded Value) := do
  let (value, reader) ← binaryRead reader 4
  return (i + 4, .int32 (.ofBitVec (.ofNat 32 value)), reader)

def binaryToInteger (i : Nat) (reader : Reader) : Except Fault (Decoded Value) := do
  let (tag, reader) ← readByte reader
  let i := i + 1
  match Tag.ofByte tag with
  | some .smallIntegerExt => binaryToSmallInteger i reader
  | some .integerExt => binaryToInt32 i reader
  | _ => .error (.parseError "invalid integer tag")

/-- What follows the tag of a reference or a port. -/
def binaryToNodeId (make : UInt8 → List UInt8 → List UInt8 → UInt8 → Value) (i : Nat) (reader : Reader) :
    Except Fault (Decoded Value) := do
  let (i, (nodeTag, node), reader) ← binaryToAtom i reader
  let (id, reader) ← read reader 4
  let i := i + 4
  let (creation, reader) ← readByte reader
  let i := i + 1
  return (i, make nodeTag node id creation, reader)

/-- The digits at `i + r` down to `i + 1`, the most significant one last in the bytes. -/
def bignumLoop (reader : Reader) (i : Nat) : Nat → Nat → Except Fault Nat
  | 0, bignum => .ok bignum
  | r + 1, bignum => do
    let digit ← readAt reader 1 (i + (r + 1))
    bignumLoop reader i r (bignum * 256 + ofBe digit)

/-- What follows the tag of a big integer whose length has `k` bytes. -/
def binaryToBignum (k i : Nat) (reader : Reader) : Except Fault (Decoded Value) := do
  let (j, reader) ← binaryRead reader k
  let i := i + k
  let (sign, reader) ← readByte reader
  let bignum ← bignumLoop reader i j 0
  let bignum : Int := if sign = 1 then -bignum else bignum
  let i := i + 1
  return (i + j, .bigInt bignum, reader.seek j)

def binaryToExport (i : Nat) (reader : Reader) : Except Fault (Decoded Value) := do
  let iOld := i
  let (i, _, reader) ← binaryToAtom i reader
  let (i, _, reader) ← binaryToAtom i reader
  let (arityTag, reader) ← readByte reader
  if arityTag ≠ Tag.smallIntegerExt.byte then
    .error (.parseError "invalid small integer tag")
  else
    let i := i + 1
    let (_, reader) ← readByte reader
    let i := i + 1
    let value ← readAt reader (i - iOld) iOld
    return (i, .otpErlangFunction Tag.exportExt.byte value, reader)

def binaryToNewReference (i : Nat) (reader : Reader) : Except Fault (Decoded Value) := do
  let (j, reader) ← binaryRead reader 2
  -- a `uint16`
  let j := j * 4 % 65536
  let i := i + 2
  let (i, (nodeTag, node), reader) ← binaryToAtom i reader
  let (creation, reader) ← readByte reader
  let i := i + 1
  if j > 0 then
    let (id, reader) ← read reader j
    return (i + j, .otpErlangReference nodeTag node id creation, reader)
  else
    return (i + j, .otpErlangReference nodeTag node [] creation, reader)

/-- `reflect.TypeOf(key).Comparable()`, for what the decoder makes. -/
def Value.comparable : Value → Bool
  | .bytes _ | .otpErlangBinary _ _ | .otpErlangFunction _ _ | .otpErlangPid _ _ _ _ _ | .otpErlangPort _ _ _ _
  | .otpErlangReference _ _ _ _ | .otpErlangTuple _ | .slice _ | .otpErlangMap _ | .mapInterface _
  | .otpErlangList _ _ => false
  | _ => true

section Calls

variable (terms : Nat → Reader → Except Fault (Decoded Value))

def binaryToTermSequence : Nat → Nat → Reader → Except Fault (Decoded (List Value))
  | i, 0, reader => .ok (i, [], reader)
  | i, length + 1, reader => do
    let (i, element, reader) ← terms i reader
    let (i, sequence, reader) ← binaryToTermSequence i length reader
    return (i, element :: sequence, reader)

def binaryToTuple (k i : Nat) (reader : Reader) : Except Fault (Decoded Value) := do
  let (length, reader) ← binaryRead reader k
  let i := i + k
  let (i, tmp, reader) ← binaryToTermSequence terms i length reader
  return (i, .otpErlangTuple tmp, reader)

/-- A list of what was read before its tail, and the tail. -/
def listWithTail (tmp : List Value) (tail : Value) : Value :=
  let improper := match tail with
    | .otpErlangList value _ => decide (value.length ≠ 0)
    | _ => true
  .otpErlangList (if improper then tmp ++ [tail] else tmp) improper

def binaryToList (i : Nat) (reader : Reader) : Except Fault (Decoded Value) := do
  let (length, reader) ← binaryRead reader 4
  let i := i + 4
  let (i, tmp, reader) ← binaryToTermSequence terms i length reader
  let (i, tail, reader) ← terms i reader
  return (i, listWithTail tmp tail, reader)

/-- The map is `nil`, which panics when a pair is put into it. -/
def binaryToPairs : Nat → Nat → Reader → Except Fault (Decoded Value)
  | i, 0, reader => .ok (i, .otpErlangMap [], reader)
  | i, _ + 1, reader => do
    let (i, key, reader) ← terms i reader
    if key.comparable = false then
      .error (.parseError "map key not comparable")
    else
      let (_, _, _) ← terms i reader
      .error (.panic "assignment to entry in nil map")

def binaryToMap (i : Nat) (reader : Reader) : Except Fault (Decoded Value) := do
  let (length, reader) ← binaryRead reader 4
  binaryToPairs terms (i + 4) length reader

def binaryToFun (i : Nat) (reader : Reader) : Except Fault (Decoded Value) := do
  let iOld := i
  let (numfree, reader) ← binaryRead reader 4
  let i := i + 4
  let (i, _, reader) ← binaryToPid i reader
  let (i, _, reader) ← binaryToAtom i reader
  let (i, _, reader) ← binaryToInteger i reader
  let (i, _, reader) ← binaryToInteger i reader
  let (i, _, reader) ← binaryToTermSequence terms i numfree reader
  let value ← readAt reader (i - iOld) iOld
  return (i, .otpErlangFunction Tag.funExt.byte value, reader)

variable (lib : Library)

def binaryToCompressed (i : Nat) (reader : Reader) : Except Fault (Decoded Value) := do
  let (sizeUncompressed, reader) ← binaryRead reader 4
  let i := i + 4
  if sizeUncompressed = 0 then
    .error (.parseError "compressed data null")
  else
    let j := reader.len
    let (dataUncompressed, taken) ← lib.zlibRead (reader.data.drop reader.pos) sizeUncompressed
    if sizeUncompressed ≠ dataUncompressed.length then
      .error (.parseError "compression corrupt")
    else
      let (iNew, term, _) ← terms 0 ⟨dataUncompressed, 0⟩
      if iNew ≠ sizeUncompressed then
        .error (.parseError "unparsed data")
      else
        return (i + j, term, reader.seek taken)

/-- What follows a tag. -/
def binaryToTermsOf : Tag → Nat → Reader → Except Fault (Decoded Value)
  | .newFloatExt, i, reader => do
    let (value, reader) ← binaryRead reader 8
    return (i + 8, .float64 (.ofNat 64 value), reader)
  | .bitBinaryExt, i, reader => do
    let (j, reader) ← binaryRead reader 4
    let i := i + 4
    let (bits, reader) ← readByte reader
    let i := i + 1
    if j > 0 then
      let (value, reader) ← read reader j
      return (i + j, .otpErlangBinary value bits, reader)
    else
      return (i + j, .otpErlangBinary [] bits, reader)
  | .atomCacheRef, i, reader => do
    let (value, reader) ← readByte reader
    return (i + 1, .otpErlangAtomCacheRef value, reader)
  | .smallIntegerExt, i, reader => binaryToSmallInteger i reader
  | .integerExt, i, reader => binaryToInt32 i reader
  | .floatExt, i, reader => do
    let (valueRaw, reader) ← read reader 31
    let value ← lib.parseFloat (valueRaw.rdropWhile (· == 0))
    return (i + 31, .float64 value, reader)
  | .atomExt, i, reader => do
    let (i, value, reader) ← binaryToBytes 2 i reader
    return (i, .otpErlangAtom value, reader)
  | .referenceExt, i, reader => binaryToNodeId .otpErlangReference i reader
  | .portExt, i, reader => binaryToNodeId .otpErlangPort i reader
  | .pidExt, i, reader => binaryToPidFields i reader
  | .smallTupleExt, i, reader => binaryToTuple terms 1 i reader
  | .largeTupleExt, i, reader => binaryToTuple terms 4 i reader
  | .nilExt, i, reader => .ok (i, .otpErlangList [] false, reader)
  | .stringExt, i, reader => do
    let (i, value, reader) ← binaryToBytes 2 i reader
    return (i, .string value, reader)
  | .listExt, i, reader => binaryToList terms i reader
  | .binaryExt, i, reader => do
    let (i, value, reader) ← binaryToBytes 4 i reader
    return (i, .otpErlangBinary value 8, reader)
  | .smallBigExt, i, reader => binaryToBignum 1 i reader
  | .largeBigExt, i, reader => binaryToBignum 4 i reader
  | .newFunExt, i, reader => do
    let (i, value, reader) ← binaryToBytes 4 i reader
    return (i, .otpErlangFunction Tag.newFunExt.byte value, reader)
  | .exportExt, i, reader => binaryToExport i reader
  | .newReferenceExt, i, reader => binaryToNewReference i reader
  | .smallAtomExt, i, reader => do
    let (i, value, reader) ← binaryToBytes 1 i reader
    return (i, .otpErlangAtom value, reader)
  | .mapExt, i, reader => binaryToMap terms i reader
  | .funExt, i, reader => binaryToFun terms i reader
  | .atomUtf8Ext, i, reader => do
    let (i, value, reader) ← binaryToBytes 2 i reader
    return (i, .otpErlangAtomUTF8 value, reader)
  | .smallAtomUtf8Ext, i, reader => do
    let (i, value, reader) ← binaryToBytes 1 i reader
    return (i, .otpErlangAtomUTF8 value, reader)
  | .compressedZlib, i, reader => binaryToCompressed terms lib i reader

end Calls

def binaryToTerms (lib : Library) : Nat → Nat → Reader → Except Fault (Decoded Value)
  | 0, _, _ => .error .depth
  | depth + 1, i, reader => do
    let (tag, reader) ← readByte reader
    let i := i + 1
    match Tag.ofByte tag with
    | some tag => binaryToTermsOf (binaryToTerms lib depth) lib tag i reader
    | none => .error (.parseError "invalid tag")

attribute [grind =] bignumLoop binaryToTermSequence binaryToTermsOf binaryToTerms

/-- Decodes the Erlang Binary Term Format into Go types. -/
def binaryToTerm (lib : Library) (depth : Nat) (data : List UInt8) : Except Fault Value :=
  if data.length ≤ 1 then .error (.parseError "null input")
  else do
    let (version, reader) ← readByte ⟨data, 0⟩
    if version ≠ tagVersion then .error (.parseError "invalid version")
    else
      let (i, term, _) ← binaryToTerms lib depth 1 reader
      if i ≠ data.length then .error (.parseError "unparsed data") else return term

/-! ## Encoding -/

def integerToBinary (term : Int32) : List UInt8 := Tag.integerExt.byte :: be 4 term.toBitVec.toNat

/-- The bytes of a big integer come with the most significant one first, and are reversed. -/
def bignumToBinary (term : Int) : Except Fault (List UInt8) :=
  let sign : UInt8 := if term < 0 then 1 else 0
  let value := (minimal term.natAbs).reverse
  if value.length ≤ 255 then
    .ok (Tag.smallBigExt.byte :: be 1 value.length ++ sign :: value.reverse)
  else if value.length ≤ 4294967295 then
    .ok (Tag.largeBigExt.byte :: be 4 value.length ++ sign :: value.reverse)
  else .error (.outputError "uint32 overflow")

def intToBinary (term : Int64) : Except Fault (List UInt8) :=
  if 0 ≤ term.toInt ∧ term.toInt ≤ 255 then
    .ok [Tag.smallIntegerExt.byte, .ofNat term.toInt.toNat]
  else if -2147483648 ≤ term.toInt ∧ term.toInt ≤ 2147483647 then
    .ok (integerToBinary (.ofInt term.toInt))
  else bignumToBinary term.toInt

def floatToBinary (term : BitVec 64) : List UInt8 := Tag.newFloatExt.byte :: be 8 term.toNat

/-- An atom, with the tag of a length of one byte or of two. -/
def nameToBinary (small large : Tag) (term : List UInt8) : Except Fault (List UInt8) :=
  if term.length ≤ 255 then .ok (small.byte :: be 1 term.length ++ term)
  else if term.length ≤ 65535 then .ok (large.byte :: be 2 term.length ++ term)
  else .error (.outputError "uint16 overflow")

def atomToBinary (term : List UInt8) : Except Fault (List UInt8) := nameToBinary .smallAtomExt .atomExt term

def atomUtf8ToBinary (term : List UInt8) : Except Fault (List UInt8) :=
  nameToBinary .smallAtomUtf8Ext .atomUtf8Ext term

def binaryObjectToBinary (value : List UInt8) (bits : UInt8) : Except Fault (List UInt8) :=
  if bits < 1 ∨ 8 < bits then .error (.outputError "invalid OtpErlangBinary.Bits")
  else if value.length ≤ 4294967295 then
    if bits ≠ 8 then .ok (Tag.bitBinaryExt.byte :: be 4 value.length ++ bits :: value)
    else .ok (Tag.binaryExt.byte :: be 4 value.length ++ value)
  else .error (.outputError "uint32 overflow")

def functionToBinary (tag : UInt8) (value : List UInt8) : List UInt8 := tag :: value

def pidToBinary (nodeTag : UInt8) (node id serial : List UInt8) (creation : UInt8) : List UInt8 :=
  Tag.pidExt.byte :: nodeTag :: node ++ id ++ serial ++ [creation]

def portToBinary (nodeTag : UInt8) (node id : List UInt8) (creation : UInt8) : List UInt8 :=
  Tag.portExt.byte :: nodeTag :: node ++ id ++ [creation]

def referenceToBinary (nodeTag : UInt8) (node id : List UInt8) (creation : UInt8) : Except Fault (List UInt8) :=
  let length := id.length / 4
  if length = 0 then .ok (Tag.referenceExt.byte :: nodeTag :: node ++ id ++ [creation])
  else if length ≤ 65535 then
    .ok (Tag.newReferenceExt.byte :: be 2 length ++ nodeTag :: node ++ creation :: id)
  else .error (.outputError "uint16 overflow")

/-- The elements of a list of bytes. -/
def bytesToBinary (term : List UInt8) : List UInt8 := term.flatMap fun b => [Tag.smallIntegerExt.byte, b]

def stringToBinary (term : List UInt8) : Except Fault (List UInt8) :=
  if term.length = 0 then .ok [Tag.nilExt.byte]
  else if term.length ≤ 65535 then .ok (Tag.stringExt.byte :: be 2 term.length ++ term)
  else if term.length ≤ 4294967295 then
    .ok (Tag.listExt.byte :: be 4 term.length ++ bytesToBinary term ++ [Tag.nilExt.byte])
  else .error (.outputError "uint32 overflow")

/-- What a tuple starts with. -/
def tupleToBinary (length : Nat) : Except Fault (List UInt8) :=
  if length ≤ 255 then .ok (Tag.smallTupleExt.byte :: be 1 length)
  else if length ≤ 4294967295 then .ok (Tag.largeTupleExt.byte :: be 4 length)
  else .error (.outputError "uint32 overflow")

/-- What a map starts with. -/
def mapToBinary (length : Nat) : Except Fault (List UInt8) :=
  if length ≤ 4294967295 then .ok (Tag.mapExt.byte :: be 4 length)
  else .error (.outputError "uint32 overflow")

/-- What a list that is not empty starts with. -/
def listToBinary (length : Nat) (improper : Bool) : Except Fault (List UInt8) :=
  if length ≤ 4294967295 then .ok (Tag.listExt.byte :: be 4 (if improper then length - 1 else length))
  else .error (.outputError "uint32 overflow")

variable (lib : Library)

mutual

/-- The bytes that are written to the buffer for a value. -/
def termsToBinary : Value → Except Fault (List UInt8)
  | .uint8 term => .ok [Tag.smallIntegerExt.byte, term]
  | .uint16 term => .ok (integerToBinary (.ofInt term.toNat))
  | .uint32 term => bignumToBinary term.toNat
  | .uint64 term => bignumToBinary term.toNat
  | .int8 term => .ok (integerToBinary (.ofInt term.toInt))
  | .int16 term => .ok (integerToBinary (.ofInt term.toInt))
  | .int32 term => .ok (integerToBinary term)
  | .int64 term => bignumToBinary term.toInt
  | .int term => intToBinary term
  | .bigInt term => bignumToBinary term
  | .float32 term => .ok (floatToBinary (lib.float64 term))
  | .float64 term => .ok (floatToBinary term)
  | .bool term => atomToBinary (if term then [116, 114, 117, 101] else [102, 97, 108, 115, 101])
  | .otpErlangAtom term => atomToBinary term
  | .otpErlangAtomUTF8 term => atomUtf8ToBinary term
  | .otpErlangAtomCacheRef term => .ok [Tag.atomCacheRef.byte, term]
  | .bytes term => binaryObjectToBinary term 8
  | .otpErlangBinary value bits => binaryObjectToBinary value bits
  | .otpErlangFunction tag value => .ok (functionToBinary tag value)
  | .otpErlangPid nodeTag node id serial creation => .ok (pidToBinary nodeTag node id serial creation)
  | .otpErlangPort nodeTag node id creation => .ok (portToBinary nodeTag node id creation)
  | .otpErlangReference nodeTag node id creation => referenceToBinary nodeTag node id creation
  | .string term => stringToBinary term
  | .otpErlangTuple term | .slice term => do
    let start ← tupleToBinary term.length
    let elements ← sequenceToBinary term
    return start ++ elements
  | .otpErlangMap term | .mapInterface term => do
    let start ← mapToBinary term.length
    let pairs ← pairsToBinary term
    return start ++ pairs
  | .otpErlangList term improper =>
    if term.length = 0 then .ok [Tag.nilExt.byte]
    else do
      let start ← listToBinary term.length improper
      let elements ← sequenceToBinary term
      return start ++ elements ++ if improper then [] else [Tag.nilExt.byte]
  | .other => .error (.outputError "unknown go type")

def sequenceToBinary : List Value → Except Fault (List UInt8)
  | [] => .ok []
  | element :: sequence => do
    let e ← termsToBinary element
    let es ← sequenceToBinary sequence
    return e ++ es

/-- The pairs of a map, in the order of its iteration. -/
def pairsToBinary : List (Value × Value) → Except Fault (List UInt8)
  | [] => .ok []
  | (key, value) :: pairs => do
    let k ← termsToBinary key
    let v ← termsToBinary value
    let es ← pairsToBinary pairs
    return k ++ v ++ es

end

attribute [grind =] termsToBinary sequenceToBinary pairsToBinary

/-- Encodes Go types into the Erlang Binary Term Format. -/
def termToBinary (term : Value) (compressed : Int) : Except Fault (List UInt8) :=
  if compressed < -1 ∨ 9 < compressed then .error (.inputError "compressed in [-1..9]")
  else do
    let dataUncompressed ← termsToBinary lib term
    if compressed = -1 then return tagVersion :: dataUncompressed
    else
      let dataCompressed ← lib.zlibWrite compressed dataUncompressed
      return tagVersion :: Tag.compressedZlib.byte :: be 4 dataUncompressed.length ++ dataCompressed

end CloudI.Api.Go
