import CloudI.Api.Terms
import CloudI.Framework.Bytes
import CloudI.Framework.Slices

/-!
# The external term codec of the Python API

`binary_to_term` and `term_to_binary` of `erlang.py`, under the definitions of
Python 2 and of Python 3 (`py3`). A slice of a string may be short; an index
behind its end raises `IndexError`, which leaves `binary_to_term` as a
`ParseException`, as `struct.error` does. `depth` bounds how deep the decoder
calls itself.
-/

namespace CloudI.Api.Python.Erlang

open Slices (slice)

/-- What a call raises. -/
inductive Fault
  | parseException (s : String)
  | outputException (s : String)
  | structError
  | indexError
  | typeError
  | valueError
  | unicodeDecodeError
  | zlibError
  | attributeError
  | recursionError

/-- The value of an `OtpErlangAtom`: a string, a text with its UTF-8 bytes, or a number. -/
inductive AtomValue
  | bytes (s : List UInt8)
  | unicode (s : List UInt8)
  | int (n : Int)

/-- A Python value that the codec has a case for, a `frozendict`, or another
one. The node of a pid, port or reference is an `OtpErlangAtom`. -/
inductive Value
  | bytes (s : List UInt8)
  | unicode (s : List UInt8)
  | list (value : List Value)
  | tuple (value : List Value)
  | int (n : Int)
  | float (bits : BitVec 64)
  | dict (pairs : List (Value × Value))
  | bool (b : Bool)
  | otpErlangAtom (value : AtomValue)
  | otpErlangList (value : List Value) (improper : Bool)
  | otpErlangBinary (value : List UInt8) (bits : Int)
  | otpErlangFunction (tag : UInt8) (value : List UInt8)
  | otpErlangReference (node : AtomValue) (id creation : List UInt8)
  | otpErlangPort (node : AtomValue) (id creation : List UInt8)
  | otpErlangPid (node : AtomValue) (id serial creation : List UInt8)
  | frozendict (pairs : List (Value × Value))
  | other

/-- What the codec takes from Python: whether a string is valid UTF-8,
`float`, `zlib.decompress`, whether two keys have the same hash, and `==` of
keys of the types of Python. -/
structure Library where
  validUtf8 : List UInt8 → Bool
  float : List UInt8 → Option (BitVec 64)
  decompress : List UInt8 → Option (List UInt8)
  sameHash : Value → Value → Bool
  equal : Value → Value → Except Fault Bool

/-! ## Encoding -/

/-- `b_chr` -/
def bChr (n : Int) : Except Fault UInt8 := if 0 ≤ n ∧ n ≤ 255 then .ok (.ofNat n.toNat) else .error .valueError

def AtomValue.encode (small large : Tag) (value : List UInt8) : Except Fault (List UInt8) :=
  if value.length ≤ 255 then .ok (small.byte :: be 1 value.length ++ value)
  else if value.length ≤ 65535 then .ok (large.byte :: be 2 value.length ++ value)
  else .error (.outputException "uint16 overflow")

/-- `OtpErlangAtom.binary` -/
def AtomValue.binary : AtomValue → Except Fault (List UInt8)
  | .int n => do
    let c ← bChr n
    return [Tag.atomCacheRef.byte, c]
  | .unicode s => encode .smallAtomUtf8Ext .atomUtf8Ext s
  | .bytes s => encode .smallAtomExt .atomExt s

/-- `OtpErlangBinary.binary` -/
def binaryBinary (value : List UInt8) (bits : Int) : Except Fault (List UInt8) :=
  if value.length > 4294967295 then .error (.outputException "uint32 overflow")
  else if bits ≠ 8 then do
    let c ← bChr bits
    return Tag.bitBinaryExt.byte :: be 4 value.length ++ c :: value
  else .ok (Tag.binaryExt.byte :: be 4 value.length ++ value)

/-- `OtpErlangPid.binary` -/
def pidBinary (node : AtomValue) (id serial creation : List UInt8) : Except Fault (List UInt8) := do
  let node ← node.binary
  return Tag.pidExt.byte :: node ++ id ++ serial ++ creation

/-- `OtpErlangPort.binary` -/
def portBinary (node : AtomValue) (id creation : List UInt8) : Except Fault (List UInt8) := do
  let node ← node.binary
  return Tag.portExt.byte :: node ++ id ++ creation

/-- `OtpErlangReference.binary`; in Python 3 the length is a float, which `struct.pack` refuses. -/
def referenceBinary (py3 : Bool) (node : AtomValue) (id creation : List UInt8) : Except Fault (List UInt8) :=
  if (if py3 then id.length else id.length / 4) = 0 then do
    let node ← node.binary
    return Tag.referenceExt.byte :: node ++ id ++ creation
  else if id.length ≤ (if py3 then 4 * 65535 else 4 * 65535 + 3) then
    if py3 then .error .structError
    else do
      let node ← node.binary
      return Tag.newReferenceExt.byte :: be 2 (id.length / 4) ++ node ++ creation ++ id
  else .error (.outputException "uint16 overflow")

def stringToBinary (term : List UInt8) : Except Fault (List UInt8) :=
  if term.length = 0 then .ok [Tag.nilExt.byte]
  else if term.length ≤ 65535 then .ok (Tag.stringExt.byte :: be 2 term.length ++ term)
  else if term.length ≤ 4294967295 then
    .ok (Tag.listExt.byte :: be 4 term.length ++ (term.flatMap fun c => [Tag.smallIntegerExt.byte, c]) ++
      [Tag.nilExt.byte])
  else .error (.outputException "uint32 overflow")

/-- What a tuple starts with. -/
def tupleToBinary (length : Nat) : Except Fault (List UInt8) :=
  if length ≤ 255 then .ok (Tag.smallTupleExt.byte :: be 1 length)
  else if length ≤ 4294967295 then .ok (Tag.largeTupleExt.byte :: be 4 length)
  else .error (.outputException "uint32 overflow")

def integerToBinary (term : Int) : List UInt8 :=
  if 0 ≤ term ∧ term ≤ 255 then [Tag.smallIntegerExt.byte, .ofNat term.toNat]
  else Tag.integerExt.byte :: be 4 (BitVec.ofInt 32 term).toNat

def bignumToBinary (term : Int) : Except Fault (List UInt8) :=
  let sign : UInt8 := if term < 0 then 1 else 0
  let l := minimal term.natAbs
  if l.length ≤ 255 then .ok (Tag.smallBigExt.byte :: be 1 l.length ++ sign :: l)
  else if l.length ≤ 4294967295 then .ok (Tag.largeBigExt.byte :: be 4 l.length ++ sign :: l)
  else .error (.outputException "uint32 overflow")

def longToBinary (term : Int) : Except Fault (List UInt8) :=
  if -2147483648 ≤ term ∧ term ≤ 2147483647 then .ok (integerToBinary term) else bignumToBinary term

def floatToBinary (term : BitVec 64) : List UInt8 := Tag.newFloatExt.byte :: be 8 term.toNat

/-- `true` and `false`, as bytes. -/
def boolName (b : Bool) : List UInt8 := if b then [116, 114, 117, 101] else [102, 97, 108, 115, 101]

/-- `OtpErlangList.binary`, with the bytes of its elements. -/
def listBinary (length : Nat) (improper : Bool) (elements : List UInt8) : List UInt8 :=
  if improper then Tag.listExt.byte :: be 4 (length - 1) ++ elements
  else Tag.listExt.byte :: be 4 length ++ elements ++ [Tag.nilExt.byte]

variable (py3 : Bool)

mutual

/-- `_term_to_binary` -/
def termToBinaryOf : Value → Except Fault (List UInt8)
  | .bytes term => stringToBinary term
  | .unicode term => stringToBinary term
  | .list value =>
    if value.length = 0 then .ok [Tag.nilExt.byte]
    else if value.length > 4294967295 then .error (.outputException "uint32 overflow")
    else do
      let elements ← sequenceToBinary value
      return listBinary value.length false elements
  | .tuple term => do
    let start ← tupleToBinary term.length
    let elements ← sequenceToBinary term
    return start ++ elements
  | .int term => longToBinary term
  | .float term => .ok (floatToBinary term)
  | .dict term =>
    if term.length ≤ 4294967295 then do
      let pairs ← pairsToBinary term
      return Tag.mapExt.byte :: be 4 term.length ++ pairs
    else .error (.outputException "uint32 overflow")
  | .bool term => AtomValue.binary (.bytes (boolName term))
  | .otpErlangAtom value => value.binary
  | .otpErlangList value improper =>
    if value.length = 0 then .ok [Tag.nilExt.byte]
    else if value.length > 4294967295 then .error (.outputException "uint32 overflow")
    else do
      let elements ← sequenceToBinary value
      return listBinary value.length improper elements
  | .otpErlangBinary value bits => binaryBinary value bits
  | .otpErlangFunction tag value => .ok (tag :: value)
  | .otpErlangReference node id creation => referenceBinary py3 node id creation
  | .otpErlangPort node id creation => portBinary node id creation
  | .otpErlangPid node id serial creation => pidBinary node id serial creation
  | .frozendict _ | .other => .error (.outputException "unknown python type")

def sequenceToBinary : List Value → Except Fault (List UInt8)
  | [] => .ok []
  | element :: sequence => do
    let e ← termToBinaryOf element
    let es ← sequenceToBinary sequence
    return e ++ es

def pairsToBinary : List (Value × Value) → Except Fault (List UInt8)
  | [] => .ok []
  | (key, value) :: pairs => do
    let k ← termToBinaryOf key
    let v ← termToBinaryOf value
    let es ← pairsToBinary pairs
    return k ++ v ++ es

end

attribute [grind =] termToBinaryOf sequenceToBinary pairsToBinary

/-- `term_to_binary`, without compression. -/
def termToBinary (term : Value) : Except Fault (List UInt8) := do
  let data ← termToBinaryOf py3 term
  return tagVersion :: data

/-! ## Keys -/

mutual

/-- What `frozendict` makes of a value. -/
def freezeValue : Value → Value
  | .dict pairs => .frozendict (freezePairs pairs)
  | .list elements => .tuple (freezeElements elements)
  | v => v

/-- `frozendict(key)` -/
def freezePairs : List (Value × Value) → List (Value × Value)
  | [] => []
  | (k, v) :: pairs => (k, freezeValue v) :: freezePairs pairs

def freezeElements : List Value → List Value
  | [] => []
  | .dict pairs :: elements => .frozendict (freezePairs pairs) :: freezeElements elements
  | elm :: elements => elm :: freezeElements elements

end

/-- The key of a map. -/
def keyOf : Value → Value
  | .dict pairs => .frozendict (freezePairs pairs)
  | .list value => .otpErlangList value false
  | key => key

/-- A value of a class that has `binary`. -/
def Value.hasBinary : Value → Bool
  | .otpErlangAtom _ | .otpErlangList _ _ | .otpErlangBinary _ _ | .otpErlangFunction _ _ | .otpErlangReference _ _ _
  | .otpErlangPort _ _ _ | .otpErlangPid _ _ _ _ => true
  | _ => false

mutual

/-- What `hash` raises. -/
def hash : Value → Except Fault Unit
  | .list _ | .dict _ => .error .typeError
  | .tuple value => hashSequence value
  | .frozendict pairs => hashPairs pairs
  | .bytes _ | .unicode _ | .int _ | .float _ | .bool _ | .other => .ok ()
  | v => do
    let _ ← termToBinaryOf py3 v
    return ()

def hashSequence : List Value → Except Fault Unit
  | [] => .ok ()
  | element :: sequence => do
    hash element
    hashSequence sequence

def hashPairs : List (Value × Value) → Except Fault Unit
  | [] => .ok ()
  | (key, value) :: pairs => do
    hash key
    hash value
    hashPairs pairs

end

variable (lib : Library)

/-- Whether a `dict` takes two keys for one; `__eq__` calls `binary` of both. -/
def sameKey (k key : Value) : Except Fault Bool :=
  if lib.sameHash k key then
    if k.hasBinary ∧ key.hasBinary then do
      let b ← termToBinaryOf py3 k
      let b' ← termToBinaryOf py3 key
      return b == b'
    else if k.hasBinary ∨ key.hasBinary then .error .attributeError
    else lib.equal k key
  else .ok false

/-- The place of a key that was hashed. -/
def storeHashed (key value : Value) : List (Value × Value) → Except Fault (List (Value × Value))
  | [] => .ok [(key, value)]
  | (k, v) :: pairs => do
    let same ← sameKey py3 lib k key
    if same then return (k, value) :: pairs
    else do
      let pairs ← storeHashed key value pairs
      return (k, v) :: pairs

/-- `pairs[key] = value` -/
def store (key value : Value) (pairs : List (Value × Value)) : Except Fault (List (Value × Value)) := do
  hash py3 (keyOf key)
  storeHashed py3 lib (keyOf key) value pairs

/-! ## Decoding -/

/-- `b_ord(data[i])` -/
def bOrd (i : Nat) (data : List UInt8) : Except Fault UInt8 :=
  match data[i]? with
  | some b => .ok b
  | none => .error .indexError

/-- `struct.unpack` of `k` bytes at an index -/
def unpack (k i : Nat) (data : List UInt8) : Except Fault Nat :=
  if (slice i k data).length < k then .error .structError else .ok (ofBe (slice i k data))

/-- `b_ord(data[i:i + 1])`, used as a length: in Python 3 it is not a number. -/
def smallLength (i : Nat) (data : List UInt8) : Except Fault Nat :=
  if py3 then .error .typeError
  else
    match data[i]? with
    | some b => .ok b.toNat
    | none => .error .typeError

/-- `b_ord(data[i:i + 1])`, as the value of an atom -/
def cacheRef (i : Nat) (data : List UInt8) : Except Fault AtomValue :=
  if py3 then .ok (.bytes (slice i 1 data))
  else
    match data[i]? with
    | some b => .ok (.int b.toNat)
    | none => .error .typeError

/-- What a decoder returns: the index behind it and what it made. -/
abbrev Decoded (α : Type) := Nat × α

/-- A text of `j` bytes. -/
def binaryToUnicode (i j : Nat) (data : List UInt8) : Except Fault (Decoded AtomValue) :=
  if lib.validUtf8 (slice i j data) then .ok (i + j, .unicode (slice i j data)) else .error .unicodeDecodeError

/-- `_binary_to_atom` -/
def binaryToAtom (i : Nat) (data : List UInt8) : Except Fault (Decoded AtomValue) := do
  let tag ← bOrd i data
  let i := i + 1
  match Tag.ofByte tag with
  | some .atomExt => do
    let j ← unpack 2 i data
    let i := i + 2
    return (i + j, .bytes (slice i j data))
  | some .atomCacheRef => do
    let value ← cacheRef py3 i data
    return (i + 1, value)
  | some .smallAtomExt => do
    let j ← smallLength py3 i data
    let i := i + 1
    return (i + j, .bytes (slice i j data))
  | some .atomUtf8Ext => do
    let j ← unpack 2 i data
    binaryToUnicode lib (i + 2) j data
  | some .smallAtomUtf8Ext => do
    let j ← smallLength py3 i data
    binaryToUnicode lib (i + 1) j data
  | _ => .error (.parseException "invalid atom tag")

/-- What follows the tag of a reference or a port. -/
def binaryToNodeId (make : AtomValue → List UInt8 → List UInt8 → Value) (i : Nat) (data : List UInt8) :
    Except Fault (Decoded Value) := do
  let (i, node) ← binaryToAtom py3 lib i data
  let id := slice i 4 data
  let i := i + 4
  let creation := slice i 1 data
  let i := i + 1
  return (i, make node id creation)

/-- What follows the tag of a pid. -/
def binaryToPidFields (i : Nat) (data : List UInt8) : Except Fault (Decoded Value) := do
  let (i, node) ← binaryToAtom py3 lib i data
  let id := slice i 4 data
  let i := i + 4
  let serial := slice i 4 data
  let i := i + 4
  let creation := slice i 1 data
  let i := i + 1
  return (i, .otpErlangPid node id serial creation)

/-- `_binary_to_pid` -/
def binaryToPid (i : Nat) (data : List UInt8) : Except Fault (Decoded Value) := do
  let tag ← bOrd i data
  let i := i + 1
  match Tag.ofByte tag with
  | some .pidExt => binaryToPidFields py3 lib i data
  | _ => .error (.parseException "invalid pid tag")

def binaryToSmallInteger (i : Nat) (data : List UInt8) : Except Fault (Decoded Value) := do
  let n ← bOrd i data
  return (i + 1, .int n.toNat)

def binaryToInt32 (i : Nat) (data : List UInt8) : Except Fault (Decoded Value) := do
  let n ← unpack 4 i data
  return (i + 4, .int (BitVec.ofNat 32 n).toInt)

/-- `_binary_to_integer` -/
def binaryToInteger (i : Nat) (data : List UInt8) : Except Fault (Decoded Value) := do
  let tag ← bOrd i data
  let i := i + 1
  match Tag.ofByte tag with
  | some .smallIntegerExt => binaryToSmallInteger i data
  | some .integerExt => binaryToInt32 i data
  | _ => .error (.parseException "invalid integer tag")

/-- The digits at `i + r` down to `i + 1`, the most significant one last in the bytes. -/
def bignumLoop (data : List UInt8) (i : Nat) : Nat → Nat → Except Fault Nat
  | 0, bignum => .ok bignum
  | r + 1, bignum => do
    let digit ← bOrd (i + (r + 1)) data
    bignumLoop data i r (bignum * 256 + digit.toNat)

/-- What follows the length of a big integer. -/
def binaryToBignum (i j : Nat) (data : List UInt8) : Except Fault (Decoded Value) := do
  let sign ← bOrd i data
  let bignum ← bignumLoop data i j 0
  let i := i + 1
  return (i + j, .int (if sign = 1 then -bignum else bignum))

def binaryToExport (i : Nat) (data : List UInt8) : Except Fault (Decoded Value) := do
  let oldI := i
  let (i, _) ← binaryToAtom py3 lib i data
  let (i, _) ← binaryToAtom py3 lib i data
  let tag ← bOrd i data
  if tag ≠ Tag.smallIntegerExt.byte then .error (.parseException "invalid small integer tag")
  else do
    let i := i + 1
    let _ ← bOrd i data
    let i := i + 1
    return (i, .otpErlangFunction Tag.exportExt.byte (slice oldI (i - oldI) data))

def binaryToNewReference (i : Nat) (data : List UInt8) : Except Fault (Decoded Value) := do
  let j ← unpack 2 i data
  let j := j * 4
  let i := i + 2
  let (i, node) ← binaryToAtom py3 lib i data
  let creation := slice i 1 data
  let i := i + 1
  return (i + j, .otpErlangReference node (slice i j data) creation)

/-- The function is its whole length, with the bytes of the length. -/
def binaryToNewFun (i : Nat) (data : List UInt8) : Except Fault (Decoded Value) := do
  let length ← unpack 4 i data
  return (i + length, .otpErlangFunction Tag.newFunExt.byte (slice i length data))

/-- What an atom of a small length is. -/
def smallAtom (atomName : List UInt8) : Value :=
  if atomName = boolName true then .bool true
  else if atomName = boolName false then .bool false
  else .otpErlangAtom (.bytes atomName)

section Calls

variable (terms : Nat → List UInt8 → Except Fault (Decoded Value))

/-- `_binary_to_term_sequence` -/
def binaryToTermSequence : Nat → Nat → List UInt8 → Except Fault (Decoded (List Value))
  | i, 0, _ => .ok (i, [])
  | i, length + 1, data => do
    let (i, element) ← terms i data
    let (i, sequence) ← binaryToTermSequence i length data
    return (i, element :: sequence)

/-- A list of what was read before its tail, and the tail. -/
def listWithTail (tmp : List Value) : Value → Value
  | .list [] => .list tmp
  | tail => .otpErlangList (tmp ++ [tail]) true

def binaryToTuple (i length : Nat) (data : List UInt8) : Except Fault (Decoded Value) := do
  let (i, tmp) ← binaryToTermSequence terms i length data
  return (i, .tuple tmp)

def binaryToList (i : Nat) (data : List UInt8) : Except Fault (Decoded Value) := do
  let length ← unpack 4 i data
  let i := i + 4
  let (i, tmp) ← binaryToTermSequence terms i length data
  let (i, tail) ← terms i data
  return (i, listWithTail tmp tail)

def binaryToPairs : Nat → Nat → List (Value × Value) → List UInt8 → Except Fault (Decoded (List (Value × Value)))
  | i, 0, pairs, _ => .ok (i, pairs)
  | i, length + 1, pairs, data => do
    let (i, key) ← terms i data
    let (i, value) ← terms i data
    let pairs ← store py3 lib key value pairs
    binaryToPairs i length pairs data

def binaryToMap (i : Nat) (data : List UInt8) : Except Fault (Decoded Value) := do
  let length ← unpack 4 i data
  let i := i + 4
  let (i, pairs) ← binaryToPairs py3 lib terms i length [] data
  return (i, .dict pairs)

def binaryToFun (i : Nat) (data : List UInt8) : Except Fault (Decoded Value) := do
  let oldI := i
  let numfree ← unpack 4 i data
  let i := i + 4
  let (i, _) ← binaryToPid py3 lib i data
  let (i, _) ← binaryToAtom py3 lib i data
  let (i, _) ← binaryToInteger i data
  let (i, _) ← binaryToInteger i data
  let (i, _) ← binaryToTermSequence terms i numfree data
  return (i, .otpErlangFunction Tag.funExt.byte (slice oldI (i - oldI) data))

def binaryToCompressed (i : Nat) (data : List UInt8) : Except Fault (Decoded Value) := do
  let sizeUncompressed ← unpack 4 i data
  if sizeUncompressed = 0 then .error (.parseException "compressed data null")
  else
    let i := i + 4
    let dataCompressed := data.drop i
    match lib.decompress dataCompressed with
    | none => .error .zlibError
    | some dataUncompressed =>
      if sizeUncompressed ≠ dataUncompressed.length then .error (.parseException "compression corrupt")
      else do
        let (iNew, term) ← terms 0 dataUncompressed
        if iNew ≠ sizeUncompressed then .error (.parseException "unparsed data")
        else return (i + dataCompressed.length, term)

/-- What follows a tag. -/
def binaryToTermOf : Tag → Nat → List UInt8 → Except Fault (Decoded Value)
  | .newFloatExt, i, data => do
    let value ← unpack 8 i data
    return (i + 8, .float (.ofNat 64 value))
  | .bitBinaryExt, i, data => do
    let j ← unpack 4 i data
    let i := i + 4
    let bits ← bOrd i data
    let i := i + 1
    return (i + j, .otpErlangBinary (slice i j data) bits.toNat)
  | .atomCacheRef, i, data => do
    let value ← cacheRef py3 i data
    return (i + 1, .otpErlangAtom value)
  | .smallIntegerExt, i, data => binaryToSmallInteger i data
  | .integerExt, i, data => binaryToInt32 i data
  | .floatExt, i, data =>
    match lib.float ((slice i 31 data).takeWhile (· ≠ 0)) with
    | some value => .ok (i + 31, .float value)
    | none => .error .valueError
  | .atomExt, i, data => do
    let j ← unpack 2 i data
    let i := i + 2
    return (i + j, .otpErlangAtom (.bytes (slice i j data)))
  | .referenceExt, i, data => binaryToNodeId py3 lib .otpErlangReference i data
  | .portExt, i, data => binaryToNodeId py3 lib .otpErlangPort i data
  | .pidExt, i, data => binaryToPidFields py3 lib i data
  | .smallTupleExt, i, data => do
    let length ← bOrd i data
    binaryToTuple terms (i + 1) length.toNat data
  | .largeTupleExt, i, data => do
    let length ← unpack 4 i data
    binaryToTuple terms (i + 4) length data
  | .nilExt, i, _ => .ok (i, .list [])
  | .stringExt, i, data => do
    let j ← unpack 2 i data
    let i := i + 2
    return (i + j, .bytes (slice i j data))
  | .listExt, i, data => binaryToList terms i data
  | .binaryExt, i, data => do
    let j ← unpack 4 i data
    let i := i + 4
    return (i + j, .otpErlangBinary (slice i j data) 8)
  | .smallBigExt, i, data => do
    let j ← bOrd i data
    binaryToBignum (i + 1) j.toNat data
  | .largeBigExt, i, data => do
    let j ← unpack 4 i data
    binaryToBignum (i + 4) j data
  | .newFunExt, i, data => binaryToNewFun i data
  | .exportExt, i, data => binaryToExport py3 lib i data
  | .newReferenceExt, i, data => binaryToNewReference py3 lib i data
  | .smallAtomExt, i, data => do
    let j ← bOrd i data
    let i := i + 1
    return (i + j.toNat, smallAtom (slice i j.toNat data))
  | .mapExt, i, data => binaryToMap py3 lib terms i data
  | .funExt, i, data => binaryToFun py3 lib terms i data
  | .atomUtf8Ext, i, data => do
    let j ← unpack 2 i data
    let (i, value) ← binaryToUnicode lib (i + 2) j data
    return (i, .otpErlangAtom value)
  | .smallAtomUtf8Ext, i, data => do
    let j ← smallLength py3 i data
    let (i, value) ← binaryToUnicode lib (i + 1) j data
    return (i, .otpErlangAtom value)
  | .compressedZlib, i, data => binaryToCompressed lib terms i data

end Calls

/-- `_binary_to_term` -/
def binaryToTermAt : Nat → Nat → List UInt8 → Except Fault (Decoded Value)
  | 0, _, _ => .error .recursionError
  | depth + 1, i, data => do
    let tag ← bOrd i data
    let i := i + 1
    match Tag.ofByte tag with
    | some tag => binaryToTermOf py3 lib (binaryToTermAt depth) tag i data
    | none => .error (.parseException "invalid tag")

attribute [grind =] bignumLoop binaryToTermSequence binaryToPairs binaryToTermOf binaryToTermAt

def binaryToTerm (depth : Nat) (data : List UInt8) : Except Fault Value :=
  if data.length ≤ 1 then .error (.parseException "null input")
  else if data.head? ≠ some tagVersion then .error (.parseException "invalid version")
  else
    match binaryToTermAt py3 lib depth 1 data with
    | .ok (i, term) => if i ≠ data.length then .error (.parseException "unparsed data") else .ok term
    | .error .structError | .error .indexError => .error (.parseException "missing data")
    | .error e => .error e

end CloudI.Api.Python.Erlang
