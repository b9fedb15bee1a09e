import CloudI.Api.Terms
import CloudI.Framework.Bytes
import CloudI.Framework.Slices

/-!
# The external term codec of the Ruby API

`binaryToTerm` and `termToBinary` of `erlang.rb`, on strings as byte
sequences. The decoder is given the data and an index; `depth` bounds how deep
it calls itself. A slice of a string that starts behind its end is `nil`,
which is the empty string wherever it is put into another, and raises
elsewhere; what is raised so leaves `binary_to_term` as `missing data`.
-/

namespace CloudI.Api.Ruby

open Slices (slice)

/-- What a call raises. -/
inductive Fault
  | parseException (message : String)
  | outputException (message : String)
  | zlibError
  | depth

/-- The value of an `OtpErlangAtom`: a string, which is UTF-8 or another
encoding, or a number. -/
inductive AtomValue
  | latin1 (name : List UInt8)
  | utf8 (name : List UInt8)
  | cacheRef (n : UInt8)

/-- A Ruby value that the codec has a case for, or of another class. The node
of a pid, port or reference is an `OtpErlangAtom`. -/
inductive Value
  | string (s : List UInt8)
  | array (value : List Value)
  | float (bits : BitVec 64)
  | integer (n : Int)
  | hash (pairs : List (Value × Value))
  | symbol (name : AtomValue)
  | bool (b : Bool)
  | otpErlangAtom (value : AtomValue)
  | otpErlangList (value : List Value) (improper : Bool)
  | otpErlangBinary (value : List UInt8) (bits : UInt8)
  | otpErlangFunction (tag : UInt8) (value : List UInt8)
  | otpErlangReference (node : AtomValue) (id creation : List UInt8)
  | otpErlangPort (node : AtomValue) (id creation : List UInt8)
  | otpErlangPid (node : AtomValue) (id serial creation : List UInt8)
  | nil
  | other

/-- What the codec takes from Ruby: whether a string is valid UTF-8, `to_f`,
`Zlib::Inflate.inflate`, and whether a `Hash` takes two keys for one. -/
structure Library where
  validEncoding : List UInt8 → Bool
  toF : List UInt8 → BitVec 64
  inflate : List UInt8 → Option (List UInt8)
  sameKey : Value → Value → Bool

/-! ## Strings -/

def missingData {α : Type} : Except Fault α := .error (.parseException "missing data")

/-- `data[i].ord` -/
def ord (i : Nat) (data : List UInt8) : Except Fault UInt8 :=
  match data[i]? with
  | some b => .ok b
  | none => missingData

/-- The number that `data[i, k].unpack` gives, where it is used as one. -/
def unpack (k i : Nat) (data : List UInt8) : Except Fault Nat :=
  if (slice i k data).length < k then missingData else .ok (ofBe (slice i k data))

/-- What a decoder returns: the index behind it and what it made. -/
abbrev Decoded (α : Type) := Nat × α

/-! ## Decoding -/

/-- As many bytes as a number of `k` bytes before them says. -/
def binaryToBytes (k i : Nat) (data : List UInt8) : Except Fault (Decoded (List UInt8)) := do
  let j ← unpack k i data
  let i := i + k
  return (i + j, slice i j data)

variable (lib : Library)

/-- The name of an atom in UTF-8. -/
def binaryToUtf8 (k i : Nat) (data : List UInt8) : Except Fault (Decoded AtomValue) := do
  let (i, atomName) ← binaryToBytes k i data
  if lib.validEncoding atomName then return (i, .utf8 atomName)
  else .error (.parseException "invalid atom_name unicode")

def binaryToAtom (i : Nat) (data : List UInt8) : Except Fault (Decoded AtomValue) := do
  let tag ← ord i data
  let i := i + 1
  match Tag.ofByte tag with
  | some .atomExt => do
    let (i, name) ← binaryToBytes 2 i data
    return (i, .latin1 name)
  | some .atomCacheRef => do
    let n ← ord i data
    return (i + 1, .cacheRef n)
  | some .smallAtomExt => do
    let (i, name) ← binaryToBytes 1 i data
    return (i, .latin1 name)
  | some .atomUtf8Ext => binaryToUtf8 lib 2 i data
  | some .smallAtomUtf8Ext => binaryToUtf8 lib 1 i data
  | _ => .error (.parseException "invalid atom tag")

/-- What follows the tag of a reference or a port. -/
def binaryToNodeId (make : AtomValue → List UInt8 → List UInt8 → Value) (i : Nat) (data : List UInt8) :
    Except Fault (Decoded Value) := do
  let (i, node) ← binaryToAtom lib i data
  let id := slice i 4 data
  let i := i + 4
  let creation := slice i 1 data
  return (i + 1, make node id creation)

/-- What follows the tag of a pid. -/
def binaryToPidFields (i : Nat) (data : List UInt8) : Except Fault (Decoded Value) := do
  let (i, node) ← binaryToAtom lib i data
  let id := slice i 4 data
  let i := i + 4
  let serial := slice i 4 data
  let i := i + 4
  let creation := slice i 1 data
  return (i + 1, .otpErlangPid node id serial creation)

def binaryToPid (i : Nat) (data : List UInt8) : Except Fault (Decoded Value) := do
  let tag ← ord i data
  match Tag.ofByte tag with
  | some .pidExt => binaryToPidFields lib (i + 1) data
  | _ => .error (.parseException "invalid pid tag")

def binaryToSmallInteger (i : Nat) (data : List UInt8) : Except Fault (Decoded Value) := do
  let n ← ord i data
  return (i + 1, .integer n.toNat)

def binaryToInt32 (i : Nat) (data : List UInt8) : Except Fault (Decoded Value) := do
  let value ← unpack 4 i data
  return (i + 4, .integer (if 2147483648 ≤ value then -2147483648 + ((value - 2147483648 : Nat) : Int) else value))

/-- A number of 32 bits ends in `Fixnum.induced_from`, a method that `Fixnum` does not have. -/
def binaryToInteger (i : Nat) (data : List UInt8) : Except Fault (Decoded Value) := do
  let tag ← ord i data
  match Tag.ofByte tag with
  | some .smallIntegerExt => binaryToSmallInteger (i + 1) data
  | some .integerExt => do
    let _ ← unpack 4 (i + 1) data
    missingData
  | _ => .error (.parseException "invalid integer tag")

/-- The digits at `i + r` down to `i + 1`, the most significant one last in the bytes. -/
def bignumLoop (data : List UInt8) (i : Nat) : Nat → Nat → Except Fault Nat
  | 0, bignum => .ok bignum
  | r + 1, bignum => do
    let digit ← ord (i + (r + 1)) data
    bignumLoop data i r (bignum * 256 + digit.toNat)

/-- What follows the tag of a big integer whose length has `k` bytes. -/
def binaryToBignum (k i : Nat) (data : List UInt8) : Except Fault (Decoded Value) := do
  let j ← unpack k i data
  let i := i + k
  let sign ← ord i data
  let bignum ← bignumLoop data i j 0
  return (i + 1 + j, .integer (if sign = 1 then -bignum else bignum))

def binaryToExport (i : Nat) (data : List UInt8) : Except Fault (Decoded Value) := do
  let oldI := i
  let (i, _) ← binaryToAtom lib i data
  let (i, _) ← binaryToAtom lib i data
  let tag ← ord i data
  if tag ≠ Tag.smallIntegerExt.byte then .error (.parseException "invalid small integer tag")
  else do
    let i := i + 1
    let _ ← ord i data
    let i := i + 1
    return (i, .otpErlangFunction Tag.exportExt.byte (slice oldI (i - oldI) data))

def binaryToNewReference (i : Nat) (data : List UInt8) : Except Fault (Decoded Value) := do
  let j ← unpack 2 i data
  let j := j * 4
  let i := i + 2
  let (i, node) ← binaryToAtom lib i data
  let creation := slice i 1 data
  let i := i + 1
  return (i + j, .otpErlangReference node (slice i j data) creation)

/-- The function is its whole length, with the bytes of the length. -/
def binaryToNewFun (i : Nat) (data : List UInt8) : Except Fault (Decoded Value) := do
  let length ← unpack 4 i data
  return (i + length, .otpErlangFunction Tag.newFunExt.byte (slice i length data))

/-- `true` and `false`, as bytes. -/
def boolName (b : Bool) : List UInt8 := if b then [116, 114, 117, 101] else [102, 97, 108, 115, 101]

/-- What an atom of a small length is. -/
def smallAtom (name : List UInt8) : Value :=
  if name = boolName true then .bool true
  else if name = boolName false then .bool false
  else .symbol (.latin1 name)

/-- `pairs[key] = value` -/
def store (key value : Value) : List (Value × Value) → List (Value × Value)
  | [] => [(key, value)]
  | (k, v) :: pairs => if lib.sameKey k key then (k, value) :: pairs else (k, v) :: store key value pairs

section Calls

variable (terms : Nat → List UInt8 → Except Fault (Decoded Value))

def binaryToTermSequence : Nat → Nat → List UInt8 → Except Fault (Decoded (List Value))
  | i, 0, _ => .ok (i, [])
  | i, length + 1, data => do
    let (i, element) ← terms i data
    let (i, sequence) ← binaryToTermSequence i length data
    return (i, element :: sequence)

def binaryToTuple (k i : Nat) (data : List UInt8) : Except Fault (Decoded Value) := do
  let length ← unpack k i data
  let (i, tmp) ← binaryToTermSequence terms (i + k) length data
  return (i, .array tmp)

/-- A list of what was read before its tail, and the tail. -/
def listWithTail (tmp : List Value) : Value → Value
  | .otpErlangList [] _ => .otpErlangList tmp false
  | tail => .otpErlangList (tmp ++ [tail]) true

def binaryToList (i : Nat) (data : List UInt8) : Except Fault (Decoded Value) := do
  let length ← unpack 4 i data
  let (i, tmp) ← binaryToTermSequence terms (i + 4) length data
  let (i, tail) ← terms i data
  return (i, listWithTail tmp tail)

def binaryToPairs : Nat → Nat → List (Value × Value) → List UInt8 → Except Fault (Decoded (List (Value × Value)))
  | i, 0, pairs, _ => .ok (i, pairs)
  | i, length + 1, pairs, data => do
    let (i, key) ← terms i data
    let (i, value) ← terms i data
    binaryToPairs i length (store lib key value pairs) data

def binaryToMap (i : Nat) (data : List UInt8) : Except Fault (Decoded Value) := do
  let length ← unpack 4 i data
  let (i, pairs) ← binaryToPairs lib terms (i + 4) length [] data
  return (i, .hash pairs)

def binaryToFun (i : Nat) (data : List UInt8) : Except Fault (Decoded Value) := do
  let oldI := i
  let numfree ← unpack 4 i data
  let (i, _) ← binaryToPid lib (i + 4) data
  let (i, _) ← binaryToAtom lib i data
  let (i, _) ← binaryToInteger i data
  let (i, _) ← binaryToInteger i data
  let (i, _) ← binaryToTermSequence terms i numfree data
  return (i, .otpErlangFunction Tag.funExt.byte (slice oldI (i - oldI) data))

def binaryToCompressed (i : Nat) (data : List UInt8) : Except Fault (Decoded Value) := do
  let sizeUncompressed ← unpack 4 i data
  if sizeUncompressed = 0 then .error (.parseException "compressed data null")
  else
    let i := i + 4
    let dataCompressed := data.drop i
    match lib.inflate dataCompressed with
    | none => .error .zlibError
    | some dataUncompressed =>
      if sizeUncompressed ≠ dataUncompressed.length then .error (.parseException "compression corrupt")
      else do
        let (iNew, term) ← terms 0 dataUncompressed
        if iNew ≠ sizeUncompressed then .error (.parseException "unparsed data")
        else return (i + dataCompressed.length, term)

/-- What follows a tag. -/
def binaryToTermOf : Tag → Nat → List UInt8 → Except Fault (Decoded Value)
  | .newFloatExt, i, data =>
    .ok (i + 8, if (slice i 8 data).length < 8 then .nil else .float (.ofNat 64 (ofBe (slice i 8 data))))
  | .bitBinaryExt, i, data => do
    let j ← unpack 4 i data
    let i := i + 4
    let bits ← ord i data
    let i := i + 1
    return (i + j, .otpErlangBinary (slice i j data) bits)
  -- the method `ord` of the string is called as a function
  | .atomCacheRef, _, _ => missingData
  | .smallIntegerExt, i, data => binaryToSmallInteger i data
  | .integerExt, i, data => binaryToInt32 i data
  | .floatExt, i, data =>
    if data.length < i then missingData
    else .ok (i + 31, .float (lib.toF ((slice i 31 data).takeWhile (· ≠ 0))))
  | .atomExt, i, data => do
    let (i, atomName) ← binaryToBytes 2 i data
    return (i, .symbol (.latin1 atomName))
  | .referenceExt, i, data => binaryToNodeId lib .otpErlangReference i data
  | .portExt, i, data => binaryToNodeId lib .otpErlangPort i data
  | .pidExt, i, data => binaryToPidFields lib i data
  | .smallTupleExt, i, data => binaryToTuple terms 1 i data
  | .largeTupleExt, i, data => binaryToTuple terms 4 i data
  | .nilExt, i, _ => .ok (i, .otpErlangList [] false)
  | .stringExt, i, data => do
    let (i, s) ← binaryToBytes 2 i data
    return (i, .string s)
  | .listExt, i, data => binaryToList terms i data
  | .binaryExt, i, data => do
    let (i, value) ← binaryToBytes 4 i data
    return (i, .otpErlangBinary value 8)
  | .smallBigExt, i, data => binaryToBignum 1 i data
  | .largeBigExt, i, data => binaryToBignum 4 i data
  | .newFunExt, i, data => binaryToNewFun i data
  | .exportExt, i, data => binaryToExport lib i data
  | .newReferenceExt, i, data => binaryToNewReference lib i data
  | .smallAtomExt, i, data => do
    let (i, atomName) ← binaryToBytes 1 i data
    return (i, smallAtom atomName)
  | .mapExt, i, data => binaryToMap lib terms i data
  | .funExt, i, data => binaryToFun lib terms i data
  | .atomUtf8Ext, i, data => do
    let (i, value) ← binaryToUtf8 lib 2 i data
    return (i, .otpErlangAtom value)
  | .smallAtomUtf8Ext, i, data => do
    let (i, value) ← binaryToUtf8 lib 1 i data
    return (i, .otpErlangAtom value)
  | .compressedZlib, i, data => binaryToCompressed lib terms i data

end Calls

/-- `binary_to_term_` -/
def binaryToTermAt : Nat → Nat → List UInt8 → Except Fault (Decoded Value)
  | 0, _, _ => .error .depth
  | depth + 1, i, data => do
    let tag ← ord i data
    match Tag.ofByte tag with
    | some tag => binaryToTermOf lib (binaryToTermAt depth) tag (i + 1) data
    | none => .error (.parseException "invalid tag")

attribute [grind =] bignumLoop binaryToTermSequence binaryToPairs binaryToTermOf binaryToTermAt

def binaryToTerm (depth : Nat) (data : List UInt8) : Except Fault Value :=
  if data.length ≤ 1 then .error (.parseException "null input")
  else do
    let version ← ord 0 data
    if version ≠ tagVersion then .error (.parseException "invalid version")
    else do
      let (i, term) ← binaryToTermAt lib depth 1 data
      if i ≠ data.length then .error (.parseException "unparsed data") else return term

/-! ## Encoding -/

def AtomValue.encode (small large : Tag) (name : List UInt8) : Except Fault (List UInt8) :=
  if name.length ≤ 255 then .ok (small.byte :: be 1 name.length ++ name)
  else if name.length ≤ 65535 then .ok (large.byte :: be 2 name.length ++ name)
  else .error (.outputException "uint16 overflow")

/-- `OtpErlangAtom.binary` -/
def AtomValue.binary : AtomValue → Except Fault (List UInt8)
  | .cacheRef n => .ok [Tag.atomCacheRef.byte, n]
  | .utf8 name => encode .smallAtomUtf8Ext .atomUtf8Ext name
  | .latin1 name => encode .smallAtomExt .atomExt name

/-- `OtpErlangBinary.binary` -/
def binaryBinary (value : List UInt8) (bits : UInt8) : Except Fault (List UInt8) :=
  if value.length > 4294967295 then .error (.outputException "uint32 overflow")
  else if bits ≠ 8 then .ok (Tag.bitBinaryExt.byte :: be 4 value.length ++ bits :: value)
  else .ok (Tag.binaryExt.byte :: be 4 value.length ++ value)

/-- `OtpErlangPid.binary` -/
def pidBinary (node : AtomValue) (id serial creation : List UInt8) : Except Fault (List UInt8) := do
  let node ← node.binary
  return Tag.pidExt.byte :: node ++ id ++ serial ++ creation

/-- `OtpErlangPort.binary` -/
def portBinary (node : AtomValue) (id creation : List UInt8) : Except Fault (List UInt8) := do
  let node ← node.binary
  return Tag.portExt.byte :: node ++ id ++ creation

/-- `OtpErlangReference.binary` -/
def referenceBinary (node : AtomValue) (id creation : List UInt8) : Except Fault (List UInt8) := do
  let length := id.length / 4
  if length = 0 then do
    let node ← node.binary
    return Tag.referenceExt.byte :: node ++ id ++ creation
  else if length ≤ 65535 then do
    let node ← node.binary
    return Tag.newReferenceExt.byte :: be 2 length ++ node ++ creation ++ id
  else .error (.outputException "uint16 overflow")

/-- A number put into a string is its digits. -/
def decimal (n : Nat) : List UInt8 := (Nat.toDigits 10 n).map fun c => .ofNat c.toNat

def stringToBinary (term : List UInt8) : Except Fault (List UInt8) :=
  if term.length = 0 then .ok [Tag.nilExt.byte]
  else if term.length ≤ 65535 then .ok (Tag.stringExt.byte :: be 2 term.length ++ term)
  else if term.length ≤ 4294967295 then
    .ok (Tag.listExt.byte :: be 4 term.length ++
      (term.flatMap fun c => Tag.smallIntegerExt.byte :: decimal c.toNat) ++ [Tag.nilExt.byte])
  else .error (.outputException "uint32 overflow")

/-- What a tuple starts with. -/
def tupleToBinary (length : Nat) : Except Fault (List UInt8) :=
  if length ≤ 255 then .ok (Tag.smallTupleExt.byte :: be 1 length)
  else if length ≤ 4294967295 then .ok (Tag.largeTupleExt.byte :: be 4 length)
  else .error (.outputException "uint32 overflow")

def bignumToBinary (term : Int) : Except Fault (List UInt8) :=
  let sign : UInt8 := if term < 0 then 1 else 0
  let l := minimal term.natAbs
  if l.length ≤ 255 then .ok (Tag.smallBigExt.byte :: be 1 l.length ++ sign :: l)
  else if l.length ≤ 4294967295 then .ok (Tag.largeBigExt.byte :: be 4 l.length ++ sign :: l)
  else .error (.outputException "uint32 overflow")

def integerToBinary (term : Int) : Except Fault (List UInt8) :=
  if 0 ≤ term ∧ term ≤ 255 then .ok [Tag.smallIntegerExt.byte, .ofNat term.toNat]
  else if -2147483648 ≤ term ∧ term ≤ 2147483647 then
    .ok (Tag.integerExt.byte :: be 4 (BitVec.ofInt 32 term).toNat)
  else bignumToBinary term

def floatToBinary (term : BitVec 64) : List UInt8 := Tag.newFloatExt.byte :: be 8 term.toNat

mutual

/-- `term_to_binary_` -/
def termToBinaryOf : Value → Except Fault (List UInt8)
  | .string term => stringToBinary term
  | .array term => do
    let elements ← sequenceToBinary term
    let start ← tupleToBinary term.length
    return start ++ elements
  | .float term => .ok (floatToBinary term)
  | .integer term => integerToBinary term
  | .hash term =>
    if term.length ≤ 4294967295 then do
      let pairs ← pairsToBinary term
      return Tag.mapExt.byte :: be 4 term.length ++ pairs
    else .error (.outputException "uint32 overflow")
  | .symbol name => name.binary
  | .bool b => AtomValue.binary (.latin1 (boolName b))
  | .otpErlangAtom value => value.binary
  | .otpErlangList value improper =>
    if value.length = 0 then .ok [Tag.nilExt.byte]
    else if value.length > 4294967295 then .error (.outputException "uint32 overflow")
    else do
      let elements ← sequenceToBinary value
      if improper then return Tag.listExt.byte :: be 4 (value.length - 1) ++ elements
      else return Tag.listExt.byte :: be 4 value.length ++ elements ++ [Tag.nilExt.byte]
  | .otpErlangBinary value bits => binaryBinary value bits
  | .otpErlangFunction tag value => .ok (tag :: value)
  | .otpErlangReference node id creation => referenceBinary node id creation
  | .otpErlangPort node id creation => portBinary node id creation
  | .otpErlangPid node id serial creation => pidBinary node id serial creation
  | .nil | .other => .error (.outputException "unknown ruby type")

def sequenceToBinary : List Value → Except Fault (List UInt8)
  | [] => .ok []
  | element :: sequence => do
    let e ← termToBinaryOf element
    let es ← sequenceToBinary sequence
    return e ++ es

def pairsToBinary : List (Value × Value) → Except Fault (List UInt8)
  | [] => .ok []
  | (key, value) :: pairs => do
    let k ← termToBinaryOf key
    let v ← termToBinaryOf value
    let es ← pairsToBinary pairs
    return k ++ v ++ es

end

attribute [grind =] termToBinaryOf sequenceToBinary pairsToBinary

/-- `term_to_binary`, without compression. -/
def termToBinary (term : Value) : Except Fault (List UInt8) := do
  let data ← termToBinaryOf term
  return tagVersion :: data

end CloudI.Api.Ruby
