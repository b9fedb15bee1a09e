import CloudI.Api.Terms
import CloudI.Framework.Bytes

/-!
# The external term codec of the OCaml API

`binaryToTerm` and `termToBinary` of `erlang.ml`, with integers of 63 bits,
which hold every number of 32 bits. A string is read by its index, which
raises `Invalid_argument` behind its end; `binary_to_term` makes an error of
it. `depth` bounds how deep the decoder calls itself.
-/

namespace CloudI.Api.OCaml

/-- What a call ends with instead of a result: the errors that it returns, and
what it raises. -/
inductive Fault
  | parseError (s : String)
  | outputError (s : String)
  | invalidArgument
  | failure
  | stackOverflow

/-- `t`; a map is the bindings of its `Hashtbl`, in the order of `Hashtbl.iter`. -/
inductive Value
  | otpErlangInteger (value : Int)
  | otpErlangIntegerBig (value : Int)
  | otpErlangFloat (value : BitVec 64)
  | otpErlangAtom (value : List UInt8)
  | otpErlangAtomUTF8 (value : List UInt8)
  | otpErlangAtomCacheRef (value : Int)
  | otpErlangAtomBool (value : Bool)
  | otpErlangString (value : List UInt8)
  | otpErlangBinary (value : List UInt8)
  | otpErlangBinaryBits (value : List UInt8) (bits : Int)
  | otpErlangList (value : List Value)
  | otpErlangListImproper (value : List Value)
  | otpErlangTuple (value : List Value)
  | otpErlangMap (value : List (Value × Value))
  | otpErlangPid (nodeTag : Int) (node id serial : List UInt8) (creation : Int)
  | otpErlangPort (nodeTag : Int) (node id : List UInt8) (creation : Int)
  | otpErlangReference (nodeTag : Int) (node id : List UInt8) (creation : Int)
  | otpErlangFunction (tag : Int) (value : List UInt8)

/-! ## Strings -/

/-- `Sys.max_string_length` -/
def maxStringLength : Nat := 144115188075855863

/-- `int_of_char binary.[i]` -/
def charAt (i : Nat) (binary : List UInt8) : Except Fault UInt8 :=
  match binary[i]? with
  | some c => .ok c
  | none => .error .invalidArgument

/-- `String.sub binary i j` -/
def sub (i j : Nat) (binary : List UInt8) : Except Fault (List UInt8) :=
  if binary.length < i + j then .error .invalidArgument else .ok ((binary.drop i).take j)

/-- The number in the `k` bytes at an index. -/
def unpack (k i : Nat) (binary : List UInt8) : Except Fault Nat := do
  let bytes ← sub i k binary
  return ofBe bytes

def unpackUint16 : Nat → List UInt8 → Except Fault Nat := unpack 2

/-- A byte is never too large for the `int` that it is shifted in. -/
def unpackUint32 : Nat → List UInt8 → Except Fault Nat := unpack 4

def unpackInteger (i : Nat) (binary : List UInt8) : Except Fault Value := do
  let value ← unpack 4 i binary
  return .otpErlangInteger (BitVec.ofNat 32 value).toInt

def unpackDouble (i : Nat) (binary : List UInt8) : Except Fault (BitVec 64) := do
  let value ← unpack 8 i binary
  return BitVec.ofNat 64 value

/-- `unpack_uint32` of the length of a string -/
def unpackLength (i : Nat) (binary : List UInt8) : Except Fault (Nat × Nat) := do
  let j ← unpackUint32 i binary
  if maxStringLength < j then .error (.parseError "ocaml string overflow") else return (i + 4, j)

/-- What a decoder returns: the index behind it and what it made. -/
abbrev Decoded (α : Type) := Nat × α

/-! ## Decoding -/

/-- The tag and the bytes of an atom. The length of a small one is read where its tag is. -/
def binaryToAtom (i : Nat) (binary : List UInt8) : Except Fault (Decoded (UInt8 × List UInt8)) := do
  let tag ← charAt i binary
  let i0 := i + 1
  match Tag.ofByte tag with
  | some .atomExt | some .atomUtf8Ext => do
    let j ← unpackUint16 i0 binary
    let i1 := i0 + 2
    let node ← sub i0 (2 + j) binary
    return (i1 + j, tag, node)
  | some .atomCacheRef => do
    let c ← charAt i0 binary
    return (i0 + 1, tag, [c])
  | some .smallAtomExt | some .smallAtomUtf8Ext => do
    let j ← charAt i binary
    let i1 := i0 + 1
    let node ← sub i0 (1 + j.toNat) binary
    return (i1 + j.toNat, tag, node)
  | _ => .error (.parseError "invalid atom tag")

/-- What follows the tag of a reference or a port. -/
def binaryToNodeId (make : Int → List UInt8 → List UInt8 → Int → Value) (i0 : Nat) (binary : List UInt8) :
    Except Fault (Decoded Value) := do
  let (i1, nodeTag, node) ← binaryToAtom i0 binary
  let id ← sub i1 4 binary
  let i2 := i1 + 4
  let creation ← charAt i2 binary
  let i3 := i2 + 1
  return (i3, make nodeTag.toNat node id creation.toNat)

/-- What follows the tag of a pid. -/
def binaryToPidFields (i0 : Nat) (binary : List UInt8) : Except Fault (Decoded Value) := do
  let (i1, nodeTag, node) ← binaryToAtom i0 binary
  let id ← sub i1 4 binary
  let i2 := i1 + 4
  let serial ← sub i2 4 binary
  let i3 := i2 + 4
  let creation ← charAt i3 binary
  let i4 := i3 + 1
  return (i4, .otpErlangPid nodeTag.toNat node id serial creation.toNat)

def binaryToPid (i : Nat) (binary : List UInt8) : Except Fault (Decoded Value) := do
  let tag ← charAt i binary
  let i0 := i + 1
  match Tag.ofByte tag with
  | some .pidExt => binaryToPidFields i0 binary
  | _ => .error (.parseError "invalid pid tag")

def binaryToSmallInteger (i0 : Nat) (binary : List UInt8) : Except Fault (Decoded Value) := do
  let value ← charAt i0 binary
  return (i0 + 1, .otpErlangInteger value.toNat)

def binaryToInt32 (i0 : Nat) (binary : List UInt8) : Except Fault (Decoded Value) := do
  let value ← unpackInteger i0 binary
  return (i0 + 4, value)

def binaryToInteger (i : Nat) (binary : List UInt8) : Except Fault (Decoded Value) := do
  let tag ← charAt i binary
  let i0 := i + 1
  match Tag.ofByte tag with
  | some .smallIntegerExt => binaryToSmallInteger i0 binary
  | some .integerExt => binaryToInt32 i0 binary
  | _ => .error (.parseError "invalid integer tag")

/-- The digits at `i + r` down to `i + 1`, the most significant one last in the bytes. -/
def bignumLoop (binary : List UInt8) (i : Nat) : Nat → Nat → Except Fault Nat
  | 0, bignumValue => .ok bignumValue
  | r + 1, bignumValue => do
    let digit ← charAt (i + (r + 1)) binary
    bignumLoop binary i r (digit.toNat + 256 * bignumValue)

/-- What follows the length of a big integer. -/
def binaryToBignum (i1 j : Nat) (binary : List UInt8) : Except Fault (Decoded Value) := do
  if maxStringLength < j then .error (.parseError "ocaml string overflow")
  else do
    let sign ← charAt i1 binary
    let bignum ← bignumLoop binary i1 j 0
    let i2 := i1 + 1
    return (i2 + j, .otpErlangIntegerBig (if sign = 1 then -bignum else bignum))

def binaryToExport (i0 : Nat) (binary : List UInt8) : Except Fault (Decoded Value) := do
  let (i1, _) ← binaryToAtom i0 binary
  let (i2, _) ← binaryToAtom i1 binary
  let tag ← charAt i2 binary
  if tag ≠ Tag.smallIntegerExt.byte then .error (.parseError "invalid small integer tag")
  else do
    let i3 := i2 + 2
    let value ← sub i0 (i3 - i0) binary
    return (i3, .otpErlangFunction Tag.exportExt.byte.toNat value)

def binaryToNewReference (i0 : Nat) (binary : List UInt8) : Except Fault (Decoded Value) := do
  let j ← unpackUint16 i0 binary
  let j := j * 4
  let i1 := i0 + 2
  let (i2, nodeTag, node) ← binaryToAtom i1 binary
  let creation ← charAt i2 binary
  let i3 := i2 + 1
  let id ← sub i3 j binary
  return (i3 + j, .otpErlangReference nodeTag.toNat node id creation.toNat)

/-- `true` and `false`, as bytes. -/
def boolName (b : Bool) : List UInt8 := if b then [116, 114, 117, 101] else [102, 97, 108, 115, 101]

/-- What an atom of a small length is. -/
def smallAtom (atomName : List UInt8) : Value :=
  if atomName = boolName true then .otpErlangAtomBool true
  else if atomName = boolName false then .otpErlangAtomBool false
  else .otpErlangAtom atomName

section Calls

variable (terms : Nat → List UInt8 → Except Fault (Decoded Value))

/-- The elements come in the order in which they are read. -/
def binaryToTermSequence : Nat → Nat → List UInt8 → Except Fault (Decoded (List Value))
  | i, 0, _ => .ok (i, [])
  | i, length + 1, binary => do
    let (i1, element) ← terms i binary
    let (i2, sequence) ← binaryToTermSequence i1 length binary
    return (i2, element :: sequence)

/-- A list of what was read before its tail, and the tail. -/
def listWithTail (tmp : List Value) : Value → Value
  | .otpErlangList [] => .otpErlangList tmp
  | tail => .otpErlangListImproper (tmp ++ [tail])

def binaryToList (i0 : Nat) (binary : List UInt8) : Except Fault (Decoded Value) := do
  let length ← unpackUint32 i0 binary
  let i1 := i0 + 4
  let (i2, tmp) ← binaryToTermSequence terms i1 length binary
  let (i3, tail) ← terms i2 binary
  return (i3, listWithTail tmp tail)

def binaryToPairs : Nat → Nat → List UInt8 → Except Fault (Decoded (List (Value × Value)))
  | i2, 0, _ => .ok (i2, [])
  | i2, length + 1, binary => do
    let (i3, key) ← terms i2 binary
    let (i4, value) ← terms i3 binary
    let (i5, pairs) ← binaryToPairs i4 length binary
    return (i5, (key, value) :: pairs)

def binaryToMap (i0 : Nat) (binary : List UInt8) : Except Fault (Decoded Value) := do
  let length ← unpackUint32 i0 binary
  let i1 := i0 + 4
  let (i, pairs) ← binaryToPairs terms i1 length binary
  return (i, .otpErlangMap pairs)

def binaryToFun (i0 : Nat) (binary : List UInt8) : Except Fault (Decoded Value) := do
  let numfree ← unpackUint32 i0 binary
  let i1 := i0 + 4
  let (i2, _) ← binaryToPid i1 binary
  let (i3, _) ← binaryToAtom i2 binary
  let (i4, _) ← binaryToInteger i3 binary
  let (i5, _) ← binaryToInteger i4 binary
  let (i6, _) ← binaryToTermSequence terms i5 numfree binary
  let value ← sub i0 (i6 - i0) binary
  return (i6, .otpErlangFunction Tag.funExt.byte.toNat value)

/-- `float_of_string` -/
abbrev FloatOfString := List UInt8 → Option (BitVec 64)

variable (floatOfString : FloatOfString)

/-- What follows a tag. -/
def binaryToTermOf : Tag → Nat → List UInt8 → Except Fault (Decoded Value)
  | .newFloatExt, i0, binary => do
    let value ← unpackDouble i0 binary
    return (i0 + 8, .otpErlangFloat value)
  | .bitBinaryExt, i0, binary => do
    let (i1, j) ← unpackLength i0 binary
    let bits ← charAt i1 binary
    let i2 := i1 + 1
    let data ← sub i2 j binary
    return (i2 + j, if bits = 8 then .otpErlangBinary data else .otpErlangBinaryBits data bits.toNat)
  | .atomCacheRef, i0, binary => do
    let value ← charAt i0 binary
    return (i0 + 1, .otpErlangAtomCacheRef value.toNat)
  | .smallIntegerExt, i0, binary => binaryToSmallInteger i0 binary
  | .integerExt, i0, binary => binaryToInt32 i0 binary
  | .floatExt, i0, binary => do
    let data ← sub i0 31 binary
    match floatOfString (data.takeWhile (· ≠ 0)) with
    | some value => return (i0 + 31, .otpErlangFloat value)
    | none => .error .failure
  | .atomExt, i0, binary => do
    let j ← unpackUint16 i0 binary
    let i1 := i0 + 2
    let value ← sub i1 j binary
    return (i1 + j, .otpErlangAtom value)
  | .referenceExt, i0, binary => binaryToNodeId .otpErlangReference i0 binary
  | .portExt, i0, binary => binaryToNodeId .otpErlangPort i0 binary
  | .pidExt, i0, binary => binaryToPidFields i0 binary
  | .smallTupleExt, i0, binary => do
    let length ← charAt i0 binary
    let i1 := i0 + 1
    let (i2, tmp) ← binaryToTermSequence terms i1 length.toNat binary
    return (i2, .otpErlangTuple tmp)
  | .largeTupleExt, i0, binary => do
    let (i1, length) ← unpackLength i0 binary
    let (i2, tmp) ← binaryToTermSequence terms i1 length binary
    return (i2, .otpErlangTuple tmp)
  | .nilExt, i0, _ => .ok (i0, .otpErlangList [])
  | .stringExt, i0, binary => do
    let j ← unpackUint16 i0 binary
    let i1 := i0 + 2
    let value ← sub i1 j binary
    return (i1 + j, .otpErlangString value)
  | .listExt, i0, binary => binaryToList terms i0 binary
  | .binaryExt, i0, binary => do
    let (i1, j) ← unpackLength i0 binary
    let value ← sub i1 j binary
    return (i1 + j, .otpErlangBinary value)
  | .smallBigExt, i0, binary => do
    let j ← charAt i0 binary
    binaryToBignum (i0 + 1) j.toNat binary
  | .largeBigExt, i0, binary => do
    let j ← unpackUint32 i0 binary
    binaryToBignum (i0 + 4) j binary
  | .newFunExt, i0, binary => do
    let length ← unpackUint32 i0 binary
    let i1 := i0 + 4
    let value ← sub i1 length binary
    return (i1 + length, .otpErlangFunction Tag.newFunExt.byte.toNat value)
  | .exportExt, i0, binary => binaryToExport i0 binary
  | .newReferenceExt, i0, binary => binaryToNewReference i0 binary
  | .smallAtomExt, i0, binary => do
    let j ← charAt i0 binary
    let i1 := i0 + 1
    let atomName ← sub i1 j.toNat binary
    return (i1 + j.toNat, smallAtom atomName)
  | .mapExt, i0, binary => binaryToMap terms i0 binary
  | .funExt, i0, binary => binaryToFun terms i0 binary
  | .atomUtf8Ext, i0, binary => do
    let j ← unpackUint16 i0 binary
    let i1 := i0 + 2
    let value ← sub i1 j binary
    return (i1 + j, .otpErlangAtomUTF8 value)
  | .smallAtomUtf8Ext, i0, binary => do
    let j ← charAt i0 binary
    let i1 := i0 + 1
    let value ← sub i1 j.toNat binary
    return (i1 + j.toNat, .otpErlangAtomUTF8 value)
  | .compressedZlib, _, _ => .error (.parseError "ocaml doesn't provide zlib")

end Calls

/-- `binary_to_term_` -/
def binaryToTermAt (floatOfString : FloatOfString) : Nat → Nat → List UInt8 → Except Fault (Decoded Value)
  | 0, _, _ => .error .stackOverflow
  | depth + 1, i, binary => do
    let tag ← charAt i binary
    let i0 := i + 1
    match Tag.ofByte tag with
    | some tag => binaryToTermOf (binaryToTermAt floatOfString depth) floatOfString tag i0 binary
    | none => .error (.parseError "invalid tag")

attribute [grind =] bignumLoop binaryToTermSequence binaryToTermOf binaryToTermAt

def binaryToTerm (floatOfString : FloatOfString) (depth : Nat) (binary : List UInt8) : Except Fault Value :=
  if binary.length ≤ 1 then .error (.parseError "null input")
  else if binary.head? ≠ some tagVersion then .error (.parseError "invalid version")
  else
    match binaryToTermAt floatOfString depth 1 binary with
    | .ok (i, term) => if i ≠ binary.length then .error (.parseError "unparsed data") else .ok term
    | .error .invalidArgument => .error (.parseError "missing data")
    | .error e => .error e

/-! ## Encoding -/

/-- `char_of_int` -/
def charOfInt (n : Int) : Except Fault UInt8 :=
  if 0 ≤ n ∧ n ≤ 255 then .ok (.ofNat n.toNat) else .error .invalidArgument

def stringToBinary (value : List UInt8) : Except Fault (List UInt8) :=
  if value.length = 0 then .ok [Tag.nilExt.byte]
  else if value.length ≤ 65535 then .ok (Tag.stringExt.byte :: be 2 value.length ++ value)
  else if value.length ≤ 4294967295 then
    .ok (Tag.listExt.byte :: be 4 value.length ++ (value.flatMap fun c => [Tag.smallIntegerExt.byte, c]) ++
      [Tag.nilExt.byte])
  else .error (.outputError "uint32 overflow")

/-- What a tuple starts with. -/
def tupleToBinary (length : Nat) : Except Fault (List UInt8) :=
  if length ≤ 255 then .ok (Tag.smallTupleExt.byte :: be 1 length)
  else if length ≤ 4294967295 then .ok (Tag.largeTupleExt.byte :: be 4 length)
  else .error (.outputError "uint32 overflow")

def bignumToBinary (value : Int) : Except Fault (List UInt8) :=
  let sign : UInt8 := if value < 0 then 1 else 0
  let l := minimal value.natAbs
  if l.length ≤ 255 then .ok (Tag.smallBigExt.byte :: be 1 l.length ++ sign :: l)
  else if l.length ≤ 4294967295 then .ok (Tag.largeBigExt.byte :: be 4 l.length ++ sign :: l)
  else .error (.outputError "uint32 overflow")

def integerToBinary (value : Int) : Except Fault (List UInt8) :=
  if 0 ≤ value ∧ value ≤ 255 then .ok [Tag.smallIntegerExt.byte, .ofNat value.toNat]
  else if -2147483648 ≤ value ∧ value ≤ 2147483647 then
    .ok (Tag.integerExt.byte :: be 4 (BitVec.ofInt 32 value).toNat)
  else bignumToBinary value

def floatToBinary (value : BitVec 64) : List UInt8 := Tag.newFloatExt.byte :: be 8 value.toNat

/-- An atom, with the tag of a length of one byte or of two. -/
def nameToBinary (small large : Tag) (value : List UInt8) : Except Fault (List UInt8) :=
  if value.length ≤ 255 then .ok (small.byte :: be 1 value.length ++ value)
  else if value.length ≤ 65535 then .ok (large.byte :: be 2 value.length ++ value)
  else .error (.outputError "uint16 overflow")

def atomToBinary : List UInt8 → Except Fault (List UInt8) := nameToBinary .smallAtomExt .atomExt

def atomUtf8ToBinary : List UInt8 → Except Fault (List UInt8) := nameToBinary .smallAtomUtf8Ext .atomUtf8Ext

def binaryBitsToBinary (value : List UInt8) (bits : Int) : Except Fault (List UInt8) :=
  if bits < 1 ∨ 8 < bits then .error (.outputError "invalid OtpErlangBinaryBits")
  else if value.length ≤ 4294967295 then
    if bits ≠ 8 then .ok (Tag.bitBinaryExt.byte :: be 4 value.length ++ UInt8.ofNat bits.toNat :: value)
    else .ok (Tag.binaryExt.byte :: be 4 value.length ++ value)
  else .error (.outputError "uint32 overflow")

def functionToBinary (tag : Int) (value : List UInt8) : Except Fault (List UInt8) := do
  let tag ← charOfInt tag
  return tag :: value

def pidToBinary (nodeTag : Int) (node id serial : List UInt8) (creation : Int) : Except Fault (List UInt8) := do
  let nodeTag ← charOfInt nodeTag
  let creation ← charOfInt creation
  return Tag.pidExt.byte :: nodeTag :: node ++ id ++ serial ++ [creation]

def portToBinary (nodeTag : Int) (node id : List UInt8) (creation : Int) : Except Fault (List UInt8) := do
  let nodeTag ← charOfInt nodeTag
  let creation ← charOfInt creation
  return Tag.portExt.byte :: nodeTag :: node ++ id ++ [creation]

def referenceToBinary (nodeTag : Int) (node id : List UInt8) (creation : Int) : Except Fault (List UInt8) :=
  let length := id.length / 4
  if length = 0 then do
    let nodeTag ← charOfInt nodeTag
    let creation ← charOfInt creation
    return Tag.referenceExt.byte :: nodeTag :: node ++ id ++ [creation]
  else if length ≤ 65535 then do
    let nodeTag ← charOfInt nodeTag
    let creation ← charOfInt creation
    return Tag.newReferenceExt.byte :: be 2 length ++ nodeTag :: node ++ creation :: id
  else .error (.outputError "uint16 overflow")

/-- The start of a list, its elements and, if it is proper, its end. -/
def listToBinary (length : Nat) (improper : Bool) (elements : List UInt8) : List UInt8 :=
  if improper then Tag.listExt.byte :: be 4 (length - 1) ++ elements
  else Tag.listExt.byte :: be 4 length ++ elements ++ [Tag.nilExt.byte]

mutual

/-- `term_to_binary_` -/
def termToBinaryOf : Value → Except Fault (List UInt8)
  | .otpErlangInteger value => integerToBinary value
  | .otpErlangIntegerBig value => bignumToBinary value
  | .otpErlangFloat value => .ok (floatToBinary value)
  | .otpErlangAtom value => atomToBinary value
  | .otpErlangAtomUTF8 value => atomUtf8ToBinary value
  | .otpErlangAtomCacheRef value => do
    let value ← charOfInt value
    return [Tag.atomCacheRef.byte, value]
  | .otpErlangAtomBool value => atomToBinary (boolName value)
  | .otpErlangString value => stringToBinary value
  | .otpErlangBinary value => binaryBitsToBinary value 8
  | .otpErlangBinaryBits value bits => binaryBitsToBinary value bits
  | .otpErlangList value =>
    if value.length = 0 then .ok [Tag.nilExt.byte]
    else if value.length ≤ 4294967295 then do
      let elements ← sequenceToBinary value
      return listToBinary value.length false elements
    else .error (.outputError "uint32 overflow")
  | .otpErlangListImproper value =>
    if value.length = 0 then .ok [Tag.nilExt.byte]
    else if value.length ≤ 4294967295 then do
      let elements ← sequenceToBinary value
      return listToBinary value.length true elements
    else .error (.outputError "uint32 overflow")
  | .otpErlangTuple value => do
    let start ← tupleToBinary value.length
    let elements ← sequenceToBinary value
    return start ++ elements
  -- no tag is written
  | .otpErlangMap value =>
    if value.length ≤ 4294967295 then do
      let pairs ← pairsToBinary value
      return be 4 value.length ++ pairs
    else .error (.outputError "uint32 overflow")
  | .otpErlangPid nodeTag node id serial creation => pidToBinary nodeTag node id serial creation
  | .otpErlangPort nodeTag node id creation => portToBinary nodeTag node id creation
  | .otpErlangReference nodeTag node id creation => referenceToBinary nodeTag node id creation
  | .otpErlangFunction tag value => functionToBinary tag value

def sequenceToBinary : List Value → Except Fault (List UInt8)
  | [] => .ok []
  | h :: t => do
    let e ← termToBinaryOf h
    let es ← sequenceToBinary t
    return e ++ es

def pairsToBinary : List (Value × Value) → Except Fault (List UInt8)
  | [] => .ok []
  | (key, value) :: pairs => do
    let k ← termToBinaryOf key
    let v ← termToBinaryOf value
    let es ← pairsToBinary pairs
    return k ++ v ++ es

end

attribute [grind =] termToBinaryOf sequenceToBinary pairsToBinary

def termToBinary (term : Value) : Except Fault (List UInt8) := do
  let data ← termToBinaryOf term
  return tagVersion :: data

end CloudI.Api.OCaml
