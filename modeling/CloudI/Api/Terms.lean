/-!
# Erlang terms and their tags

The terms that the external term format has, whatever a programming language makes of them, and the tags
of the format. An atom, a node and an opaque term is known by its bytes.
-/

namespace CloudI.Api

inductive Tag
  | compressedZlib | newFloatExt | bitBinaryExt | atomCacheRef | smallIntegerExt | integerExt | floatExt | atomExt
  | referenceExt | portExt | pidExt | smallTupleExt | largeTupleExt | nilExt | stringExt | listExt | binaryExt
  | smallBigExt | largeBigExt | newFunExt | exportExt | newReferenceExt | smallAtomExt | mapExt | funExt | atomUtf8Ext
  | smallAtomUtf8Ext
  deriving DecidableEq

namespace Tag

def byte : Tag → UInt8
  | compressedZlib => 80
  | newFloatExt => 70
  | bitBinaryExt => 77
  | atomCacheRef => 78
  | smallIntegerExt => 97
  | integerExt => 98
  | floatExt => 99
  | atomExt => 100
  | referenceExt => 101
  | portExt => 102
  | pidExt => 103
  | smallTupleExt => 104
  | largeTupleExt => 105
  | nilExt => 106
  | stringExt => 107
  | listExt => 108
  | binaryExt => 109
  | smallBigExt => 110
  | largeBigExt => 111
  | newFunExt => 112
  | exportExt => 113
  | newReferenceExt => 114
  | smallAtomExt => 115
  | mapExt => 116
  | funExt => 117
  | atomUtf8Ext => 118
  | smallAtomUtf8Ext => 119

def all : List Tag :=
  [compressedZlib, newFloatExt, bitBinaryExt, atomCacheRef, smallIntegerExt, integerExt, floatExt, atomExt,
    referenceExt, portExt, pidExt, smallTupleExt, largeTupleExt, nilExt, stringExt, listExt, binaryExt,
    smallBigExt, largeBigExt, newFunExt, exportExt, newReferenceExt, smallAtomExt, mapExt, funExt, atomUtf8Ext,
    smallAtomUtf8Ext]

/-- The tag that a byte stands for. -/
def ofByte (b : UInt8) : Option Tag := all.find? fun t => t.byte == b

@[simp] theorem ofByte_byte (t : Tag) : ofByte t.byte = some t := by cases t <;> rfl

end Tag

/-- The first byte of every external term. -/
def tagVersion : UInt8 := 131

/-- An Erlang term. A list is made of `cons` and `nil`, so that an improper list is one too. -/
inductive Term
  | int (n : Int)
  | float (bits : BitVec 64)
  | atom (bytes : List UInt8)
  | atomUtf8 (bytes : List UInt8)
  | atomCacheRef (n : UInt8)
  | bitstring (value : List UInt8) (bits : UInt8)
  | function (tag : UInt8) (value : List UInt8)
  | pid (nodeTag : UInt8) (node id serial : List UInt8) (creation : UInt8)
  | port (nodeTag : UInt8) (node id : List UInt8) (creation : UInt8)
  | reference (nodeTag : UInt8) (node id : List UInt8) (creation : UInt8)
  | nil
  | cons (head tail : Term)
  | tuple (elements : List Term)
  | map (pairs : List (Term × Term))

/-- The list of the integers that bytes are. -/
def Term.ofBytes : List UInt8 → Term
  | [] => .nil
  | b :: bytes => .cons (.int b.toNat) (ofBytes bytes)

end CloudI.Api
