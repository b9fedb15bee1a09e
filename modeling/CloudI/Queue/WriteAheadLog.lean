import Mathlib.Data.Prod.Lex
import CloudI.Framework.BlockFile
import CloudI.Framework.Dict
import CloudI.Framework.Lists

/-!
# The write-ahead log of the queue service

The requests that a queue service holds, each in a chunk of a file. A chunk is its size and the size used, in
eight bytes each, and then the bytes of the request. A chunk that is freed keeps its place, for a request that
fits in it, unless it is the last one. `Op.apply` is what the log does for the service.
-/

namespace CloudI.Queue

variable {Id R : Type}

/-- The place of a chunk. Free chunks are in the order of terms, a smaller one first. -/
structure Extent where
  size : Nat
  position : Nat

instance : LinearOrder Extent :=
  LinearOrder.lift' (fun e => toLex (e.size, e.position)) fun a b h => by
    obtain ⟨hs, hp⟩ := Prod.mk.inj (toLex.injective h)
    cases a
    cases b
    exact congrArg₂ Extent.mk hs hp

/-- A chunk of the file with a request. -/
structure Chunk (R : Type) extends Extent where
  request : R
  retries : Nat

/-- `state`, with what the file holds. A free chunk has neither a request nor retries. -/
structure State (Id R : Type) where
  file : List UInt8
  position : Nat
  chunks : Dict Id (Chunk R)
  chunksFree : List Extent

/-- The size of a chunk and the size used. -/
def chunkOverhead : Nat := 8 + 8

def zeros (n : Nat) : List UInt8 := List.replicate n 0

/-- The bytes of a chunk. -/
def chunkBytes (chunkSize : Nat) (chunkData : List UInt8) : List UInt8 :=
  be 8 chunkSize ++ be 8 chunkData.length ++ chunkData ++ zeros (chunkSize - chunkData.length)

/-- The file with the chunk, and the position after it. -/
def chunkWrite (chunkSize : Nat) (chunkData : List UInt8) (position : Nat) (file : List UInt8) : List UInt8 × Nat :=
  (pwrite position (chunkBytes chunkSize chunkData) file, position + chunkOverhead + chunkSize)

def chunkEraseLast (chunkSize position : Nat) (file : List UInt8) : List UInt8 :=
  pwrite position (be 8 0 ++ be 8 0 ++ zeros chunkSize) file

def chunkFree (chunkSize position : Nat) (file : List UInt8) : List UInt8 :=
  pwrite position (be 8 chunkSize ++ be 8 0 ++ zeros chunkSize) file

def eraseChunk (chunk : Chunk R) (s : State Id R) : State Id R :=
  if chunk.position + chunkOverhead + chunk.size = s.position then
    { s with file := chunkEraseLast chunk.size chunk.position s.file, position := chunk.position }
  else
    { s with
      file := chunkFree chunk.size chunk.position s.file
      chunksFree := umerge s.chunksFree [chunk.toExtent] }

/-- The smallest free chunk of the size, and the others. -/
def chunkFreeCheck : List Extent → List Extent → Nat → Option (Extent × List Extent)
  | [], _, _ => none
  | chunk :: chunksFree, l, size =>
    if chunk.size ≥ size then some (chunk, l.reverse ++ chunksFree)
    else chunkFreeCheck chunksFree (chunk :: l) size

/-- `term_to_binary` of the requests, with the compression of the log. -/
abbrev Encode (R : Type) := R → List UInt8

/-- What a service does with a request to retry: the new id, unless it timed out. -/
abbrev RetryF (Id R : Type) := R → Bool → Option Id

/-- How a service updates a request. -/
abbrev UpdateF (Id R : Type) := R → Option (Id × R)

variable (encode : Encode R)

def storeStart (chunkRequest : R) (s : State Id R) : Chunk R × State Id R :=
  match chunkFreeCheck s.chunksFree [] (encode chunkRequest).length with
  | none =>
    let chunkSize := (encode chunkRequest).length
    let written := chunkWrite chunkSize (encode chunkRequest) s.position s.file
    (⟨⟨chunkSize, s.position⟩, chunkRequest, 0⟩, { s with file := written.1, position := written.2 })
  | some (chunk, newChunksFree) =>
    let written := chunkWrite chunk.size (encode chunkRequest) chunk.position s.file
    (⟨chunk, chunkRequest, 0⟩, { s with file := written.1, chunksFree := newChunksFree })

variable [DecidableEq Id]

def storeEnd (chunkId : Id) (chunk : Chunk R) (s : State Id R) : State Id R :=
  { s with chunks := s.chunks.store chunkId chunk }

def storeFail (chunk : Chunk R) (s : State Id R) : State Id R := eraseChunk chunk s

def erase (chunkId : Id) (s : State Id R) : Except Exn (R × State Id R) := do
  let chunk ← s.chunks.fetch chunkId
  return (chunk.request, { eraseChunk chunk s with chunks := s.chunks.erase chunkId })

def eraseRetry (chunkId : Id) (retryMax : Nat) (retryF : RetryF Id R) (s : State Id R) :
    Except Exn (State Id R) := do
  let chunk ← s.chunks.fetch chunkId
  match retryF chunk.request (decide (chunk.retries < retryMax)) with
  | none => return { eraseChunk chunk s with chunks := s.chunks.erase chunkId }
  | some newChunkId =>
    let newChunk := { chunk with retries := chunk.retries + 1 }
    return { s with chunks := (s.chunks.erase chunkId).store newChunkId newChunk }

/-- The previous chunk is erased from the file only: its id stays unless the update has the same one. -/
def update (chunkId : Id) (updateF : UpdateF Id R) (s : State Id R) : Except Exn (Option R × State Id R) := do
  let chunk ← s.chunks.fetch chunkId
  match updateF chunk.request with
  | none =>
    let erased ← erase chunkId s
    return (none, erased.2)
  | some (newChunkId, newChunkRequest) =>
    let nextState :=
      match chunkFreeCheck s.chunksFree [] (encode newChunkRequest).length with
      | none =>
        let newChunkSize := (encode newChunkRequest).length
        let written := chunkWrite newChunkSize (encode newChunkRequest) s.position s.file
        let newChunk := ⟨⟨newChunkSize, s.position⟩, newChunkRequest, 0⟩
        { s with file := written.1, chunks := s.chunks.store newChunkId newChunk, position := written.2 }
      | some (chunkFree, newChunksFree) =>
        let written := chunkWrite chunkFree.size (encode newChunkRequest) chunkFree.position s.file
        let newChunk := ⟨chunkFree, newChunkRequest, 0⟩
        { s with
          file := written.1
          chunks := s.chunks.store newChunkId newChunk
          chunksFree := newChunksFree }
    return (some newChunkRequest, eraseChunk chunk nextState)

/-- The log of a file that is absent. -/
def State.empty : State Id R := ⟨[], 0, Dict.new, []⟩

/-- What a service does with its log. A request is stored when its chunk has an id. -/
inductive Op (Id R : Type) where
  | store (chunkRequest : R) (chunkId : Id)
  | storeFail (chunkRequest : R)
  | erase (chunkId : Id)
  | eraseRetry (chunkId : Id) (retryMax : Nat) (retryF : RetryF Id R)
  | update (chunkId : Id) (updateF : UpdateF Id R)

def Op.apply (s : State Id R) : Op Id R → Except Exn (State Id R)
  | store chunkRequest chunkId =>
    let (chunk, next) := storeStart encode chunkRequest s
    .ok (storeEnd chunkId chunk next)
  | .storeFail chunkRequest =>
    let (chunk, next) := storeStart encode chunkRequest s
    .ok (CloudI.Queue.storeFail chunk next)
  | erase chunkId => return (← CloudI.Queue.erase chunkId s).2
  | eraseRetry chunkId retryMax retryF => CloudI.Queue.eraseRetry chunkId retryMax retryF s
  | update chunkId updateF => return (← CloudI.Queue.update encode chunkId updateF s).2

/-! ## The requests that are stored -/

/-- The requests that are stored and not erased, with their retries. -/
abbrev Stored (Id R : Type) := Dict Id (R × Nat)

/-- What an operation does to the requests that are stored. -/
def Op.expected (m : Stored Id R) : Op Id R → Stored Id R
  | store chunkRequest chunkId => m.store chunkId (chunkRequest, 0)
  | .storeFail _ => m
  | erase chunkId => m.erase chunkId
  | eraseRetry chunkId retryMax retryF =>
    match m chunkId with
    | none => m
    | some (r, retries) =>
      match retryF r (decide (retries < retryMax)) with
      | none => m.erase chunkId
      | some newChunkId => (m.erase chunkId).store newChunkId (r, retries + 1)
  | update chunkId updateF =>
    match m chunkId with
    | none => m
    | some (r, _) =>
      match updateF r with
      | none => m.erase chunkId
      | some (newChunkId, r') => (m.erase chunkId).store newChunkId (r', 0)

/-- A new id is distinct from the ids of the other requests. -/
def Op.Distinct (m : Stored Id R) : Op Id R → Prop
  | store _ chunkId => m chunkId = none
  | .storeFail _ => True
  | erase _ => True
  | eraseRetry chunkId retryMax retryF => ∀ r retries newChunkId, m chunkId = some (r, retries) →
      retryF r (decide (retries < retryMax)) = some newChunkId → m newChunkId = none ∨ newChunkId = chunkId
  | update chunkId updateF => ∀ r retries newChunkId r', m chunkId = some (r, retries) →
      updateF r = some (newChunkId, r') → m newChunkId = none ∨ newChunkId = chunkId

/-- An update that stores a request keeps its id. -/
def Op.KeepsId (m : Stored Id R) : Op Id R → Prop
  | update chunkId updateF => ∀ r retries newChunkId r', m chunkId = some (r, retries) →
      updateF r = some (newChunkId, r') → newChunkId = chunkId
  | _ => True

end CloudI.Queue
