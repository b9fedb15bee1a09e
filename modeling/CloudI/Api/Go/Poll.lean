import CloudI.Api.Go.Codec
import CloudI.Framework.Native

/-!
# `pollRequest` of the Go API

What `pollRequest` does with the data that was received (`pollMessage`), and `handleEvents` with what follows
the first message. The fields of the instance are assigned as they are read from a `bytes.Reader`. The instance
has what it sent and the callbacks it called. The timer of `requestTimeoutAdjustment` is left out.
-/

namespace CloudI.Api.Go

/-- What ends `pollRequest` with an error. -/
inductive PollFault
  | codec (fault : Fault)
  | messageDecodingError
  | terminateError (timeout : Int)

/-- A callback, with its arguments. -/
structure Call where
  command : Int
  name : List UInt8
  pattern : List UInt8
  requestInfo : List UInt8
  request : List UInt8
  timeout : Int
  priority : Int
  transId : List UInt8
  pid : Value

inductive Effect
  | keepalive
  | callback (call : Call)

/-- The fields of an instance that messages set, and what it did. -/
structure Instance where
  processIndex : Int
  processCount : Int
  processCountMax : Int
  processCountMin : Int
  namePrefix : List UInt8
  timeoutInitialize : Int
  timeoutAsync : Int
  timeoutSync : Int
  timeoutTerminate : Int
  priorityDefault : Int
  requestTimeoutAdjustment : Bool
  responseInfo : List UInt8
  response : List UInt8
  transId : List UInt8
  transIds : List (List UInt8)
  subscribeCount : Int
  terminate : Bool
  effects : List Effect

/-- The instance, and the reader of the data. -/
structure PollState where
  api : Instance
  reader : Reader

abbrev Poll := EStateM PollFault PollState

/-- `binary.Read` of a number of `k` bytes in the native byte order. -/
def binaryReadNative (k : Nat) (r : Reader) : Except Fault (List UInt8 × Reader) :=
  if r.data.length ≤ r.pos then .error .eof
  else if r.data.length < r.pos + k then .error .unexpectedEOF
  else .ok ((r.data.drop r.pos).take k, r.seek k)

namespace Poll

def lift {α : Type} (f : Reader → Except Fault (α × Reader)) : Poll α := fun s =>
  match f s.reader with
  | .ok (a, reader) => .ok a { s with reader := reader }
  | .error e => .error (.codec e) s

def assign (f : Instance → Instance) : Poll Unit := fun s => .ok () { s with api := f s.api }

variable (o : ByteOrder)

def unsigned (k : Nat) : Poll Int := do
  let l ← lift (binaryReadNative k)
  return o.unsigned l

def signed (k : Nat) : Poll Int := do
  let l ← lift (binaryReadNative k)
  return o.signed l

/-- The bytes of a new slice, and a null terminator. -/
def terminated (n : Nat) : Poll (List UInt8) := do
  let value ← lift fun r => read r n
  let _ ← lift readByte
  return value

/-- A string, whose size has the null terminator. The length of the slice is an `uint32`. -/
def string : Poll (List UInt8) := do
  let size ← unsigned o 4
  terminated ((size.toNat + 4294967295) % 4294967296)

/-- A binary, whose size does not have the null terminator. -/
def binary : Poll (List UInt8) := do
  let size ← unsigned o 4
  terminated size.toNat

end Poll

open Poll

section

variable (o : ByteOrder)

/-! ## Events -/

/-- The fields of `messageReinit`. -/
def reinit : Poll Unit := do
  let processCount ← unsigned o 4
  assign fun api => { api with processCount := processCount }
  let timeoutAsync ← unsigned o 4
  assign fun api => { api with timeoutAsync := timeoutAsync }
  let timeoutSync ← unsigned o 4
  assign fun api => { api with timeoutSync := timeoutSync }
  let priorityDefault ← signed o 1
  assign fun api => { api with priorityDefault := priorityDefault }
  let requestTimeoutAdjustment ← unsigned o 1
  assign fun api => { api with requestTimeoutAdjustment := requestTimeoutAdjustment != 0 }

def keepalive : Poll Unit := assign fun api => { api with effects := api.effects ++ [.keepalive] }

def event (command : Int) : Poll Unit :=
  if command = 9 then reinit o
  else if command = 8 then keepalive
  else throw .messageDecodingError

end

/-! ## How far the reader is -/

/-- A step that succeeds does not go back in the data. -/
def Forward {α : Type} (m : Poll α) : Prop :=
  ∀ s a s', m s = .ok a s' → s'.reader.len ≤ s.reader.len

theorem forward_pure {α : Type} (a : α) : Forward (pure a) := by
  intro s b s' h
  cases h
  exact Nat.le_refl _

theorem Forward.bind {α β : Type} {m : Poll α} {f : α → Poll β} (hm : Forward m) (hf : ∀ a, Forward (f a)) :
    Forward (m >>= f) := by
  intro s b s' h
  have h : EStateM.bind m f s = .ok b s' := h
  unfold EStateM.bind at h
  split at h
  · exact Nat.le_trans (hf _ _ _ _ h) (hm _ _ _ ‹_›)
  · cases h

theorem forward_assign (f : Instance → Instance) : Forward (assign f) := by
  intro s b s' h
  cases h
  exact Nat.le_refl _

theorem forward_lift {α : Type} {f : Reader → Except Fault (α × Reader)}
    (hf : ∀ r a r', f r = .ok (a, r') → r'.len ≤ r.len) : Forward (lift f) := by
  intro s b s' h
  unfold lift at h
  split at h
  · cases h
    exact hf _ _ _ ‹_›
  · cases h

theorem binaryReadNative_len {k : Nat} {r r' : Reader} {l : List UInt8} (h : binaryReadNative k r = .ok (l, r')) :
    r'.len = r.len - k ∧ k ≤ r.len := by
  unfold binaryReadNative at h
  split at h
  · cases h
  · split at h
    · cases h
    · cases h
      simp only [Reader.len, Reader.seek]
      omega

theorem forward_binaryReadNative (k : Nat) : Forward (lift (binaryReadNative k)) :=
  forward_lift fun _ _ _ h => by have := binaryReadNative_len h; omega

theorem forward_unsigned (o : ByteOrder) (k : Nat) : Forward (unsigned o k) :=
  (forward_binaryReadNative k).bind fun _ => forward_pure _

theorem forward_signed (o : ByteOrder) (k : Nat) : Forward (signed o k) :=
  (forward_binaryReadNative k).bind fun _ => forward_pure _

theorem forward_event (o : ByteOrder) (command : Int) : Forward (event o command) := by
  unfold event reinit keepalive
  split
  · exact (forward_unsigned o 4).bind fun _ => (forward_assign _).bind fun _ =>
      (forward_unsigned o 4).bind fun _ => (forward_assign _).bind fun _ =>
      (forward_unsigned o 4).bind fun _ => (forward_assign _).bind fun _ =>
      (forward_signed o 1).bind fun _ => (forward_assign _).bind fun _ =>
      (forward_unsigned o 1).bind fun _ => forward_assign _
  · split
    · exact forward_assign _
    · intro s a s' h
      cases h

theorem unsigned_len {o : ByteOrder} {k : Nat} {n : Int} {s s' : PollState} (h : unsigned o k s = .ok n s') :
    s'.reader.len = s.reader.len - k ∧ k ≤ s.reader.len := by
  have h : EStateM.bind (lift (binaryReadNative k)) (fun l => pure (o.unsigned l)) s = .ok n s' := h
  cases hr : binaryReadNative k s.reader with
  | error e => simp only [EStateM.bind, lift, hr, reduceCtorEq] at h
  | ok a =>
    simp only [EStateM.bind, lift, hr, pure, EStateM.pure, EStateM.Result.ok.injEq] at h
    rw [← h.2]
    exact binaryReadNative_len hr

/-! ## The loop over the events -/

section

variable (o : ByteOrder)

/-- `handleEvents`, at the message with this number. -/
def handleEvents (external : Bool) (command : Int) (s : PollState) : EStateM.Result PollFault PollState Bool :=
  if command = 11 then
    let s := { s with api := { s.api with terminate := true } }
    if external then .ok false s else .error (.terminateError s.api.timeoutTerminate) s
  else
    match _h : event o command s with
    | .error e s => .error e s
    | .ok _ s =>
      if s.reader.len = 0 then .ok true s
      else
        match _h' : unsigned o 4 s with
        | .error e s => .error e s
        | .ok command s => handleEvents external command s
termination_by s.reader.len
decreasing_by
  have := forward_event o _ _ _ _ _h
  have := unsigned_len _h'
  omega

/-- `handleEvents` where the command is not known yet, when something follows the first message. -/
def trailing (external : Bool) : Poll Bool := fun s =>
  if s.reader.len = 0 then .ok true s
  else
    match unsigned o 4 s with
    | .error e s => .error e s
    | .ok command s => handleEvents o external command s

/-! ## The first message -/

/-- The fields of `messageInit`. -/
def init : Poll Unit := do
  let processIndex ← unsigned o 4
  assign fun api => { api with processIndex := processIndex }
  let processCount ← unsigned o 4
  assign fun api => { api with processCount := processCount }
  let processCountMax ← unsigned o 4
  assign fun api => { api with processCountMax := processCountMax }
  let processCountMin ← unsigned o 4
  assign fun api => { api with processCountMin := processCountMin }
  let namePrefix ← string o
  assign fun api => { api with namePrefix := namePrefix }
  let timeoutInitialize ← unsigned o 4
  assign fun api => { api with timeoutInitialize := timeoutInitialize }
  let timeoutAsync ← unsigned o 4
  assign fun api => { api with timeoutAsync := timeoutAsync }
  let timeoutSync ← unsigned o 4
  assign fun api => { api with timeoutSync := timeoutSync }
  let timeoutTerminate ← unsigned o 4
  assign fun api => { api with timeoutTerminate := timeoutTerminate }
  let priorityDefault ← signed o 1
  assign fun api => { api with priorityDefault := priorityDefault }
  let requestTimeoutAdjustment ← unsigned o 1
  assign fun api => { api with requestTimeoutAdjustment := requestTimeoutAdjustment != 0 }

variable (lib : Library)

/-- The fields of `messageSendAsync` and `messageSendSync`. The term of a process is not deeper than its bytes. -/
def request (command : Int) : Poll Call := do
  let name ← string o
  let pattern ← string o
  let requestInfo ← binary o
  let request ← binary o
  let timeout ← unsigned o 4
  let priority ← signed o 1
  let transId ← lift fun r => read r 16
  let pidSize ← unsigned o 4
  let pidBinary ← lift fun r => read r pidSize.toNat
  match binaryToTerm lib pidBinary.length pidBinary with
  | .ok pid => return ⟨command, name, pattern, requestInfo, request, timeout, priority, transId, pid⟩
  | .error e => throw (.codec e)

/-- The fields of `messageRecvAsync` and `messageReturnSync`. -/
def response : Poll (List UInt8 × List UInt8 × List UInt8) := do
  let responseInfo ← binary o
  let response ← binary o
  let transId ← lift fun r => read r 16
  return (responseInfo, response, transId)

/-- The loop of `messageReturnsAsync`. -/
def transIdsLoop : Nat → Poll (List (List UInt8))
  | 0 => return []
  | n + 1 => do
    let transId ← lift fun r => read r 16
    let transIds ← transIdsLoop n
    return transId :: transIds

/-- The type assertion on the process that a request is from. -/
def callback (call : Call) : Poll Unit :=
  match call.pid with
  | .otpErlangPid .. => assign fun api => { api with effects := api.effects ++ [.callback call] }
  | _ => throw (.codec (.panic "interface conversion"))

/-- One turn of the loop of `pollRequest`, on the data that was received: what it returns, or `none` when it goes on
to receive more data. -/
def pollMessage (external : Bool) : Poll (Option Bool) := do
  let command ← unsigned o 4
  if command = 1 then
    init o
    let _ ← trailing o external
    return some false
  else if command = 2 ∨ command = 3 then
    let call ← request o lib command
    let handled ← trailing o external
    if handled then
      callback call
      return none
    else
      return some false
  else if command = 4 ∨ command = 6 then
    let (responseInfo, response, transId) ← response o
    let _ ← trailing o external
    assign fun api => { api with responseInfo := responseInfo, response := response, transId := transId }
    return some false
  else if command = 5 then
    let transId ← lift fun r => read r 16
    let _ ← trailing o external
    assign fun api => { api with transId := transId }
    return some false
  else if command = 7 then
    let transIdCount ← unsigned o 4
    let transIds ← transIdsLoop transIdCount.toNat
    let _ ← trailing o external
    assign fun api => { api with transIds := transIds }
    return some false
  else if command = 10 then
    let subscribeCount ← unsigned o 4
    let _ ← trailing o external
    assign fun api => { api with subscribeCount := subscribeCount }
    return some false
  else if command = 11 then
    let _ ← handleEvents o external command
    return some false
  else if command = 9 then
    reinit o
    return none
  else if command = 8 then
    keepalive
    return none
  else
    throw .messageDecodingError

end

end CloudI.Api.Go
