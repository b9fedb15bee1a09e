import CloudI.Framework.Exn
import CloudI.Framework.Native

/-!
# The messages to an external service

What the dispatcher of an external service sends to the process it is for, one function for each kind of message
(`Message.out` has them all). The integers are in the native byte order of the machine, and cut to the bytes that
they have in the message. A name ends with a zero that its size has, a binary with one that its size does not have.
-/

namespace CloudI.Services.Protocol

/-- The identifier of a request, of 128 bits. -/
abbrev TransId := { l : List UInt8 // l.length = 16 }

/-- The process that a request is from. Its node is an atom. -/
structure Pid where
  node : List UInt8
  node_le : node.length ≤ 255
  id : UInt32
  serial : UInt32
  creation : UInt8

/-- `erlang:term_to_binary` of a process. -/
def Pid.termToBinary (p : Pid) : List UInt8 :=
  131 :: 103 :: 100 :: (be 2 p.node.length ++ (p.node ++ (be 4 p.id.toNat ++ (be 4 p.serial.toNat ++ [p.creation]))))

/-- The arguments of `init_out`. -/
structure Init where
  processIndex : Int
  processCount : Int
  processCountMax : Int
  processCountMin : Int
  namePrefix : List UInt8
  timeoutInit : Int
  timeoutAsync : Int
  timeoutSync : Int
  timeoutTerm : Int
  priorityDefault : Int
  requestTimeoutAdjustment : Bool

/-- The arguments of `reinit_out`. -/
structure Reinit where
  processCount : Int
  timeoutAsync : Int
  timeoutSync : Int
  priorityDefault : Int
  requestTimeoutAdjustment : Bool

/-- The arguments of `send_async_out` and `send_sync_out`. -/
structure Send where
  name : List UInt8
  pattern : List UInt8
  requestInfo : List UInt8
  request : List UInt8
  timeout : Int
  priority : Int
  transId : TransId
  source : Pid

section

variable (o : ByteOrder)

/-- A string as `erlang:list_to_binary` has it, after its size with the zero at its end. -/
def nameField (l : List UInt8) : List UInt8 := o.bytes 4 (l.length + 1 : Nat) ++ (l ++ [0])

/-- A binary after its size, and a zero. -/
def binaryField (l : List UInt8) : List UInt8 := o.bytes 4 l.length ++ (l ++ [0])

def booleanField (b : Bool) : List UInt8 := o.bytes 1 (if b then 1 else 0)

/-- The fields of an `init` message. -/
def initFields (m : Init) : List UInt8 :=
  o.bytes 4 m.processIndex ++ (o.bytes 4 m.processCount ++ (o.bytes 4 m.processCountMax ++
    (o.bytes 4 m.processCountMin ++ (nameField o m.namePrefix ++ (o.bytes 4 m.timeoutInit ++
      (o.bytes 4 m.timeoutAsync ++ (o.bytes 4 m.timeoutSync ++ (o.bytes 4 m.timeoutTerm ++
        (o.bytes 1 m.priorityDefault ++ booleanField o m.requestTimeoutAdjustment)))))))))

def initOut (m : Init) : Except Exn (List UInt8) :=
  if m.namePrefix = [] ∨ m.priorityDefault < -128 ∨ 127 < m.priorityDefault then .error .functionClause
  else if 4294967296 ≤ m.processCount ∨ 4294967296 ≤ m.processCountMax ∨ 4294967296 ≤ m.processCountMin ∨
    4294967296 ≤ m.namePrefix.length + 1 then .error .badmatch
  else .ok (o.bytes 4 1 ++ initFields o m)

/-- The fields of a `reinit` message. -/
def reinitFields (m : Reinit) : List UInt8 :=
  o.bytes 4 m.processCount ++ (o.bytes 4 m.timeoutAsync ++ (o.bytes 4 m.timeoutSync ++
    (o.bytes 1 m.priorityDefault ++ booleanField o m.requestTimeoutAdjustment)))

def reinitOut (m : Reinit) : Except Exn (List UInt8) :=
  if m.priorityDefault < -128 ∨ 127 < m.priorityDefault then .error .functionClause
  else if 4294967296 ≤ m.processCount then .error .badmatch
  else .ok (o.bytes 4 9 ++ reinitFields o m)

def terminateOut : List UInt8 := o.bytes 4 11

def keepaliveOut : List UInt8 := o.bytes 4 8

/-- The fields of a request. -/
def sendFields (m : Send) : List UInt8 :=
  nameField o m.name ++ (nameField o m.pattern ++ (binaryField o m.requestInfo ++ (binaryField o m.request ++
    (o.bytes 4 m.timeout ++ (o.bytes 1 m.priority ++ (m.transId.1 ++
      (o.bytes 4 m.source.termToBinary.length ++ m.source.termToBinary)))))))

/-- What `send_async_out` and `send_sync_out` have in common, with the number of the message. -/
def sendOut (message : Int) (m : Send) : Except Exn (List UInt8) :=
  if m.name = [] ∨ m.pattern = [] then .error .functionClause
  else if 4294967296 ≤ m.name.length + 1 ∨ 4294967296 ≤ m.pattern.length + 1 ∨
    4294967296 ≤ m.requestInfo.length ∨ 4294967296 ≤ m.request.length ∨
    4294967296 ≤ m.source.termToBinary.length then .error .badmatch
  else .ok (o.bytes 4 message ++ sendFields o m)

def sendAsyncOut (m : Send) : Except Exn (List UInt8) := sendOut o 2 m

def sendSyncOut (m : Send) : Except Exn (List UInt8) := sendOut o 3 m

/-- `0:128` in place of the identifier of a request. -/
def noTransId : TransId := ⟨List.replicate 16 0, List.length_replicate⟩

/-- `return_async_out/0` and `return_async_out/1`. -/
def returnAsyncOut (transId : Option TransId) : List UInt8 := o.bytes 4 5 ++ (transId.getD noTransId).1

/-- The fields of a response. -/
def responseFields (responseInfo response : List UInt8) (transId : TransId) : List UInt8 :=
  binaryField o responseInfo ++ (binaryField o response ++ transId.1)

/-- What `return_sync_out/3` and `recv_async_out/3` have in common, with the number of the message. -/
def responseOut (message : Int) (responseInfo response : List UInt8) (transId : TransId) : Except Exn (List UInt8) :=
  if 4294967296 ≤ responseInfo.length ∨ 4294967296 ≤ response.length then .error .badmatch
  else .ok (o.bytes 4 message ++ responseFields o responseInfo response transId)

/-- What `return_sync_out/0`, `return_sync_out/2` and `recv_async_out/2` have in common. -/
def timeoutOut (message : Int) (transId : TransId) : List UInt8 :=
  o.bytes 4 message ++ (o.bytes 4 0 ++ (o.bytes 1 0 ++ (o.bytes 4 0 ++ (o.bytes 1 0 ++ transId.1))))

/-- `return_sync_out/0` and `return_sync_out/2`. -/
def returnSyncTimeoutOut (transId : Option TransId) : List UInt8 := timeoutOut o 6 (transId.getD noTransId)

def returnSyncOut (responseInfo response : List UInt8) (transId : TransId) : Except Exn (List UInt8) :=
  responseOut o 6 responseInfo response transId

def returnsAsyncNoneOut : List UInt8 := o.bytes 4 7 ++ o.bytes 4 0

def returnsAsyncOut (transIds : List TransId) : Except Exn (List UInt8) :=
  if 4294967296 ≤ transIds.length then .error .badmatch
  else .ok (o.bytes 4 7 ++ (o.bytes 4 transIds.length ++ (transIds.map Subtype.val).flatten))

def recvAsyncTimeoutOut (transId : TransId) : List UInt8 := timeoutOut o 4 transId

def recvAsyncOut (responseInfo response : List UInt8) (transId : TransId) : Except Exn (List UInt8) :=
  responseOut o 4 responseInfo response transId

def subscribeCountOut (count : Int) : Except Exn (List UInt8) :=
  if count < 0 ∨ 4294967296 ≤ count then .error .functionClause else .ok (o.bytes 4 10 ++ o.bytes 4 count)

end

/-- A message with its arguments. -/
inductive Message where
  | init (m : Init)
  | reinit (m : Reinit)
  | sendAsync (m : Send)
  | sendSync (m : Send)
  | returnAsync (transId : Option TransId)
  | returnSyncTimeout (transId : Option TransId)
  | returnSync (responseInfo response : List UInt8) (transId : TransId)
  | returnsAsyncNone
  | returnsAsync (transIds : List TransId)
  | recvAsyncTimeout (transId : TransId)
  | recvAsync (responseInfo response : List UInt8) (transId : TransId)
  | subscribeCount (count : Int)

def Message.out (o : ByteOrder) : Message → Except Exn (List UInt8)
  | .init m => initOut o m
  | .reinit m => reinitOut o m
  | .sendAsync m => sendAsyncOut o m
  | .sendSync m => sendSyncOut o m
  | .returnAsync transId => .ok (returnAsyncOut o transId)
  | .returnSyncTimeout transId => .ok (returnSyncTimeoutOut o transId)
  | .returnSync responseInfo response transId => returnSyncOut o responseInfo response transId
  | .returnsAsyncNone => .ok (returnsAsyncNoneOut o)
  | .returnsAsync transIds => returnsAsyncOut o transIds
  | .recvAsyncTimeout transId => .ok (recvAsyncTimeoutOut o transId)
  | .recvAsync responseInfo response transId => recvAsyncOut o responseInfo response transId
  | .subscribeCount count => subscribeCountOut o count

/-- A message that can follow another one. -/
inductive Event where
  | reinit (m : Reinit)
  | keepalive
  | terminate

def Event.out (o : ByteOrder) : Event → Except Exn (List UInt8)
  | reinit m => reinitOut o m
  | keepalive => .ok (keepaliveOut o)
  | terminate => .ok (terminateOut o)

/-- The messages one after another. -/
def Event.outs (o : ByteOrder) : List Event → Except Exn (List UInt8)
  | [] => .ok []
  | e :: es => do
    let first ← e.out o
    let rest ← outs o es
    pure (first ++ rest)

/-- A binary that is empty is a size and a zero. -/
theorem timeoutOut_eq (o : ByteOrder) (message : Int) (transId : TransId) :
    timeoutOut o message transId = o.bytes 4 message ++ responseFields o [] [] transId := by
  have hzero : o.bytes 1 0 = [0] := by cases o <;> rfl
  simp only [timeoutOut, responseFields, binaryField, hzero, List.length_nil, List.nil_append, List.append_assoc]
  rfl

/-! ## What was sent -/

section

variable {o : ByteOrder} {data : List UInt8}

theorem initOut_ok {m : Init} (h : initOut o m = .ok data) :
    data = o.bytes 4 1 ++ initFields o m ∧ m.namePrefix.length + 1 < 4294967296 ∧
      -128 ≤ m.priorityDefault ∧ m.priorityDefault ≤ 127 := by
  unfold initOut at h
  split at h
  case isTrue => simp only [reduceCtorEq] at h
  split at h
  case isTrue => simp only [reduceCtorEq] at h
  exact ⟨(Except.ok.inj h).symm, by omega, by omega, by omega⟩

theorem reinitOut_ok {m : Reinit} (h : reinitOut o m = .ok data) :
    data = o.bytes 4 9 ++ reinitFields o m ∧ -128 ≤ m.priorityDefault ∧ m.priorityDefault ≤ 127 := by
  unfold reinitOut at h
  split at h
  case isTrue => simp only [reduceCtorEq] at h
  split at h
  case isTrue => simp only [reduceCtorEq] at h
  exact ⟨(Except.ok.inj h).symm, by omega, by omega⟩

/-- The sizes of a request fit in the message. -/
structure Send.Sized (m : Send) : Prop where
  name : m.name.length + 1 < 4294967296
  pattern : m.pattern.length + 1 < 4294967296
  requestInfo : m.requestInfo.length < 4294967296
  request : m.request.length < 4294967296
  source : m.source.termToBinary.length < 4294967296

theorem sendOut_ok {message : Int} {m : Send} (h : sendOut o message m = .ok data) :
    data = o.bytes 4 message ++ sendFields o m ∧ m.Sized := by
  unfold sendOut at h
  split at h
  case isTrue => simp only [reduceCtorEq] at h
  split at h
  case isTrue => simp only [reduceCtorEq] at h
  exact ⟨(Except.ok.inj h).symm, by omega, by omega, by omega, by omega, by omega⟩

theorem responseOut_ok {message : Int} {responseInfo response : List UInt8} {transId : TransId}
    (h : responseOut o message responseInfo response transId = .ok data) :
    data = o.bytes 4 message ++ responseFields o responseInfo response transId ∧
      responseInfo.length < 4294967296 ∧ response.length < 4294967296 := by
  unfold responseOut at h
  split at h
  case isTrue => simp only [reduceCtorEq] at h
  exact ⟨(Except.ok.inj h).symm, by omega, by omega⟩

theorem returnsAsyncOut_ok {transIds : List TransId} (h : returnsAsyncOut o transIds = .ok data) :
    data = o.bytes 4 7 ++ (o.bytes 4 transIds.length ++ (transIds.map Subtype.val).flatten) ∧
      transIds.length < 4294967296 := by
  unfold returnsAsyncOut at h
  split at h
  case isTrue => simp only [reduceCtorEq] at h
  exact ⟨(Except.ok.inj h).symm, by omega⟩

theorem subscribeCountOut_ok {count : Int} (h : subscribeCountOut o count = .ok data) :
    data = o.bytes 4 10 ++ o.bytes 4 count ∧ 0 ≤ count ∧ count < 4294967296 := by
  unfold subscribeCountOut at h
  split at h
  case isTrue => simp only [reduceCtorEq] at h
  exact ⟨(Except.ok.inj h).symm, by omega, by omega⟩

theorem Event.outs_nil {events : List Event} (h : Event.outs o events = .ok []) : events = [] := by
  cases events with
  | nil => rfl
  | cons e es =>
    obtain ⟨first, hfirst, h⟩ := bind_eq_ok h
    obtain ⟨rest, -, h⟩ := bind_eq_ok h
    have hlen := congrArg List.length (Except.ok.inj h)
    rw [List.length_append, List.length_nil] at hlen
    have hnumber : 4 ≤ first.length := by
      cases e with
      | reinit m =>
        rw [(reinitOut_ok hfirst).1, List.length_append, ByteOrder.length_bytes]
        omega
      | keepalive => rw [← Except.ok.inj hfirst, keepaliveOut, ByteOrder.length_bytes]
      | terminate => rw [← Except.ok.inj hfirst, terminateOut, ByteOrder.length_bytes]
    omega

theorem length_transIds (transIds : List TransId) :
    (transIds.map Subtype.val).flatten.length = 16 * transIds.length := by
  induction transIds with
  | nil => rfl
  | cons transId transIds ih =>
    rw [List.map_cons, List.flatten_cons, List.length_append, ih, transId.2, List.length_cons]
    omega

end

/-! ## What a message is for -/

/-- The fields that a message has for the process it is sent to. -/
inductive Content where
  | init (m : Init)
  | reinit (m : Reinit)
  | request (sync : Bool) (m : Send)
  | response (responseInfo response : List UInt8) (transId : TransId)
  | transId (transId : TransId)
  | transIds (transIds : List TransId)
  | count (count : Int)

def Message.content : Message → Content
  | .init m => .init m
  | .reinit m => .reinit m
  | .sendAsync m => .request false m
  | .sendSync m => .request true m
  | .returnAsync transId => .transId (transId.getD noTransId)
  | .returnSyncTimeout transId => .response [] [] (transId.getD noTransId)
  | .returnSync responseInfo response transId => .response responseInfo response transId
  | .returnsAsyncNone => .transIds []
  | .returnsAsync transIds => .transIds transIds
  | .recvAsyncTimeout transId => .response [] [] transId
  | .recvAsync responseInfo response transId => .response responseInfo response transId
  | .subscribeCount count => .count count

end CloudI.Services.Protocol
