import CloudI.Api.Python.Struct
import CloudI.Framework.Exn

/-!
# `__poll_request` of the Python API

What `__poll_request` does with the data that was received (`interpret`): the fields of the first message are
unpacked (`decode`), and the messages after it are left to `__handle_events`. The instance has what it sent and
the callbacks it called. The timer of `request_timeout_adjustment` is left out.
-/

namespace CloudI.Api.Python

structure OtpErlangPid where
  node : List UInt8
  id : List UInt8
  serial : List UInt8
  creation : List UInt8
deriving DecidableEq

/-- A callback, with its arguments. -/
structure Call where
  command : Int
  name : String
  pattern : String
  requestInfo : List UInt8
  request : List UInt8
  timeout : Int
  priority : Int
  transId : List UInt8
  pid : OtpErlangPid

inductive Effect where
  | keepalive
  | callback (call : Call)

/-- The attributes of an instance of `API` that messages set, and what it did. -/
structure API where
  processIndex : Int
  processCount : Int
  processCountMax : Int
  processCountMin : Int
  namePrefix : String
  timeoutInitialize : Int
  timeoutAsync : Int
  timeoutSync : Int
  timeoutTerminate : Int
  priorityDefault : Int
  requestTimeoutAdjustment : Bool
  terminate : Bool
  effects : List Effect

/-- What `__poll_request` returns, or `receive` when it goes on to receive more data. -/
inductive Next where
  | bool (b : Bool)
  | init (processIndex processCount processCountMax processCountMin : Int) (namePrefix : String)
      (fields : Int × Int × Int × Int) (priorityDefault : Int) (requestTimeoutAdjustment : Bool)
  | response (responseInfo response transId : List UInt8)
  | transId (transId : List UInt8)
  | transIds (transIds : List (List UInt8))
  | count (count : Int)
  | receive

/-! ## The first message -/

/-- The fields of a message that is no event, as they are unpacked. -/
inductive Fields where
  | init (processIndex processCount processCountMax processCountMin : Int) (namePrefix : List UInt8)
      (timeoutInitialize timeoutAsync timeoutSync timeoutTerminate priorityDefault requestTimeoutAdjustment : Int)
  | request (name pattern requestInfo request : List UInt8) (timeout priority : Int) (transId pid : List UInt8)
  | response (responseInfo response transId : List UInt8)
  | transId (transId : List UInt8)
  | transIds (transIds : List (List UInt8))
  | count (count : Int)

/-- The tuple that `b'16s' * trans_id_count` gives. -/
def transIdsOf : (n : Nat) → Values (List.replicate n (.s 16)) → List (List UInt8)
  | 0, _ => []
  | n + 1, (transId, transIds) => transId :: transIdsOf n transIds

section

variable (o : ByteOrder) (data : List UInt8)

def decodeInit (i : Nat) : Except Fault (Fields × Nat) := do
  let j := i + 20
  let (processIndex, processCount, processCountMax, processCountMin, prefixSize, _) ←
    unpack o [.I, .I, .I, .I, .I] (sliceTo data i j)
  let k := j + prefixSize.toNat + 18
  let (namePrefix, _, timeoutInitialize, timeoutAsync, timeoutSync, timeoutTerminate, priorityDefault,
      requestTimeoutAdjustment, _) ←
    unpack o [.s (prefixSize - 1), .c, .I, .I, .I, .I, .b, .B] (sliceTo data j k)
  pure (.init processIndex processCount processCountMax processCountMin namePrefix timeoutInitialize timeoutAsync
    timeoutSync timeoutTerminate priorityDefault requestTimeoutAdjustment, k)

def decodeSend (i : Nat) : Except Fault (Fields × Nat) := do
  let j := i + 4
  let (nameSize, _) ← unpack o [.I] (sliceTo data i j)
  let k := j + nameSize.toNat + 4
  let (name, _, patternSize, _) ← unpack o [.s (nameSize - 1), .c, .I] (sliceTo data j k)
  let l := k + patternSize.toNat + 4
  let (pattern, _, requestInfoSize, _) ← unpack o [.s (patternSize - 1), .c, .I] (sliceTo data k l)
  let m := l + requestInfoSize.toNat + 5
  let (requestInfo, _, requestSize, _) ← unpack o [.s requestInfoSize, .c, .I] (sliceTo data l m)
  let n := m + requestSize.toNat + 26
  let (request, _, timeout, priority, transId, pidSize, _) ←
    unpack o [.s requestSize, .c, .I, .b, .s 16, .I] (sliceTo data m n)
  let p := n + pidSize.toNat
  pure (.request name pattern requestInfo request timeout priority transId (sliceTo data n p), p)

def decodeResponse (i : Nat) : Except Fault (Fields × Nat) := do
  let j := i + 4
  let (responseInfoSize, _) ← unpack o [.I] (sliceTo data i j)
  let k := j + responseInfoSize.toNat + 5
  let (responseInfo, _, responseSize, _) ← unpack o [.s responseInfoSize, .c, .I] (sliceTo data j k)
  let l := k + responseSize.toNat + 17
  let (response, _, transId, _) ← unpack o [.s responseSize, .c, .s 16] (sliceTo data k l)
  pure (.response responseInfo response transId, l)

def decodeTransIds (i : Nat) : Except Fault (Fields × Nat) := do
  let j := i + 4
  let (transIdCount, _) ← unpack o [.I] (sliceTo data i j)
  let k := j + 16 * transIdCount.toNat
  let transIds ← unpack o (List.replicate transIdCount.toNat (.s 16)) (sliceTo data j k)
  pure (.transIds (transIdsOf _ transIds), k)

def decodeCount (i : Nat) : Except Fault (Fields × Nat) := do
  let j := i + 4
  let (count, _) ← unpack o [.I] (sliceTo data i j)
  pure (.count count, j)

/-- The fields of the message with this number that follow it from `i`, and where they end. -/
def decode (command : Int) (i : Nat) : Except Fault (Fields × Nat) :=
  if command = 1 then decodeInit o data i
  else if command = 2 ∨ command = 3 then decodeSend o data i
  else if command = 4 ∨ command = 6 then decodeResponse o data i
  else if command = 5 then .ok (.transId (sliceTo data i (i + 16)), i + 16)
  else if command = 7 then decodeTransIds o data i
  else if command = 10 then decodeCount o data i
  else .error .messageDecodingException

/-! ## Events -/

/-- `_MESSAGE_REINIT` and `_MESSAGE_KEEPALIVE`, with the position after the event. -/
def event (command : Int) (j : Nat) (api : API) : Except Fault (API × Nat) :=
  if command = 9 then do
    let (processCount, timeoutAsync, timeoutSync, priorityDefault, requestTimeoutAdjustment, _) ←
      unpack o [.I, .I, .I, .b, .B] (sliceTo data j (j + 14))
    pure ({ api with
      processCount := processCount
      timeoutAsync := timeoutAsync
      timeoutSync := timeoutSync
      priorityDefault := priorityDefault
      requestTimeoutAdjustment := requestTimeoutAdjustment != 0 }, j + 14)
  else if command = 8 then .ok ({ api with effects := api.effects ++ [.keepalive] }, j)
  else .error .messageDecodingException

/-- The position after an event is not before it. -/
theorem event_le {command : Int} {j k : Nat} {api api' : API} (h : event o data command j api = .ok (api', k)) :
    j ≤ k := by
  unfold event at h
  split at h
  · obtain ⟨vs, -, h⟩ := bind_eq_ok h
    rw [← (Prod.mk.inj (Except.ok.inj h)).2]
    omega
  · split at h
    · rw [← (Prod.mk.inj (Except.ok.inj h)).2]
    · simp only [reduceCtorEq] at h

/-- The loop of `__handle_events`, at the message with this number and the position after the number. -/
def handleEvents (external : Bool) (command : Int) (j : Nat) (api : API) : API × Except Fault Bool :=
  if command = 11 then
    ({ api with terminate := true }, if external then .ok false else .error (.terminateException api.timeoutTerminate))
  else
    match _h : event o data command j api with
    | .error e => (api, .error e)
    | .ok (api, k) =>
      if data.length < k then (api, .error .messageDecodingException)
      else if k = data.length then (api, .ok true)
      else
        match unpack o [.I] (sliceTo data k (k + 4)) with
        | .error e => (api, .error e)
        | .ok (command, _) => handleEvents external command (k + 4) api
termination_by data.length - j
decreasing_by
  have := event_le o data _h
  omega

/-- `__handle_events` where the command is not known yet. -/
def handleEventsFrom (external : Bool) (j : Nat) (api : API) : API × Except Fault Bool :=
  if data.length < j then (api, .error .messageDecodingException)
  else
    match unpack o [.I] (sliceTo data j (j + 4)) with
    | .error e => (api, .error e)
    | .ok (command, _) => handleEvents o data external command (j + 4) api

/-! ## The data that was received -/

/-- `binary_to_term` of a process whose node is an `ATOM_EXT`. Other terms are left out. -/
def binaryToTerm (data : List UInt8) : Except Fault OtpErlangPid :=
  if data.take 1 ≠ [131] ∨ (data.drop 1).take 2 ≠ [103, 100] then .error .parseException
  else if (sliceTo data 3 5).length ≠ 2 then .error .parseException
  else
    let i := 5 + ofBe (sliceTo data 3 5)
    if i + 9 ≠ data.length then .error .parseException
    else .ok ⟨sliceTo data 5 i, sliceTo data i (i + 4), sliceTo data (i + 4) (i + 8), sliceTo data (i + 8) (i + 9)⟩

/-- The arguments of the callback of a request. -/
def callOf (command : Int) (name pattern requestInfo request : List UInt8) (timeout priority : Int)
    (transId pid : List UInt8) : Except Fault Call := do
  let name ← decodeUtf8 name
  let pattern ← decodeUtf8 pattern
  let pid ← binaryToTerm pid
  pure ⟨command, name, pattern, requestInfo, request, timeout, priority, transId, pid⟩

/-- What follows the first message, which was asked for by the thread that waits (`external = False`) or is a
request (`external = True`). -/
def trailing (expected external : Bool) (j : Nat) (api : API) : API × Except Fault Bool :=
  if j = data.length then (api, .ok true)
  else if external != expected then (api, .error .assertionError)
  else handleEventsFrom o data external j api

/-- What is returned for the first message, after what follows it was handled. -/
def finish (command : Int) (api : API) : Fields → API × Except Fault Next
  | .init processIndex processCount processCountMax processCountMin namePrefix timeoutInitialize timeoutAsync
      timeoutSync timeoutTerminate priorityDefault requestTimeoutAdjustment =>
    (api, (decodeUtf8 namePrefix).map fun namePrefix =>
      .init processIndex processCount processCountMax processCountMin namePrefix
        (timeoutInitialize, timeoutSync, timeoutAsync, timeoutTerminate) priorityDefault
        (requestTimeoutAdjustment != 0))
  | .request name pattern requestInfo request timeout priority transId pid =>
    match callOf command name pattern requestInfo request timeout priority transId pid with
    | .error e => (api, .error e)
    | .ok call => ({ api with effects := api.effects ++ [.callback call] }, .ok .receive)
  | .response responseInfo response transId => (api, .ok (.response responseInfo response transId))
  | .transId transId => (api, .ok (.transId transId))
  | .transIds transIds => (api, .ok (.transIds transIds))
  | .count count => (api, .ok (.count count))

/-- The loop of `__poll_request` over the data that was received, at the message that begins at `i`. -/
def interpret (external : Bool) (i : Nat) (api : API) : API × Except Fault Next :=
  match unpack o [.I] (sliceTo data i (i + 4)) with
  | .error e => (api, .error e)
  | .ok (command, _) =>
    if command = 11 then
      match handleEvents o data external command (i + 4) api with
      | (api, .error e) => (api, .error e)
      | (api, .ok handled) => (api, if handled then .error .assertionError else .ok (.bool false))
    else if command = 8 ∨ command = 9 then
      match _h : event o data command (i + 4) api with
      | .error e => (api, .error e)
      | .ok (api, j) =>
        if j = data.length then (api, .ok .receive)
        else if j < data.length then interpret external j api
        else (api, .error .messageDecodingException)
    else
      match decode o data command (i + 4) with
      | .error e => (api, .error e)
      | .ok (fields, j) =>
        let request := command = 2 ∨ command = 3
        match trailing o data request external j api with
        | (api, .error e) => (api, .error e)
        | (api, .ok handled) => if request ∧ !handled then (api, .ok (.bool false)) else finish command api fields
termination_by data.length - i
decreasing_by
  have := event_le o data _h
  omega

/-- The attributes that `__init__` assigns from what `__poll_request` returned. -/
def assign (api : API) : Next → Option API
  | .init processIndex processCount processCountMax processCountMin namePrefix
      (timeoutInitialize, timeoutAsync, timeoutSync, timeoutTerminate) priorityDefault requestTimeoutAdjustment =>
    some { api with
      processIndex := processIndex
      processCount := processCount
      processCountMax := processCountMax
      processCountMin := processCountMin
      namePrefix := namePrefix
      timeoutInitialize := timeoutInitialize
      timeoutAsync := timeoutAsync
      timeoutSync := timeoutSync
      timeoutTerminate := timeoutTerminate
      priorityDefault := priorityDefault
      requestTimeoutAdjustment := requestTimeoutAdjustment }
  | _ => none

end

end CloudI.Api.Python
