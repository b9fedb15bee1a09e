import CloudI.Api.Python.Poll
import CloudI.Services.Protocol

/-!
# What the Python API makes of the messages of the dispatcher

Each message is decoded to its fields, and no byte after them is read (`decodeInit_at` and the others). The
integers are what was left of them in the message, and the names are decoded when they are UTF-8.
-/

namespace CloudI.Api.Python

open Slices (At)
open Services.Protocol

variable {o : ByteOrder} {data rest : List UInt8} {i : Nat}

theorem size_eq {n : Nat} (h : n < 4294967296) : (n : Int) % 4294967296 = n := by omega

theorem boolean_eq (b : Bool) : ((if b then 1 else 0) % 256 != (0 : Int)) = b := by
  cases b <;> rfl

/-- A name with its zero and the number that follows, after its size was read. -/
theorem unpack_name (l : List UInt8) (n : Int) :
    unpack o [.s ((l.length + 1 : Nat) - 1), .c, .I] (l ++ ([0] ++ o.bytes 4 n)) =
      .ok (l, [0], n % 4294967296, ()) := by
  have hsize : (((l.length + 1 : Nat) : Int) - 1) = l.length := by omega
  rw [hsize]
  exact unpack_s (unpack_c (unpack_number n) 0) l

/-- A binary with its zero and the number that follows, after its size was read. -/
theorem unpack_binary (l : List UInt8) (n : Int) :
    unpack o [.s l.length, .c, .I] (l ++ ([0] ++ o.bytes 4 n)) = .ok (l, [0], n % 4294967296, ()) :=
  unpack_s (unpack_c (unpack_number n) 0) l

theorem decodeInit_at (m : Init) (hsize : m.namePrefix.length + 1 < 4294967296)
    (h : At data i (initFields o m ++ rest)) :
    ∃ j, At data j rest ∧ decodeInit o data i = .ok (.init (m.processIndex % 4294967296)
      (m.processCount % 4294967296) (m.processCountMax % 4294967296) (m.processCountMin % 4294967296) m.namePrefix
      (m.timeoutInit % 4294967296) (m.timeoutAsync % 4294967296) (m.timeoutSync % 4294967296)
      (m.timeoutTerm % 4294967296) (o.signed (o.bytes 1 m.priorityDefault))
      ((if m.requestTimeoutAdjustment then 1 else 0) % 256), j) := by
  have hcounts : At data i ((o.bytes 4 m.processIndex ++ (o.bytes 4 m.processCount ++ (o.bytes 4 m.processCountMax ++
      (o.bytes 4 m.processCountMin ++ o.bytes 4 (m.namePrefix.length + 1 : Nat))))) ++ ((m.namePrefix ++ ([0] ++
        (o.bytes 4 m.timeoutInit ++ (o.bytes 4 m.timeoutAsync ++ (o.bytes 4 m.timeoutSync ++ (o.bytes 4 m.timeoutTerm ++
        (o.bytes 1 m.priorityDefault ++ booleanField o m.requestTimeoutAdjustment))))))) ++ rest)) := by
    simpa only [initFields, nameField, List.append_assoc] using h
  have hj : i + 20 = i + (o.bytes 4 m.processIndex ++ (o.bytes 4 m.processCount ++ (o.bytes 4 m.processCountMax ++
      (o.bytes 4 m.processCountMin ++ o.bytes 4 (m.namePrefix.length + 1 : Nat))))).length := by
    simp only [List.length_append, ByteOrder.length_bytes]
  have hfields := hcounts.next hj
  have hk : i + 20 + (m.namePrefix.length + 1) + 18 = i + 20 + (m.namePrefix ++ ([0] ++
        (o.bytes 4 m.timeoutInit ++ (o.bytes 4 m.timeoutAsync ++ (o.bytes 4 m.timeoutSync ++ (o.bytes 4 m.timeoutTerm ++
        (o.bytes 1 m.priorityDefault ++ booleanField o m.requestTimeoutAdjustment))))))).length := by
    simp only [List.length_append, ByteOrder.length_bytes, booleanField, List.length_singleton]
    omega
  refine ⟨_, hfields.next hk, ?_⟩
  have hname : (((m.namePrefix.length + 1 : Nat) : Int) - 1) = m.namePrefix.length := by omega
  have hlast : unpack o [.B] (booleanField o m.requestTimeoutAdjustment) =
      .ok ((if m.requestTimeoutAdjustment then 1 else 0) % 256, ()) := by
    rw [booleanField, ← List.append_nil (o.bytes 1 _), unpack_B unpack_nil]
  rw [decodeInit, sliceTo_at hcounts hj, unpack_I (unpack_I (unpack_I (unpack_I (unpack_number _) _) _) _) _,
      size_eq hsize]
  simp only [bind, Except.bind, Int.toNat_natCast]
  have hrest := unpack_I (unpack_I (unpack_I (unpack_I (unpack_b hlast m.priorityDefault) m.timeoutTerm)
    m.timeoutSync) m.timeoutAsync) m.timeoutInit
  rw [sliceTo_at hfields hk, hname, unpack_s (unpack_c hrest 0) m.namePrefix]
  rfl

theorem decodeSend_at (m : Send) (hsize : m.Sized) (h : At data i (sendFields o m ++ rest)) :
    ∃ j, At data j rest ∧ decodeSend o data i = .ok (.request m.name m.pattern m.requestInfo m.request
      (m.timeout % 4294967296) (o.signed (o.bytes 1 m.priority)) m.transId.1 m.source.termToBinary, j) := by
  -- the pieces that are unpacked
  have h0 : At data i (o.bytes 4 (m.name.length + 1 : Nat) ++
      ((m.name ++ ([0] ++ o.bytes 4 (m.pattern.length + 1 : Nat))) ++
      ((m.pattern ++ ([0] ++ o.bytes 4 m.requestInfo.length)) ++
      ((m.requestInfo ++ ([0] ++ o.bytes 4 m.request.length)) ++
      ((m.request ++ ([0] ++ (o.bytes 4 m.timeout ++ (o.bytes 1 m.priority ++
        (m.transId.1 ++ o.bytes 4 m.source.termToBinary.length))))) ++
      (m.source.termToBinary ++ rest)))))) := by
    simpa only [sendFields, nameField, binaryField, List.append_assoc] using h
  have hj : i + 4 = i + (o.bytes 4 (m.name.length + 1 : Nat)).length := by rw [ByteOrder.length_bytes]
  have h1 := h0.next hj
  have hk : i + 4 + (m.name.length + 1) + 4 =
      i + 4 + (m.name ++ ([0] ++ o.bytes 4 (m.pattern.length + 1 : Nat))).length := by
    simp only [List.length_append, ByteOrder.length_bytes, List.length_singleton]
    omega
  have h2 := h1.next hk
  have hl : i + 4 + (m.name.length + 1) + 4 + (m.pattern.length + 1) + 4 =
      i + 4 + (m.name.length + 1) + 4 + (m.pattern ++ ([0] ++ o.bytes 4 m.requestInfo.length)).length := by
    simp only [List.length_append, ByteOrder.length_bytes, List.length_singleton]
    omega
  have h3 := h2.next hl
  have hm : i + 4 + (m.name.length + 1) + 4 + (m.pattern.length + 1) + 4 + m.requestInfo.length + 5 =
      i + 4 + (m.name.length + 1) + 4 + (m.pattern.length + 1) + 4 +
        (m.requestInfo ++ ([0] ++ o.bytes 4 m.request.length)).length := by
    simp only [List.length_append, ByteOrder.length_bytes, List.length_singleton]
    omega
  have h4 := h3.next hm
  have hn : i + 4 + (m.name.length + 1) + 4 + (m.pattern.length + 1) + 4 + m.requestInfo.length + 5 +
      m.request.length + 26 =
      i + 4 + (m.name.length + 1) + 4 + (m.pattern.length + 1) + 4 + m.requestInfo.length + 5 +
        (m.request ++ ([0] ++ (o.bytes 4 m.timeout ++ (o.bytes 1 m.priority ++
          (m.transId.1 ++ o.bytes 4 m.source.termToBinary.length))))).length := by
    simp only [List.length_append, ByteOrder.length_bytes, List.length_singleton, m.transId.2]
    omega
  have h5 := h4.next hn
  refine ⟨_, h5.next rfl, ?_⟩
  have hlast : unpack o [.s 16, .I] (m.transId.1 ++ o.bytes 4 m.source.termToBinary.length) =
      .ok (m.transId.1, m.source.termToBinary.length, ()) := by
    rw [unpack_cons (f := .s 16) rfl m.transId.2 (unpack_number _), size_eq hsize.source]
    rfl
  rw [decodeSend, sliceTo_at h0 hj, unpack_number, size_eq hsize.name]
  simp only [bind, Except.bind, Int.toNat_natCast]
  rw [sliceTo_at h1 hk, unpack_name, size_eq hsize.pattern]
  simp only [Int.toNat_natCast]
  rw [sliceTo_at h2 hl, unpack_name, size_eq hsize.requestInfo]
  simp only [Int.toNat_natCast]
  rw [sliceTo_at h3 hm, unpack_binary, size_eq hsize.request]
  simp only [Int.toNat_natCast]
  rw [sliceTo_at h4 hn, unpack_s (unpack_c (unpack_I (unpack_b hlast _) _) _) _]
  simp only [Int.toNat_natCast]
  rw [sliceTo_at h5 rfl]
  rfl

theorem decodeResponse_at (responseInfo response : List UInt8) (transId : TransId)
    (hinfo : responseInfo.length < 4294967296) (hresponse : response.length < 4294967296)
    (h : At data i (responseFields o responseInfo response transId ++ rest)) :
    ∃ j, At data j rest ∧ decodeResponse o data i = .ok (.response responseInfo response transId.1, j) := by
  have h0 : At data i (o.bytes 4 responseInfo.length ++ ((responseInfo ++ ([0] ++ o.bytes 4 response.length)) ++
      ((response ++ ([0] ++ transId.1)) ++ rest))) := by
    simpa only [responseFields, binaryField, List.append_assoc] using h
  have hj : i + 4 = i + (o.bytes 4 responseInfo.length).length := by rw [ByteOrder.length_bytes]
  have h1 := h0.next hj
  have hk : i + 4 + responseInfo.length + 5 = i + 4 + (responseInfo ++ ([0] ++ o.bytes 4 response.length)).length := by
    simp only [List.length_append, ByteOrder.length_bytes, List.length_singleton]
    omega
  have h2 := h1.next hk
  have hl : i + 4 + responseInfo.length + 5 + response.length + 17 =
      i + 4 + responseInfo.length + 5 + (response ++ ([0] ++ transId.1)).length := by
    simp only [List.length_append, List.length_singleton, transId.2]
    omega
  refine ⟨_, h2.next hl, ?_⟩
  have hlast : unpack o [.s 16] transId.1 = .ok (transId.1, ()) := by
    conv_lhs => rw [← List.append_nil transId.1]
    exact unpack_cons (f := .s 16) rfl transId.2 unpack_nil
  rw [decodeResponse, sliceTo_at h0 hj, unpack_number, size_eq hinfo]
  simp only [bind, Except.bind, Int.toNat_natCast]
  rw [sliceTo_at h1 hk, unpack_binary, size_eq hresponse]
  simp only [Int.toNat_natCast]
  rw [sliceTo_at h2 hl, unpack_s (unpack_c hlast _) _]
  rfl

theorem unpack_transIds (transIds : List TransId) :
    ∃ vs, unpack o (List.replicate transIds.length (.s 16)) (transIds.map Subtype.val).flatten = .ok vs ∧
      transIdsOf transIds.length vs = transIds.map Subtype.val := by
  induction transIds with
  | nil => exact ⟨(), rfl, rfl⟩
  | cons transId transIds ih =>
    obtain ⟨vs, hvs, hids⟩ := ih
    refine ⟨(transId.1, vs), unpack_cons (f := .s 16) rfl transId.2 hvs, ?_⟩
    rw [List.map_cons, ← hids]
    rfl

theorem decodeTransIds_at (transIds : List TransId) (hcount : transIds.length < 4294967296)
    (h : At data i (o.bytes 4 transIds.length ++ ((transIds.map Subtype.val).flatten ++ rest))) :
    ∃ j, At data j rest ∧ decodeTransIds o data i = .ok (.transIds (transIds.map Subtype.val), j) := by
  have hj : i + 4 = i + (o.bytes 4 transIds.length).length := by rw [ByteOrder.length_bytes]
  have h1 := h.next hj
  have hk : i + 4 + 16 * transIds.length = i + 4 + (transIds.map Subtype.val).flatten.length := by
    rw [length_transIds]
  refine ⟨_, h1.next hk, ?_⟩
  obtain ⟨vs, hvs, hids⟩ := unpack_transIds (o := o) transIds
  rw [decodeTransIds, sliceTo_at h hj, unpack_number, size_eq hcount]
  simp only [bind, Except.bind, Int.toNat_natCast]
  rw [sliceTo_at h1 hk, hvs]
  simp only [hids, pure, Except.pure]

theorem decodeCount_at (n : Int) (h : At data i (o.bytes 4 n ++ rest)) :
    ∃ j, At data j rest ∧ decodeCount o data i = .ok (.count (n % 4294967296), j) := by
  have hj : i + 4 = i + (o.bytes 4 n).length := by rw [ByteOrder.length_bytes]
  refine ⟨_, h.next hj, ?_⟩
  rw [decodeCount, sliceTo_at h hj, unpack_number]
  rfl

/-- The attributes after a `reinit` message. -/
def reinitialized (o : ByteOrder) (m : Reinit) (api : API) : API :=
  { api with
    processCount := m.processCount % 4294967296
    timeoutAsync := m.timeoutAsync % 4294967296
    timeoutSync := m.timeoutSync % 4294967296
    priorityDefault := o.signed (o.bytes 1 m.priorityDefault)
    requestTimeoutAdjustment := m.requestTimeoutAdjustment }

theorem event_reinit (m : Reinit) (api : API) (h : At data i (reinitFields o m ++ rest)) :
    At data (i + 14) rest ∧ event o data 9 i api = .ok (reinitialized o m api, i + 14) := by
  have h0 : At data i ((o.bytes 4 m.processCount ++ (o.bytes 4 m.timeoutAsync ++ (o.bytes 4 m.timeoutSync ++
      (o.bytes 1 m.priorityDefault ++ booleanField o m.requestTimeoutAdjustment)))) ++ rest) := h
  have hj : i + 14 = i + (o.bytes 4 m.processCount ++ (o.bytes 4 m.timeoutAsync ++ (o.bytes 4 m.timeoutSync ++
      (o.bytes 1 m.priorityDefault ++ booleanField o m.requestTimeoutAdjustment)))).length := by
    simp only [List.length_append, ByteOrder.length_bytes, booleanField]
  refine ⟨h0.next hj, ?_⟩
  have hlast : unpack o [.B] (booleanField o m.requestTimeoutAdjustment) =
      .ok ((if m.requestTimeoutAdjustment then 1 else 0) % 256, ()) := by
    rw [booleanField, ← List.append_nil (o.bytes 1 _), unpack_B unpack_nil]
  rw [event, if_pos rfl, sliceTo_at h0 hj, unpack_I (unpack_I (unpack_I (unpack_b hlast _) _) _) _]
  simp only [bind, Except.bind, pure, Except.pure, boolean_eq, reinitialized]

/-! ## A process -/

/-- The process as the API has it. -/
def otpErlangPid (p : Pid) : OtpErlangPid := ⟨p.node, be 4 p.id.toNat, be 4 p.serial.toNat, [p.creation]⟩

theorem binaryToTerm_termToBinary (p : Pid) : binaryToTerm p.termToBinary = .ok (otpErlangPid p) := by
  have hlen : p.termToBinary.length = 5 + p.node.length + 9 := by
    simp only [Pid.termToBinary, List.length_cons, List.length_append, length_be, List.length_nil]
    omega
  have h0 : At p.termToBinary 3 (be 2 p.node.length ++ (p.node ++ (be 4 p.id.toNat ++ (be 4 p.serial.toNat ++
      ([p.creation] ++ []))))) := ⟨by omega, rfl⟩
  have hsize : sliceTo p.termToBinary 3 5 = be 2 p.node.length := sliceTo_at h0 (by rw [length_be])
  have h1 := h0.next (j := 5) (by rw [length_be])
  have h2 := h1.next rfl
  have h3 := h2.next (j := 5 + p.node.length + 4) (by rw [length_be])
  have h4 := h3.next (j := 5 + p.node.length + 8) (by rw [length_be])
  have hcreation : sliceTo p.termToBinary (5 + p.node.length + 8) (5 + p.node.length + 9) = [p.creation] :=
      sliceTo_at h4 rfl
  have hnode : ofBe (be 2 p.node.length) = p.node.length := ofBe_be_of_lt (Nat.lt_of_le_of_lt p.node_le (by decide))
  rw [binaryToTerm, if_neg (by simp [Pid.termToBinary]), hsize, if_neg (by rw [length_be]; decide), hnode]
  simp only
  rw [if_neg (by rw [hlen]; omega), sliceTo_at h1 rfl, sliceTo_at h2 (by rw [length_be]),
      sliceTo_at h3 (by rw [length_be]),
    hcreation, otpErlangPid]

/-! ## What is returned and stored -/

def Utf8 (l : List UInt8) : Prop := ByteArray.IsValidUTF8 ⟨l.toArray⟩

theorem decodeUtf8_ok {l : List UInt8} (h : Utf8 l) : ∃ s, decodeUtf8 l = .ok s ∧ s.toUTF8 = ⟨l.toArray⟩ := by
  have hvalid : ByteArray.IsValidUTF8 ⟨l.toArray⟩ := h
  refine ⟨String.fromUTF8 ⟨l.toArray⟩ hvalid, ?_, rfl⟩
  rw [decodeUtf8, String.fromUTF8?, dif_pos hvalid]

theorem decodeUtf8_error {l : List UInt8} (h : ¬Utf8 l) : decodeUtf8 l = .error .unicodeDecodeError := by
  have hvalid : ¬ByteArray.IsValidUTF8 ⟨l.toArray⟩ := h
  rw [decodeUtf8, String.fromUTF8?, dif_neg hvalid]

/-- The attributes that are initialized have the values of the message. -/
structure Initialized (m : Init) (api : API) : Prop where
  processIndex : api.processIndex = m.processIndex
  processCount : api.processCount = m.processCount
  processCountMax : api.processCountMax = m.processCountMax
  processCountMin : api.processCountMin = m.processCountMin
  namePrefix : api.namePrefix.toUTF8 = ⟨m.namePrefix.toArray⟩
  timeoutInitialize : api.timeoutInitialize = m.timeoutInit
  timeoutAsync : api.timeoutAsync = m.timeoutAsync
  timeoutSync : api.timeoutSync = m.timeoutSync
  timeoutTerminate : api.timeoutTerminate = m.timeoutTerm
  priorityDefault : api.priorityDefault = m.priorityDefault
  requestTimeoutAdjustment : api.requestTimeoutAdjustment = m.requestTimeoutAdjustment

/-- The arguments of a callback have the values of the request. -/
structure Called (command : Int) (m : Send) (call : Call) : Prop where
  command : call.command = command
  name : call.name.toUTF8 = ⟨m.name.toArray⟩
  pattern : call.pattern.toUTF8 = ⟨m.pattern.toArray⟩
  requestInfo : call.requestInfo = m.requestInfo
  request : call.request = m.request
  timeout : call.timeout = m.timeout
  priority : call.priority = m.priority
  transId : call.transId = m.transId.1
  pid : call.pid = otpErlangPid m.source

/-- What `__poll_request` does with a message on its own: each field is stored or returned with its value. -/
def Received (api : API) (r : API × Except Fault Next) : Content → Prop
  | .init m => ∃ next api', r = (api, .ok next) ∧ assign api next = some api' ∧ Initialized m api'
  | .reinit m => r = ({ api with
      processCount := m.processCount
      timeoutAsync := m.timeoutAsync
      timeoutSync := m.timeoutSync
      priorityDefault := m.priorityDefault
      requestTimeoutAdjustment := m.requestTimeoutAdjustment }, .ok .receive)
  | .request sync m => ∃ call, r = ({ api with effects := api.effects ++ [.callback call] }, .ok .receive) ∧
      Called (if sync then 3 else 2) m call
  | .response responseInfo response transId => r = (api, .ok (.response responseInfo response transId.1))
  | .transId transId => r = (api, .ok (.transId transId.1))
  | .transIds transIds => r = (api, .ok (.transIds (transIds.map Subtype.val)))
  | .count count => r = (api, .ok (.count count))

/-- A number of 32 bits. -/
def Unsigned32 (n : Int) : Prop := 0 ≤ n ∧ n < 4294967296

/-- The values that a message has room for, the names that Python decodes, and no difference between the two
timeouts of an `init` message. -/
def Exact : Content → Prop
  | .init m => Unsigned32 m.processIndex ∧ Unsigned32 m.processCount ∧ Unsigned32 m.processCountMax ∧
      Unsigned32 m.processCountMin ∧ Utf8 m.namePrefix ∧ Unsigned32 m.timeoutInit ∧ Unsigned32 m.timeoutAsync ∧
      Unsigned32 m.timeoutSync ∧ Unsigned32 m.timeoutTerm ∧ m.timeoutAsync = m.timeoutSync
  | .reinit m => Unsigned32 m.processCount ∧ Unsigned32 m.timeoutAsync ∧ Unsigned32 m.timeoutSync
  | .request _ m => Utf8 m.name ∧ Utf8 m.pattern ∧ Unsigned32 m.timeout ∧ -128 ≤ m.priority ∧ m.priority ≤ 127
  | _ => True

theorem mod_eq_iff {n : Int} : n % 4294967296 = n ↔ Unsigned32 n := by
  rw [Unsigned32]
  omega

/-! ## One message -/

theorem interpret_fields {n : Int} {body : List UInt8} {fields : Fields} {j : Nat} {external : Bool} {api : API}
    (h : At data 0 (o.bytes 4 n ++ body)) (hn : n % 4294967296 = n) (hevent : n ≠ 8 ∧ n ≠ 9 ∧ n ≠ 11)
    (hend : At data j []) (hd : decode o data n 4 = .ok (fields, j)) :
    interpret o data external 0 api = finish n api fields := by
  have hj : j = data.length := by rw [hend.length]; rfl
  have hslice : sliceTo data 0 (0 + 4) = o.bytes 4 n := sliceTo_at h (by rw [ByteOrder.length_bytes])
  rw [interpret.eq_def, hslice, unpack_number, hn]
  simp only
  rw [if_neg hevent.2.2, if_neg (not_or.mpr ⟨hevent.1, hevent.2.1⟩), Nat.zero_add, hd]
  simp only [trailing, hj, if_true, Bool.not_true, Bool.false_eq_true, and_false, if_false]

theorem interpret_event {n : Int} {j : Nat} {external : Bool} {api api' : API} (h : At data i (o.bytes 4 n ++ rest))
    (hn : n = 8 ∨ n = 9) (hd : event o data n (i + 4) api = .ok (api', j)) :
    interpret o data external i api = if j = data.length then (api', .ok .receive)
      else if j < data.length then interpret o data external j api' else (api', .error .messageDecodingException) := by
  have hslice : sliceTo data i (i + 4) = o.bytes 4 n := sliceTo_at h (by rw [ByteOrder.length_bytes])
  have hmod : n % 4294967296 = n := by omega
  rw [interpret.eq_def, hslice, unpack_number, hmod]
  simp only
  rw [if_neg (by rintro rfl; revert hn; decide), if_pos hn]
  split
  case h_1 e he => rw [hd] at he; cases he
  case h_2 a k he =>
    obtain ⟨rfl, rfl⟩ := Prod.mk.inj (Except.ok.inj (hd.symm.trans he))
    rfl

/-- The fields of a message are after its number. -/
theorem at_fields {n : Int} {body : List UInt8} (h : data = o.bytes 4 n ++ body) :
    At data 0 (o.bytes 4 n ++ body) ∧ At data 4 (body ++ []) := by
  subst h
  have h0 := At.start (o.bytes 4 n ++ body)
  refine ⟨h0, ?_⟩
  rw [List.append_nil]
  exact h0.next (by rw [ByteOrder.length_bytes])

theorem received_init {m : Init} (api : API) (external : Bool) (hm : initOut o m = .ok data) :
    Received api (interpret o data external 0 api) (.init m) ↔ Exact (.init m) := by
  obtain ⟨hdata, hsize, hlow, hhigh⟩ := initOut_ok hm
  obtain ⟨h0, h4⟩ := at_fields hdata
  obtain ⟨j, hend, hd⟩ := decodeInit_at m hsize h4
  rw [interpret_fields h0 (by decide) (by decide) hend hd, finish, boolean_eq,
    o.signed_byte_eq_iff.mpr ⟨hlow, hhigh⟩]
  by_cases hutf : Utf8 m.namePrefix
  · obtain ⟨s, hs, hbytes⟩ := decodeUtf8_ok hutf
    rw [hs]
    constructor
    · rintro ⟨next, api', hr, hassign, hinit⟩
      obtain rfl := Except.ok.inj (Prod.mk.inj hr).2
      obtain rfl := Option.some.inj hassign
      have hasync : m.timeoutSync % 4294967296 = m.timeoutAsync := hinit.timeoutAsync
      have hsync : m.timeoutAsync % 4294967296 = m.timeoutSync := hinit.timeoutSync
      refine ⟨mod_eq_iff.mp hinit.processIndex, mod_eq_iff.mp hinit.processCount, mod_eq_iff.mp hinit.processCountMax,
        mod_eq_iff.mp hinit.processCountMin, hutf, mod_eq_iff.mp hinit.timeoutInitialize, ?_, ?_,
        mod_eq_iff.mp hinit.timeoutTerminate, ?_⟩
      · rw [Unsigned32]; omega
      · rw [Unsigned32]; omega
      · omega
    · rintro ⟨hindex, hcount, hmax, hmin, -, htimeout, hasync, hsync, hterm, heq⟩
      refine ⟨_, _, rfl, rfl, ?_⟩
      exact {
        processIndex := mod_eq_iff.mpr hindex
        processCount := mod_eq_iff.mpr hcount
        processCountMax := mod_eq_iff.mpr hmax
        processCountMin := mod_eq_iff.mpr hmin
        namePrefix := hbytes
        timeoutInitialize := mod_eq_iff.mpr htimeout
        timeoutAsync := (mod_eq_iff.mpr hsync).trans heq.symm
        timeoutSync := (mod_eq_iff.mpr hasync).trans heq
        timeoutTerminate := mod_eq_iff.mpr hterm
        priorityDefault := rfl
        requestTimeoutAdjustment := rfl }
  · rw [decodeUtf8_error hutf]
    constructor
    · rintro ⟨next, api', hr, -⟩
      exact absurd (Prod.mk.inj hr).2 (by simp only [Except.map, reduceCtorEq, not_false_eq_true])
    · exact fun h => absurd h.2.2.2.2.1 hutf

theorem received_reinit {m : Reinit} (api : API) (external : Bool) (hm : reinitOut o m = .ok data) :
    Received api (interpret o data external 0 api) (.reinit m) ↔ Exact (.reinit m) := by
  obtain ⟨hdata, hlow, hhigh⟩ := reinitOut_ok hm
  obtain ⟨h0, h4⟩ := at_fields hdata
  obtain ⟨hend, hd⟩ := event_reinit m api h4
  have hlen : 4 + 14 = data.length := by rw [hend.length]; rfl
  rw [interpret_event h0 (.inr rfl) hd, if_pos hlen, Received, reinitialized, o.signed_byte_eq_iff.mpr ⟨hlow, hhigh⟩]
  constructor
  · intro h
    have hapi := (Prod.mk.inj h).1
    exact ⟨mod_eq_iff.mp (congrArg API.processCount hapi), mod_eq_iff.mp (congrArg API.timeoutAsync hapi),
      mod_eq_iff.mp (congrArg API.timeoutSync hapi)⟩
  · rintro ⟨hcount, hasync, hsync⟩
    rw [mod_eq_iff.mpr hcount, mod_eq_iff.mpr hasync, mod_eq_iff.mpr hsync]

theorem received_request {sync : Bool} {m : Send} (api : API) (external : Bool)
    (hm : sendOut o (if sync then 3 else 2) m = .ok data) :
    Received api (interpret o data external 0 api) (.request sync m) ↔ Exact (.request sync m) := by
  obtain ⟨hdata, hsize⟩ := sendOut_ok hm
  obtain ⟨h0, h4⟩ := at_fields hdata
  obtain ⟨j, hend, hd⟩ := decodeSend_at m hsize h4
  have hdecode : decode o data (if sync then 3 else 2) 4 = decodeSend o data 4 := by
    cases sync <;> rfl
  rw [interpret_fields h0 (by cases sync <;> rfl) (by cases sync <;> decide) hend (hdecode.trans hd), finish]
  by_cases hutf : Utf8 m.name ∧ Utf8 m.pattern
  · obtain ⟨name, hname, hnamebytes⟩ := decodeUtf8_ok hutf.1
    obtain ⟨pattern, hpattern, hpatternbytes⟩ := decodeUtf8_ok hutf.2
    have hcall : callOf (if sync then 3 else 2) m.name m.pattern m.requestInfo m.request (m.timeout % 4294967296)
        (o.signed (o.bytes 1 m.priority)) m.transId.1 m.source.termToBinary =
        .ok ⟨if sync then 3 else 2, name, pattern, m.requestInfo, m.request, m.timeout % 4294967296,
          o.signed (o.bytes 1 m.priority), m.transId.1, otpErlangPid m.source⟩ := by
      rw [callOf, hname, hpattern, binaryToTerm_termToBinary]
      rfl
    rw [hcall]
    constructor
    · rintro ⟨call, hr, hcalled⟩
      have heffects := congrArg API.effects (Prod.mk.inj hr).1
      obtain rfl : _ = call := by simpa only [List.append_cancel_left_eq, List.cons.injEq, Effect.callback.injEq,
        and_true] using heffects
      exact ⟨hutf.1, hutf.2, mod_eq_iff.mp hcalled.timeout, o.signed_byte_eq_iff.mp hcalled.priority⟩
    · rintro ⟨-, -, htimeout, hpriority⟩
      refine ⟨_, rfl, ?_⟩
      exact {
        command := rfl
        name := hnamebytes
        pattern := hpatternbytes
        requestInfo := rfl
        request := rfl
        timeout := mod_eq_iff.mpr htimeout
        priority := o.signed_byte_eq_iff.mpr hpriority
        transId := rfl
        pid := rfl }
  · have hcall : callOf (if sync then 3 else 2) m.name m.pattern m.requestInfo m.request (m.timeout % 4294967296)
        (o.signed (o.bytes 1 m.priority)) m.transId.1 m.source.termToBinary = .error .unicodeDecodeError := by
      rw [callOf]
      by_cases hname : Utf8 m.name
      · obtain ⟨name, hs, -⟩ := decodeUtf8_ok hname
        rw [hs, decodeUtf8_error fun h => hutf ⟨hname, h⟩]
        rfl
      · rw [decodeUtf8_error hname]
        rfl
    rw [hcall]
    constructor
    · rintro ⟨call, hr, -⟩
      exact absurd (Prod.mk.inj hr).2 (by simp only [reduceCtorEq, not_false_eq_true])
    · exact fun h => absurd ⟨h.1, h.2.1⟩ hutf

theorem received_response {n : Int} (hn : n = 4 ∨ n = 6) {responseInfo response : List UInt8} {transId : TransId}
    (api : API) (external : Bool) (hdata : data = o.bytes 4 n ++ responseFields o responseInfo response transId)
    (hinfo : responseInfo.length < 4294967296) (hresponse : response.length < 4294967296) :
    Received api (interpret o data external 0 api) (.response responseInfo response transId) := by
  obtain ⟨h0, h4⟩ := at_fields hdata
  obtain ⟨j, hend, hd⟩ := decodeResponse_at responseInfo response transId hinfo hresponse h4
  have hdecode : decode o data n 4 = decodeResponse o data 4 := by
    rcases hn with rfl | rfl <;> rfl
  exact interpret_fields h0 (by omega) (by omega) hend (hdecode.trans hd)

theorem received_transId {transId : TransId} (api : API) (external : Bool)
    (hdata : data = o.bytes 4 5 ++ transId.1) :
    Received api (interpret o data external 0 api) (.transId transId) := by
  obtain ⟨h0, h4⟩ := at_fields hdata
  have hd : decode o data 5 4 = .ok (.transId transId.1, 4 + 16) := by
    rw [← sliceTo_at h4 (j := 4 + 16) (by rw [transId.2])]
    rfl
  exact interpret_fields h0 (by decide) (by decide) (h4.next (by rw [transId.2])) hd

theorem received_transIds {transIds : List TransId} (api : API) (external : Bool)
    (hdata : data = o.bytes 4 7 ++ (o.bytes 4 transIds.length ++ (transIds.map Subtype.val).flatten))
    (hcount : transIds.length < 4294967296) :
    Received api (interpret o data external 0 api) (.transIds transIds) := by
  obtain ⟨h0, h4⟩ := at_fields hdata
  obtain ⟨j, hend, hd⟩ := decodeTransIds_at transIds hcount (by simpa only [List.append_assoc] using h4)
  exact interpret_fields h0 (by decide) (by decide) hend hd

theorem received_count {count : Int} (api : API) (external : Bool) (hdata : data = o.bytes 4 10 ++ o.bytes 4 count)
    (hlow : 0 ≤ count) (hhigh : count < 4294967296) :
    Received api (interpret o data external 0 api) (.count count) := by
  obtain ⟨h0, h4⟩ := at_fields hdata
  obtain ⟨j, hend, hd⟩ := decodeCount_at count h4
  rw [mod_eq_iff.mpr ⟨hlow, hhigh⟩] at hd
  exact interpret_fields h0 (by decide) (by decide) hend hd

/-- The API gets the fields of a message with their values exactly when they have room in the message, the names are
UTF-8, and the two timeouts of an `init` message are the same. -/
theorem received_iff (o : ByteOrder) (m : Message) (data : List UInt8) (external : Bool) (api : API)
    (h : m.out o = .ok data) : Received api (interpret o data external 0 api) m.content ↔ Exact m.content := by
  cases m with
  | init m => exact received_init api external h
  | reinit m => exact received_reinit api external h
  | sendAsync m => exact @received_request o data false m api external h
  | sendSync m => exact @received_request o data true m api external h
  | returnAsync transId => exact iff_of_true (received_transId api external (Except.ok.inj h).symm) trivial
  | returnSyncTimeout transId =>
    have hdata := (Except.ok.inj h).symm.trans (timeoutOut_eq o 6 _)
    exact iff_of_true (received_response (.inr rfl) api external hdata (by decide) (by decide)) trivial
  | returnSync responseInfo response transId =>
    obtain ⟨hdata, hinfo, hresponse⟩ := responseOut_ok h
    exact iff_of_true (received_response (.inr rfl) api external hdata hinfo hresponse) trivial
  | returnsAsyncNone =>
    have hdata := (Except.ok.inj h).symm
    have hnone : data = o.bytes 4 7 ++ (o.bytes 4 ([] : List TransId).length ++
        (([] : List TransId).map Subtype.val).flatten) := by
      rw [hdata, returnsAsyncNoneOut, List.map_nil, List.flatten_nil, List.append_nil]
      rfl
    exact iff_of_true (received_transIds api external hnone (by decide)) trivial
  | returnsAsync transIds =>
    obtain ⟨hdata, hcount⟩ := returnsAsyncOut_ok h
    exact iff_of_true (received_transIds api external hdata hcount) trivial
  | recvAsyncTimeout transId =>
    have hdata := (Except.ok.inj h).symm.trans (timeoutOut_eq o 4 _)
    exact iff_of_true (received_response (.inl rfl) api external hdata (by decide) (by decide)) trivial
  | recvAsync responseInfo response transId =>
    obtain ⟨hdata, hinfo, hresponse⟩ := responseOut_ok h
    exact iff_of_true (received_response (.inl rfl) api external hdata hinfo hresponse) trivial
  | subscribeCount count =>
    obtain ⟨hdata, hlow, hhigh⟩ := subscribeCountOut_ok h
    exact iff_of_true (received_count api external hdata hlow hhigh) trivial

/-- The `init` message of a service with one process, whose two timeouts are the same. -/
theorem received_iff_init :
    let m : Init := ⟨0, 1, 1, 1, [47], 5000, 5000, 5000, 1000, 0, false⟩
    (Message.init m).out .little = .ok (ByteOrder.little.bytes 4 1 ++ initFields .little m) ∧
      ∀ api, Received api (interpret .little (ByteOrder.little.bytes 4 1 ++ initFields .little m) false 0 api)
        (.init m) := by
  intro m
  have h : (Message.init m).out .little = .ok (ByteOrder.little.bytes 4 1 ++ initFields .little m) := rfl
  refine ⟨h, fun api => (received_iff .little (.init m) _ false api h).mpr ?_⟩
  simp only [Exact, Unsigned32, m, Utf8, Message.content]
  decide

/-- The timeout of asynchronous requests is stored as that of synchronous ones. -/
theorem received_init_swapped :
    let m : Init := ⟨0, 1, 1, 1, [47], 5000, 5000, 6000, 1000, 0, false⟩
    (Message.init m).out .little = .ok (ByteOrder.little.bytes 4 1 ++ initFields .little m) ∧
      ∀ api, ¬Received api (interpret .little (ByteOrder.little.bytes 4 1 ++ initFields .little m) false 0 api)
        (.init m) := by
  intro m
  have h : (Message.init m).out .little = .ok (ByteOrder.little.bytes 4 1 ++ initFields .little m) := rfl
  refine ⟨h, fun api hr => ?_⟩
  have heq : (5000 : Int) = 6000 := ((received_init api false h).mp hr).2.2.2.2.2.2.2.2.2
  exact absurd heq (by decide)

end CloudI.Api.Python
