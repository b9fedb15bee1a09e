import CloudI.Api.Go.External
import CloudI.Api.Go.Poll
import CloudI.Services.Protocol

/-!
# What the Go API makes of the messages of the dispatcher

`Runs` says what a part of `pollRequest` does with the bytes that are next: the value it gives, and how it changes
the instance. The parts are put together by `Runs.bind`, so that there is one lemma for each function.
-/

namespace CloudI.Api.Go

open Services.Protocol

/-- These bytes are next. -/
def Ahead (s : PollState) (bytes : List UInt8) : Prop := ∃ i, s.reader.Rest i bytes

/-- The part takes these bytes, gives the value and changes the instance. -/
def Runs {α : Type} (m : Poll α) (bytes : List UInt8) (a : α) (f : Instance → Instance) : Prop :=
  ∀ s rest, Ahead s (bytes ++ rest) → ∃ s', m s = .ok a s' ∧ Ahead s' rest ∧ s'.api = f s.api

namespace Runs

variable {α β : Type} {m : Poll α} {k : α → Poll β} {a : α} {b : β} {l bytes : List UInt8} {f g : Instance → Instance}

theorem pure (a : α) : Runs (Pure.pure a) [] a id := fun s _ h => ⟨s, rfl, h, rfl⟩

theorem assign (f : Instance → Instance) : Runs (Poll.assign f) [] () f := fun _ _ h => ⟨_, rfl, h, rfl⟩

theorem bind_run {s s' : PollState} (h : m s = .ok a s') (k : α → Poll β) : (m >>= k) s = k a s' := by
  show EStateM.bind m k s = k a s'
  rw [EStateM.bind, h]

theorem bind (hm : Runs m l a f) (hk : Runs (k a) bytes b g) : Runs (m >>= k) (l ++ bytes) b (g ∘ f) := by
  intro s rest h
  rw [List.append_assoc] at h
  obtain ⟨s', hs, h', hapi⟩ := hm s _ h
  obtain ⟨s'', hs', h'', hapi'⟩ := hk s' _ h'
  exact ⟨s'', (bind_run hs k).trans hs', h'', by rw [hapi', hapi]; rfl⟩

theorem congr (h : Runs m l a f) (hf : f = g) : Runs m l a g := hf ▸ h

/-- A step that only changes the instance or gives a value. -/
theorem next (hm : Runs m [] a f) (hk : Runs (k a) bytes b g) : Runs (m >>= k) bytes b (g ∘ f) := hm.bind hk

/-- The last step that takes bytes. -/
theorem last (hm : Runs m l a f) (hk : Runs (k a) [] b g) : Runs (m >>= k) l b (g ∘ f) := by
  rw [← List.append_nil l]
  exact hm.bind hk

theorem lift {read : Reader → Except Fault (α × Reader)}
    (h : ∀ r i bytes, r.Rest i (l ++ bytes) → read r = .ok (a, r.seek l.length)) : Runs (Poll.lift read) l a id := by
  rintro s rest ⟨i, hi⟩
  refine ⟨{ s with reader := s.reader.seek l.length }, ?_, ⟨_, hi.seek⟩, rfl⟩
  rw [Poll.lift, h _ _ _ hi]

end Runs

/-! ## Numbers and bytes -/

variable (o : ByteOrder)

theorem binaryReadNative_runs (hl : 0 < l.length) : Runs (Poll.lift (binaryReadNative l.length)) l l id :=
  Runs.lift fun r i bytes h => by
    have hlen := h.length
    have hpos := h.pos
    rw [List.length_append] at hlen
    rw [binaryReadNative, if_neg (by omega), if_neg (by omega), take_rest h]

theorem unsigned_runs (n : Int) : Runs (Poll.unsigned o 4) (o.bytes 4 n) (n % 4294967296) id := by
  have h := binaryReadNative_runs (l := o.bytes 4 n) (by rw [ByteOrder.length_bytes]; decide)
  rw [ByteOrder.length_bytes] at h
  have hn : o.unsigned (o.bytes 4 n) = n % 4294967296 := o.unsigned_bytes 4 n
  rw [← hn]
  apply Runs.congr
  · exact h.last (Runs.pure _)
  · rfl

theorem unsigned_byte_runs (b : Bool) : Runs (Poll.unsigned o 1) (booleanField o b) (if b then 1 else 0) id := by
  have h := binaryReadNative_runs (l := booleanField o b) (by rw [booleanField, ByteOrder.length_bytes]; decide)
  rw [booleanField, ByteOrder.length_bytes] at h
  have hn : o.unsigned (o.bytes 1 (if b then 1 else 0)) = if b then 1 else 0 := by
    rw [o.unsigned_bytes]
    cases b <;> rfl
  rw [← hn]
  apply Runs.congr
  · exact h.last (Runs.pure _)
  · rfl

theorem signed_runs (n : Int) : Runs (Poll.signed o 1) (o.bytes 1 n) (o.signed (o.bytes 1 n)) id := by
  have h := binaryReadNative_runs (l := o.bytes 1 n) (by rw [ByteOrder.length_bytes]; decide)
  rw [ByteOrder.length_bytes] at h
  apply Runs.congr
  · exact h.last (Runs.pure _)
  · rfl

theorem read_runs {l : List UInt8} {n : Nat} (hl : l.length = n) (hn : 0 < n) :
    Runs (Poll.lift fun r => read r n) l l id :=
  Runs.lift fun r i bytes h => by rw [read_ok_of_length h hl hn, hl]

/-- The bytes are followed by a zero, so that there is something to read where there are none. -/
theorem terminated_runs (l : List UInt8) : Runs (Poll.terminated l.length) (l ++ [0]) l id := by
  rintro s rest ⟨i, hi⟩
  rw [List.append_assoc] at hi
  have hlen := hi.length
  have hpos := hi.pos
  rw [List.length_append, List.singleton_append, List.length_cons] at hlen
  have hread : read s.reader l.length = .ok (l, s.reader.seek l.length) := by
    simp only [read, if_neg (show ¬s.reader.data.length ≤ s.reader.pos by omega), take_rest hi, Nat.sub_self,
      List.replicate_zero, List.append_nil]
  have hzero : readByte (s.reader.seek l.length) = .ok (0, (s.reader.seek l.length).seek 1) := readByte_ok hi.seek
  have h1 : Poll.lift (fun r => read r l.length) s = .ok l { s with reader := s.reader.seek l.length } := by
    rw [Poll.lift, hread]
  have h2 : Poll.lift readByte { s with reader := s.reader.seek l.length } =
      .ok 0 { s with reader := (s.reader.seek l.length).seek 1 } := by
    rw [Poll.lift, hzero]
  refine ⟨{ s with reader := (s.reader.seek l.length).seek 1 }, ?_, ⟨_, hi.seek.tail⟩, rfl⟩
  rw [Poll.terminated, Runs.bind_run h1, Runs.bind_run h2]
  rfl

theorem string_runs (l : List UInt8) (h : l.length + 1 < 4294967296) : Runs (Poll.string o) (nameField o l) l id := by
  have hsize : ((((l.length + 1 : Nat) : Int) % 4294967296).toNat + 4294967295) % 4294967296 = l.length := by omega
  apply Runs.congr
  · refine (unsigned_runs o _).bind (g := id) ?_
    rw [hsize]
    exact terminated_runs l
  · rfl

theorem binary_runs (l : List UInt8) (h : l.length < 4294967296) : Runs (Poll.binary o) (binaryField o l) l id := by
  have hsize : ((l.length : Int) % 4294967296).toNat = l.length := by omega
  apply Runs.congr
  · refine (unsigned_runs o _).bind (g := id) ?_
    rw [hsize]
    exact terminated_runs l
  · rfl

/-! ## The fields of each message -/

/-- The instance after a `reinit` message. -/
def reinitialized (m : Reinit) (api : Instance) : Instance :=
  { api with
    processCount := m.processCount % 4294967296
    timeoutAsync := m.timeoutAsync % 4294967296
    timeoutSync := m.timeoutSync % 4294967296
    priorityDefault := o.signed (o.bytes 1 m.priorityDefault)
    requestTimeoutAdjustment := m.requestTimeoutAdjustment }

theorem boolean_ne (b : Bool) : ((if b then 1 else 0 : Int) != 0) = b := by
  cases b <;> rfl

theorem reinit_runs (m : Reinit) : Runs (reinit o) (reinitFields o m) () (reinitialized o m) := by
  apply Runs.congr
  · exact (unsigned_runs o _).bind <| (Runs.assign _).next <| (unsigned_runs o _).bind <| (Runs.assign _).next <|
      (unsigned_runs o _).bind <| (Runs.assign _).next <| (signed_runs o _).bind <| (Runs.assign _).next <|
      (unsigned_byte_runs o _).last <| Runs.assign _
  · funext api
    simp only [Function.comp_apply, id, boolean_ne, reinitialized]

/-- The instance after the fields of an `init` message. -/
def initialized (m : Init) (api : Instance) : Instance :=
  { api with
    processIndex := m.processIndex % 4294967296
    processCount := m.processCount % 4294967296
    processCountMax := m.processCountMax % 4294967296
    processCountMin := m.processCountMin % 4294967296
    namePrefix := m.namePrefix
    timeoutInitialize := m.timeoutInit % 4294967296
    timeoutAsync := m.timeoutAsync % 4294967296
    timeoutSync := m.timeoutSync % 4294967296
    timeoutTerminate := m.timeoutTerm % 4294967296
    priorityDefault := o.signed (o.bytes 1 m.priorityDefault)
    requestTimeoutAdjustment := m.requestTimeoutAdjustment }

theorem init_runs (m : Init) (h : m.namePrefix.length + 1 < 4294967296) :
    Runs (init o) (initFields o m) () (initialized o m) := by
  apply Runs.congr
  · exact (unsigned_runs o _).bind <| (Runs.assign _).next <| (unsigned_runs o _).bind <| (Runs.assign _).next <|
      (unsigned_runs o _).bind <| (Runs.assign _).next <| (unsigned_runs o _).bind <| (Runs.assign _).next <|
      (string_runs o _ h).bind <| (Runs.assign _).next <| (unsigned_runs o _).bind <| (Runs.assign _).next <|
      (unsigned_runs o _).bind <| (Runs.assign _).next <| (unsigned_runs o _).bind <| (Runs.assign _).next <|
      (unsigned_runs o _).bind <| (Runs.assign _).next <| (signed_runs o _).bind <| (Runs.assign _).next <|
      (unsigned_byte_runs o _).last <| Runs.assign _
  · funext api
    simp only [Function.comp_apply, id, boolean_ne, initialized]

/-- The process as the API has it. -/
def otpErlangPid (p : Pid) : Value :=
  .otpErlangPid 100 (be 2 p.node.length ++ p.node) (be 4 p.id.toNat) (be 4 p.serial.toNat) p.creation

variable (lib : Library)

theorem binaryToTerm_termToBinary (p : Pid) :
    binaryToTerm lib p.termToBinary.length p.termToBinary = .ok (otpErlangPid p) := by
  have hnode : Node 100 (be 2 p.node.length ++ p.node) :=
    .long (.inl rfl) (Nat.lt_of_le_of_lt p.node_le (by decide))
  have hkept : kept 100 (be 2 p.node.length ++ p.node) = be 2 p.node.length ++ p.node := by
    refine kept_eq ?_
    have hle := p.node_le
    rw [List.length_append, length_be]
    show 2 + p.node.length < 256 ^ 2
    omega
  have hleaf : Leaf lib .pidExt _ _ :=
    Leaf.pid p.creation hnode (length_be 4 p.id.toNat) (length_be 4 p.serial.toNat)
  rw [hkept] at hleaf
  have hext := External.leaf hleaf .nil
  have hbytes : p.termToBinary = tagVersion :: (Tag.pidExt.byte :: (100 :: (be 2 p.node.length ++ p.node) ++
      be 4 p.id.toNat ++ be 4 p.serial.toNat ++ [p.creation]) ++ []) := by
    simp only [Pid.termToBinary, List.cons_append, List.append_assoc, List.append_nil]
    rfl
  rw [hbytes]
  exact binaryToTerm_external hext (Nat.le_succ _)

/-- The callback of a request. -/
def callOf (command : Int) (m : Send) : Call :=
  ⟨command, m.name, m.pattern, m.requestInfo, m.request, m.timeout % 4294967296, o.signed (o.bytes 1 m.priority),
    m.transId.1, otpErlangPid m.source⟩

theorem request_runs (command : Int) (m : Send) (h : m.Sized) :
    Runs (request o lib command) (sendFields o m) (callOf o command m) id := by
  have hsize : ((m.source.termToBinary.length : Int) % 4294967296).toNat = m.source.termToBinary.length := by
    have := h.source
    omega
  have hpid : Runs (Poll.lift fun r => read r (((m.source.termToBinary.length : Int) % 4294967296).toNat))
      m.source.termToBinary m.source.termToBinary id := by
    rw [hsize]
    exact read_runs rfl (Nat.succ_pos _)
  apply Runs.congr
  · refine (string_runs o _ h.name).bind <| (string_runs o _ h.pattern).bind <| (binary_runs o _ h.requestInfo).bind <|
      (binary_runs o _ h.request).bind <| (unsigned_runs o _).bind <| (signed_runs o _).bind <|
      (read_runs m.transId.2 (by decide)).bind <| (unsigned_runs o _).bind <| hpid.last (g := id) ?_
    rw [binaryToTerm_termToBinary]
    exact Runs.pure _
  · rfl

theorem response_runs (responseInfo response : List UInt8) (transId : TransId)
    (hinfo : responseInfo.length < 4294967296) (hresponse : response.length < 4294967296) :
    Runs (Go.response o) (responseFields o responseInfo response transId) (responseInfo, response, transId.1) id := by
  apply Runs.congr
  · exact (binary_runs o _ hinfo).bind <| (binary_runs o _ hresponse).bind <|
      (read_runs transId.2 (by decide)).last <| Runs.pure _
  · rfl

theorem transIdsLoop_runs (transIds : List TransId) :
    Runs (transIdsLoop transIds.length) (transIds.map Subtype.val).flatten (transIds.map Subtype.val) id := by
  induction transIds with
  | nil => exact Runs.pure []
  | cons transId transIds ih =>
    apply Runs.congr
    · exact (read_runs transId.2 (by decide)).bind <| ih.last <| Runs.pure _
    · rfl

/-! ## Events -/

/-- The instance after a `keepalive` message. -/
def keptAlive (api : Instance) : Instance := { api with effects := api.effects ++ [.keepalive] }

/-- The events in order up to the first `terminate`: the instance after them, and whether there was one. -/
def processEvents : List Event → Instance → Instance × Bool
  | [], api => (api, false)
  | .reinit m :: es, api => processEvents es (reinitialized o m api)
  | .keepalive :: es, api => processEvents es (keptAlive api)
  | .terminate :: _, api => ({ api with terminate := true }, true)

theorem event_reinit_runs (m : Reinit) : Runs (event o 9) (reinitFields o m) () (reinitialized o m) :=
  reinit_runs o m

theorem event_keepalive_runs : Runs (event o 8) [] () keptAlive := by
  rw [event, if_neg (by decide), if_pos rfl]
  exact Runs.assign _

/-- After an event the loop goes on with what follows it. -/
theorem handleEvents_event {external : Bool} {n : Int} {s s' : PollState} (hn : n ≠ 11)
    (h : event o n s = .ok () s') : handleEvents o external n s = trailing o external s' := by
  rw [handleEvents.eq_def, if_neg hn]
  split
  case h_1 e t he => rw [h] at he; cases he
  case h_2 u t he =>
    rw [h] at he
    obtain rfl := (EStateM.Result.ok.inj he).2
    rw [trailing]
    split
    · rfl
    · split <;> (rename_i heq; rw [heq])

/-- What `handleEvents` does with the events: it stops at the first `terminate`, without an error when the thread
polls. -/
def Handled (external : Bool) (r : Instance × Bool) (result : EStateM.Result PollFault PollState Bool) : Prop :=
  match result with
  | .ok true s => r.2 = false ∧ s.api = r.1 ∧ Ahead s []
  | .ok false s => r.2 = true ∧ s.api = r.1 ∧ external = true
  | .error e s => r.2 = true ∧ s.api = r.1 ∧ external = false ∧ e = .terminateError r.1.timeoutTerminate

theorem Ahead.len {s : PollState} {bytes : List UInt8} (h : Ahead s bytes) : s.reader.len = bytes.length := by
  obtain ⟨i, hi⟩ := h
  rw [Reader.len, hi.length, hi.pos, Nat.add_sub_cancel_left]

theorem trailing_next {external : Bool} {n : Int} {s : PollState} {bytes : List UInt8}
    (hn : n % 4294967296 = n) (h : Ahead s (o.bytes 4 n ++ bytes)) :
    ∃ s', Ahead s' bytes ∧ s'.api = s.api ∧ trailing o external s = handleEvents o external n s' := by
  obtain ⟨s', hs, h', hapi⟩ := unsigned_runs o n s bytes h
  refine ⟨s', h', hapi, ?_⟩
  rw [trailing, if_neg (by rw [h.len, List.length_append, ByteOrder.length_bytes]; omega), hs, hn]

theorem trailing_handled {external : Bool} {events : List Event} {bytes : List UInt8} {s : PollState}
    (hb : Event.outs o events = .ok bytes) (h : Ahead s bytes) :
    Handled external (processEvents o events s.api) (trailing o external s) := by
  induction events generalizing bytes s with
  | nil =>
    obtain rfl := Except.ok.inj hb
    have hlen : s.reader.len = 0 := h.len
    rw [trailing, if_pos hlen]
    exact ⟨rfl, rfl, h⟩
  | cons e es ih =>
    obtain ⟨first, hfirst, hb⟩ := bind_eq_ok hb
    obtain ⟨rest, hrest, hb⟩ := bind_eq_ok hb
    obtain rfl := Except.ok.inj hb
    cases e with
    | reinit m =>
      obtain ⟨rfl, -⟩ := reinitOut_ok hfirst
      rw [List.append_assoc] at h
      obtain ⟨s', h', hapi, ht⟩ := trailing_next o (by decide) h
      obtain ⟨s'', hs, h'', hapi'⟩ := event_reinit_runs o m s' rest h'
      rw [ht, handleEvents_event o (by decide) hs, processEvents, ← hapi, ← hapi']
      exact ih hrest h''
    | keepalive =>
      obtain rfl := Except.ok.inj hfirst
      obtain ⟨s', h', hapi, ht⟩ := trailing_next o (by decide) h
      obtain ⟨s'', hs, h'', hapi'⟩ := event_keepalive_runs o s' rest h'
      rw [ht, handleEvents_event o (by decide) hs, processEvents, ← hapi, ← hapi']
      exact ih hrest h''
    | terminate =>
      obtain rfl := Except.ok.inj hfirst
      obtain ⟨s', h', hapi, ht⟩ := trailing_next o (by decide) h
      rw [ht, handleEvents.eq_def, if_pos (by decide), processEvents, ← hapi]
      cases external with
      | true => exact ⟨rfl, rfl, rfl⟩
      | false => exact ⟨rfl, rfl, rfl, rfl⟩

/-! ## One message and what follows it -/

/-- What `pollRequest` does with a message that changes the instance by `before` and, after the events, by `after`:
the events are processed in order up to the first `terminate`. `stops` when that is the end of a request. -/
def ProcessedBy (before after : Instance → Instance) (outcome : Option Bool) (stops external : Bool)
    (events : List Event) (api : Instance) (result : EStateM.Result PollFault PollState (Option Bool)) : Prop :=
  let r := processEvents o events (before api)
  if r.2 = false then ∃ s, result = .ok outcome s ∧ s.api = after r.1 ∧ Ahead s []
  else if external then ∃ s, result = .ok (some false) s ∧ s.api = if stops then r.1 else after r.1
  else ∃ s, result = .error (.terminateError r.1.timeoutTerminate) s ∧ s.api = r.1

/-- The fields of the message are taken, then the events, then the message is finished. -/
theorem processedBy_of_runs {α : Type} {fields : Poll α} {l bytes : List UInt8} {a : α} {f g : Instance → Instance}
    {outcome : Option Bool} {stops external : Bool} {post : α → Bool → Poll (Option Bool)} {events : List Event}
    {s : PollState} (hf : Runs fields l a f) (htrue : ∀ s, post a true s = .ok outcome { s with api := g s.api })
    (hfalse : ∀ s, post a false s = .ok (some false) { s with api := if stops then s.api else g s.api })
    (hb : Event.outs o events = .ok bytes) (h : Ahead s (l ++ bytes)) :
    ProcessedBy o f g outcome stops external events s.api
      ((fields >>= fun a => trailing o external >>= post a) s) := by
  obtain ⟨s', hs, h', hapi⟩ := hf s bytes h
  have hhandled : Handled external _ _ := trailing_handled o hb h'
  rw [Runs.bind_run hs, ProcessedBy, ← hapi]
  cases ht : trailing o external s' with
  | ok handled t =>
    rw [ht] at hhandled
    rw [Runs.bind_run ht]
    cases handled with
    | true =>
      obtain ⟨hr, hapi, hend⟩ := hhandled
      simp only [hr, if_true]
      exact ⟨_, htrue t, by rw [hapi], hend⟩
    | false =>
      obtain ⟨hr, hapi, rfl⟩ := hhandled
      simp only [hr, Bool.true_eq_false, if_false, if_true]
      exact ⟨_, hfalse t, by rw [hapi]⟩
  | error e t =>
    rw [ht] at hhandled
    obtain ⟨hr, hapi, rfl, rfl⟩ := hhandled
    simp only [hr, Bool.true_eq_false, Bool.false_eq_true, if_false]
    refine ⟨t, ?_, hapi⟩
    show EStateM.bind (trailing o false) (post a) s' = _
    rw [EStateM.bind, ht]

/-- The fields that a message stores before the events, with their values. -/
def stored (api : Instance) : Content → Instance
  | .init m => { api with
      processIndex := m.processIndex
      processCount := m.processCount
      processCountMax := m.processCountMax
      processCountMin := m.processCountMin
      namePrefix := m.namePrefix
      timeoutInitialize := m.timeoutInit
      timeoutAsync := m.timeoutAsync
      timeoutSync := m.timeoutSync
      timeoutTerminate := m.timeoutTerm
      priorityDefault := m.priorityDefault
      requestTimeoutAdjustment := m.requestTimeoutAdjustment }
  | .reinit m => { api with
      processCount := m.processCount
      timeoutAsync := m.timeoutAsync
      timeoutSync := m.timeoutSync
      priorityDefault := m.priorityDefault
      requestTimeoutAdjustment := m.requestTimeoutAdjustment }
  | _ => api

/-- What a message does after the events, with the values of its fields. -/
def finished (api : Instance) : Content → Instance
  | .request sync m => { api with effects := api.effects ++ [.callback ⟨if sync then 3 else 2, m.name, m.pattern,
      m.requestInfo, m.request, m.timeout, m.priority, m.transId.1, otpErlangPid m.source⟩] }
  | .response responseInfo response transId =>
    { api with responseInfo := responseInfo, response := response, transId := transId.1 }
  | .transId transId => { api with transId := transId.1 }
  | .transIds transIds => { api with transIds := transIds.map Subtype.val }
  | .count count => { api with subscribeCount := count }
  | _ => api

/-- What is returned for a message that no `terminate` follows: `none` when more data is received. -/
def outcome : Content → Option Bool
  | .reinit _ | .request .. => none
  | _ => some false

def stops : Content → Bool
  | .request .. => true
  | _ => false

/-- The data of a message and of the events that follow it is processed: the fields have their values, and the events
are processed in order up to the first `terminate`. -/
def Processed (external : Bool) (c : Content) (events : List Event) (data : List UInt8) (api : Instance) : Prop :=
  ProcessedBy o (stored · c) (finished · c) (outcome c) (stops c) external events api
    (pollMessage o lib external ⟨api, ⟨data, 0⟩⟩)

def Unsigned32 (n : Int) : Prop := 0 ≤ n ∧ n < 4294967296

/-- The values that a message has room for. A `reinit` message is processed when no event follows it. -/
def Exact (events : List Event) : Content → Prop
  | .init m => Unsigned32 m.processIndex ∧ Unsigned32 m.processCount ∧ Unsigned32 m.processCountMax ∧
      Unsigned32 m.processCountMin ∧ Unsigned32 m.timeoutInit ∧ Unsigned32 m.timeoutAsync ∧
      Unsigned32 m.timeoutSync ∧ Unsigned32 m.timeoutTerm
  | .reinit m => Unsigned32 m.processCount ∧ Unsigned32 m.timeoutAsync ∧ Unsigned32 m.timeoutSync ∧ events = []
  | .request _ m => Unsigned32 m.timeout ∧ -128 ≤ m.priority ∧ m.priority ≤ 127
  | _ => True

theorem mod_eq_iff {n : Int} : n % 4294967296 = n ↔ Unsigned32 n := by
  rw [Unsigned32]
  omega

variable {o lib} {external : Bool} {events : List Event} {bytes data : List UInt8} {api : Instance}

/-- The number of the message is read first. -/
theorem pollMessage_at (api : Instance) (n : Int) {rest : List UInt8} (hn : n % 4294967296 = n)
    (hdata : data = o.bytes 4 n ++ rest) :
    ∃ s, Ahead s rest ∧ s.api = api ∧ Poll.unsigned o 4 ⟨api, ⟨data, 0⟩⟩ = .ok n s := by
  subst hdata
  obtain ⟨s, hs, h, hapi⟩ := unsigned_runs o n ⟨api, ⟨o.bytes 4 n ++ rest, 0⟩⟩ rest ⟨0, Reader.rest_start _⟩
  rw [hn] at hs
  exact ⟨s, h, hapi, hs⟩

theorem processed_init {m : Init} (hm : initOut o m = .ok data) (hb : Event.outs o events = .ok bytes) :
    ProcessedBy o (initialized o m) id (some false) false external events api
      (pollMessage o lib external ⟨api, ⟨data ++ bytes, 0⟩⟩) := by
  obtain ⟨rfl, hsize, -⟩ := initOut_ok hm
  obtain ⟨s, hs, rfl, hnumber⟩ := pollMessage_at api 1 (by decide) (List.append_assoc _ _ _)
  rw [pollMessage, Runs.bind_run hnumber, if_pos rfl]
  exact processedBy_of_runs o (init_runs o m hsize) (fun _ => rfl) (fun _ => rfl) hb hs

/-- The instance after the callback of a request. -/
def called (call : Call) (api : Instance) : Instance := { api with effects := api.effects ++ [.callback call] }

theorem processed_request {n : Int} (hn : n = 2 ∨ n = 3) {m : Send} (hm : sendOut o n m = .ok data)
    (hb : Event.outs o events = .ok bytes) :
    ProcessedBy o id (called (callOf o n m)) none true external events api
      (pollMessage o lib external ⟨api, ⟨data ++ bytes, 0⟩⟩) := by
  obtain ⟨rfl, hsize⟩ := sendOut_ok hm
  obtain ⟨s, hs, rfl, hnumber⟩ := pollMessage_at api n (by omega) (List.append_assoc _ _ _)
  rw [pollMessage, Runs.bind_run hnumber, if_neg (by omega), if_pos hn]
  exact processedBy_of_runs o (request_runs o lib n m hsize) (fun _ => rfl) (fun _ => rfl) hb hs

theorem processed_response {n : Int} (hn : n = 4 ∨ n = 6) {responseInfo response : List UInt8} {transId : TransId}
    (hdata : data = o.bytes 4 n ++ responseFields o responseInfo response transId)
    (hinfo : responseInfo.length < 4294967296) (hresponse : response.length < 4294967296)
    (hb : Event.outs o events = .ok bytes) :
    ProcessedBy o id (finished · (.response responseInfo response transId)) (some false) false external events api
      (pollMessage o lib external ⟨api, ⟨data ++ bytes, 0⟩⟩) := by
  obtain rfl := hdata
  obtain ⟨s, hs, rfl, hnumber⟩ := pollMessage_at api n (by omega) (List.append_assoc _ _ _)
  rw [pollMessage, Runs.bind_run hnumber, if_neg (by omega), if_neg (by omega), if_pos hn]
  exact processedBy_of_runs o (response_runs o _ _ _ hinfo hresponse) (fun _ => rfl) (fun _ => rfl) hb hs

theorem processed_transId {transId : TransId} (hdata : data = o.bytes 4 5 ++ transId.1)
    (hb : Event.outs o events = .ok bytes) :
    ProcessedBy o id (finished · (.transId transId)) (some false) false external events api
      (pollMessage o lib external ⟨api, ⟨data ++ bytes, 0⟩⟩) := by
  obtain rfl := hdata
  obtain ⟨s, hs, rfl, hnumber⟩ := pollMessage_at api 5 (by decide) (List.append_assoc _ _ _)
  rw [pollMessage, Runs.bind_run hnumber, if_neg (by decide), if_neg (by decide), if_neg (by decide), if_pos rfl]
  exact processedBy_of_runs o (read_runs transId.2 (by decide)) (fun _ => rfl) (fun _ => rfl) hb hs

theorem transIds_runs (transIds : List TransId) (h : transIds.length < 4294967296) :
    Runs (Poll.unsigned o 4 >>= fun transIdCount => transIdsLoop transIdCount.toNat)
      (o.bytes 4 transIds.length ++ (transIds.map Subtype.val).flatten) (transIds.map Subtype.val) id := by
  have hcount : ((transIds.length : Int) % 4294967296).toNat = transIds.length := by omega
  apply Runs.congr
  · refine (unsigned_runs o _).bind (g := id) ?_
    rw [hcount]
    exact transIdsLoop_runs transIds
  · rfl

theorem processed_transIds {transIds : List TransId}
    (hdata : data = o.bytes 4 7 ++ (o.bytes 4 transIds.length ++ (transIds.map Subtype.val).flatten))
    (hcount : transIds.length < 4294967296) (hb : Event.outs o events = .ok bytes) :
    ProcessedBy o id (finished · (.transIds transIds)) (some false) false external events api
      (pollMessage o lib external ⟨api, ⟨data ++ bytes, 0⟩⟩) := by
  obtain rfl := hdata
  obtain ⟨s, hs, rfl, hnumber⟩ := pollMessage_at api 7 (by decide) (List.append_assoc _ _ _)
  rw [pollMessage, Runs.bind_run hnumber, if_neg (by decide), if_neg (by decide), if_neg (by decide),
    if_neg (by decide), if_pos rfl]
  have h : ProcessedBy o id (finished · (.transIds transIds)) (some false) false external events s.api
      (((Poll.unsigned o 4 >>= fun transIdCount => transIdsLoop transIdCount.toNat) >>= fun transIds =>
        trailing o external >>= fun _ => Poll.assign (fun api => { api with transIds := transIds }) >>= fun _ =>
          pure (some false)) s) :=
    processedBy_of_runs o (transIds_runs transIds hcount) (fun _ => rfl) (fun _ => rfl) hb hs
  rwa [bind_assoc] at h

/-- What follows a `reinit` message is not read. -/
theorem pollMessage_reinit {m : Reinit} (hm : reinitOut o m = .ok data) :
    ∃ s, pollMessage o lib external ⟨api, ⟨data ++ bytes, 0⟩⟩ = .ok none s ∧ s.api = reinitialized o m api ∧
      Ahead s bytes := by
  obtain ⟨rfl, -⟩ := reinitOut_ok hm
  obtain ⟨s, hs, rfl, hnumber⟩ := pollMessage_at api 9 (by decide) (List.append_assoc _ _ _)
  obtain ⟨s', hs', h', hapi⟩ := reinit_runs o m s bytes hs
  refine ⟨s', ?_, hapi, h'⟩
  rw [pollMessage, Runs.bind_run hnumber, if_neg (by decide), if_neg (by decide), if_neg (by decide),
    if_neg (by decide), if_neg (by decide), if_neg (by decide), if_neg (by decide), if_pos rfl, Runs.bind_run hs']
  rfl

theorem processed_reinit_iff {m : Reinit} (hm : reinitOut o m = .ok data) (hb : Event.outs o events = .ok bytes) :
    (Processed o lib external (.reinit m) [] data api ∧
      Processed o lib external (.reinit m) events (data ++ bytes) api) ↔ Exact events (.reinit m) := by
  obtain ⟨s, hs, hapi, h⟩ := @pollMessage_reinit o lib external [] data api m hm
  obtain ⟨s', hs', hapi', h'⟩ := @pollMessage_reinit o lib external bytes data api m hm
  rw [List.append_nil] at hs
  have hpriority := o.signed_byte_eq_iff.mpr (reinitOut_ok hm).2
  constructor
  · rintro ⟨⟨t, ht, hstored, -⟩, hevents⟩
    obtain ⟨-, rfl⟩ := EStateM.Result.ok.inj (hs.symm.trans ht)
    have heq : reinitialized o m api = stored api (.reinit m) := hapi.symm.trans hstored
    refine ⟨mod_eq_iff.mp (congrArg Instance.processCount heq), mod_eq_iff.mp (congrArg Instance.timeoutAsync heq),
      mod_eq_iff.mp (congrArg Instance.timeoutSync heq), ?_⟩
    rw [Processed, hs', ProcessedBy] at hevents
    split at hevents
    · obtain ⟨u, hu, -, hend⟩ := hevents
      obtain ⟨-, rfl⟩ := EStateM.Result.ok.inj hu
      have hlen : bytes.length = 0 := h'.len.symm.trans hend.len
      obtain rfl := List.eq_nil_of_length_eq_zero hlen
      exact Event.outs_nil hb
    · split at hevents
      · obtain ⟨u, hu, -⟩ := hevents
        exact absurd (EStateM.Result.ok.inj hu).1 (Option.some_ne_none false).symm
      · obtain ⟨u, hu, -⟩ := hevents
        cases hu
  · rintro ⟨hcount, hasync, hsync, rfl⟩
    have heq : reinitialized o m api = stored api (.reinit m) := by
      rw [reinitialized, mod_eq_iff.mpr hcount, mod_eq_iff.mpr hasync, mod_eq_iff.mpr hsync, hpriority, stored]
    obtain rfl := Except.ok.inj hb
    exact ⟨⟨s, hs, hapi.trans heq, h⟩, ⟨s', hs', hapi'.trans heq, h'⟩⟩

theorem processed_count {count : Int} (hm : subscribeCountOut o count = .ok data)
    (hb : Event.outs o events = .ok bytes) :
    ProcessedBy o id (finished · (.count count)) (some false) false external events api
      (pollMessage o lib external ⟨api, ⟨data ++ bytes, 0⟩⟩) := by
  obtain ⟨rfl, hlow, hhigh⟩ := subscribeCountOut_ok hm
  obtain ⟨s, hs, rfl, hnumber⟩ := pollMessage_at api 10 (by decide) (List.append_assoc _ _ _)
  have hcount := unsigned_runs o count
  rw [mod_eq_iff.mpr ⟨hlow, by omega⟩] at hcount
  rw [pollMessage, Runs.bind_run hnumber, if_neg (by decide), if_neg (by decide), if_neg (by decide),
    if_neg (by decide), if_neg (by decide), if_pos rfl]
  exact processedBy_of_runs o hcount (fun _ => rfl) (fun _ => rfl) hb hs

/-- A message that is processed changes the instance by what it is for: on its own it shows this. -/
theorem processed_iff_of_eq {c : Content} {f g : Instance → Instance} {P : Prop}
    (halone : ProcessedBy o f g (outcome c) (stops c) external [] api (pollMessage o lib external ⟨api, ⟨data, 0⟩⟩))
    (hevents : ProcessedBy o f g (outcome c) (stops c) external events api
      (pollMessage o lib external ⟨api, ⟨data ++ bytes, 0⟩⟩))
    (hP : g (f api) = finished (stored api c) c → P) (hfg : P → f = (stored · c) ∧ g = (finished · c)) :
    (Processed o lib external c [] data api ∧ Processed o lib external c events (data ++ bytes) api) ↔ P := by
  constructor
  · rintro ⟨⟨s, hs, hapi, -⟩, -⟩
    obtain ⟨t, ht, hapi', -⟩ := halone
    obtain ⟨-, rfl⟩ := EStateM.Result.ok.inj (hs.symm.trans ht)
    exact hP (hapi'.symm.trans hapi)
  · intro hp
    obtain ⟨rfl, rfl⟩ := hfg hp
    exact ⟨halone, hevents⟩

theorem processed_init_iff {m : Init} (hm : initOut o m = .ok data) (hb : Event.outs o events = .ok bytes) :
    (Processed o lib external (.init m) [] data api ∧
      Processed o lib external (.init m) events (data ++ bytes) api) ↔ Exact events (.init m) := by
  have hpriority := o.signed_byte_eq_iff.mpr (initOut_ok hm).2.2
  have halone : ProcessedBy o _ id (some false) false external [] api
      (pollMessage o lib external ⟨api, ⟨data ++ [], 0⟩⟩) := processed_init hm rfl
  rw [List.append_nil] at halone
  refine processed_iff_of_eq halone (processed_init hm hb) (fun h => ?_) (fun h => ⟨?_, rfl⟩)
  · exact ⟨mod_eq_iff.mp (congrArg Instance.processIndex h), mod_eq_iff.mp (congrArg Instance.processCount h),
      mod_eq_iff.mp (congrArg Instance.processCountMax h), mod_eq_iff.mp (congrArg Instance.processCountMin h),
      mod_eq_iff.mp (congrArg Instance.timeoutInitialize h), mod_eq_iff.mp (congrArg Instance.timeoutAsync h),
      mod_eq_iff.mp (congrArg Instance.timeoutSync h), mod_eq_iff.mp (congrArg Instance.timeoutTerminate h)⟩
  · obtain ⟨hindex, hcount, hmax, hmin, htimeout, hasync, hsync, hterm⟩ := h
    funext api
    rw [initialized, mod_eq_iff.mpr hindex, mod_eq_iff.mpr hcount, mod_eq_iff.mpr hmax, mod_eq_iff.mpr hmin,
      mod_eq_iff.mpr htimeout, mod_eq_iff.mpr hasync, mod_eq_iff.mpr hsync, mod_eq_iff.mpr hterm, hpriority, stored]

theorem processed_request_iff {sync : Bool} {m : Send} (hm : sendOut o (if sync then 3 else 2) m = .ok data)
    (hb : Event.outs o events = .ok bytes) :
    (Processed o lib external (.request sync m) [] data api ∧
      Processed o lib external (.request sync m) events (data ++ bytes) api) ↔ Exact events (.request sync m) := by
  have hn : (if sync then 3 else 2 : Int) = 2 ∨ (if sync then 3 else 2 : Int) = 3 := by
    cases sync <;> decide
  have halone : ProcessedBy o id _ none true external [] api (pollMessage o lib external ⟨api, ⟨data ++ [], 0⟩⟩) :=
    processed_request hn hm rfl
  rw [List.append_nil] at halone
  refine processed_iff_of_eq halone (processed_request hn hm hb) (fun h => ?_) (fun h => ⟨rfl, ?_⟩)
  · have heffects := congrArg Instance.effects h
    simp only [called, finished, stored, id, List.append_cancel_left_eq, List.cons.injEq, Effect.callback.injEq,
      and_true] at heffects
    exact ⟨mod_eq_iff.mp (congrArg Call.timeout heffects), o.signed_byte_eq_iff.mp (congrArg Call.priority heffects)⟩
  · funext api
    rw [called, callOf, mod_eq_iff.mpr h.1, o.signed_byte_eq_iff.mpr h.2, finished]

/-- The data of a message and of the events that follow it is processed exactly when the fields have room in the
message, and no event follows a `reinit` message. -/
theorem processed_iff (o : ByteOrder) (lib : Library) (m : Message) (data : List UInt8) (external : Bool)
    (events : List Event) (bytes : List UInt8) (api : Instance) (hm : m.out o = .ok data)
    (hb : Event.outs o events = .ok bytes) :
    (Processed o lib external m.content [] data api ∧
      Processed o lib external m.content events (data ++ bytes) api) ↔ Exact events m.content := by
  -- what has no fields that could be cut
  have hexact : ∀ {c : Content} {g : Instance → Instance}, outcome c = some false → stops c = false →
      (stored · c) = id → Exact events c → (finished · c) = g →
      (∀ {es : List Event} {l : List UInt8}, Event.outs o es = .ok l →
        ProcessedBy o id g (some false) false external es api
          (pollMessage o lib external ⟨api, ⟨data ++ l, 0⟩⟩)) →
      ((Processed o lib external c [] data api ∧ Processed o lib external c events (data ++ bytes) api) ↔
        Exact events c) := by
    intro c g houtcome hstops hstored hexact hg h
    have halone := @h [] [] rfl
    rw [List.append_nil] at halone
    subst hg
    rw [← houtcome, ← hstops, ← hstored] at halone h
    exact iff_of_true ⟨halone, h hb⟩ hexact
  cases m with
  | init m => exact processed_init_iff hm hb
  | reinit m => exact processed_reinit_iff hm hb
  | sendAsync m => exact @processed_request_iff o lib external events bytes data api false m hm hb
  | sendSync m => exact @processed_request_iff o lib external events bytes data api true m hm hb
  | returnAsync transId =>
    exact hexact rfl rfl rfl trivial rfl fun h => processed_transId (Except.ok.inj hm).symm h
  | returnSyncTimeout transId =>
    have hdata := (Except.ok.inj hm).symm.trans (timeoutOut_eq o 6 _)
    exact hexact rfl rfl rfl trivial rfl fun h => processed_response (.inr rfl) hdata (by decide) (by decide) h
  | returnSync responseInfo response transId =>
    obtain ⟨hdata, hinfo, hresponse⟩ := responseOut_ok hm
    exact hexact rfl rfl rfl trivial rfl fun h => processed_response (.inr rfl) hdata hinfo hresponse h
  | returnsAsyncNone =>
    have hdata : data = o.bytes 4 7 ++ (o.bytes 4 ([] : List TransId).length ++
        (([] : List TransId).map Subtype.val).flatten) := by
      rw [← Except.ok.inj hm, returnsAsyncNoneOut, List.map_nil, List.flatten_nil, List.append_nil]
      rfl
    exact hexact rfl rfl rfl trivial rfl fun h => processed_transIds hdata (by decide) h
  | returnsAsync transIds =>
    obtain ⟨hdata, hcount⟩ := returnsAsyncOut_ok hm
    exact hexact rfl rfl rfl trivial rfl fun h => processed_transIds hdata hcount h
  | recvAsyncTimeout transId =>
    have hdata := (Except.ok.inj hm).symm.trans (timeoutOut_eq o 4 _)
    exact hexact rfl rfl rfl trivial rfl fun h => processed_response (.inl rfl) hdata (by decide) (by decide) h
  | recvAsync responseInfo response transId =>
    obtain ⟨hdata, hinfo, hresponse⟩ := responseOut_ok hm
    exact hexact rfl rfl rfl trivial rfl fun h => processed_response (.inl rfl) hdata hinfo hresponse h
  | subscribeCount count =>
    exact hexact rfl rfl rfl trivial rfl fun h => processed_count hm h

/-- A response that a keepalive message and the end of the service follow. -/
theorem processed_iff_response :
    (Message.returnSync [] [1, 2] noTransId).out .little =
      .ok (ByteOrder.little.bytes 4 6 ++ responseFields .little [] [1, 2] noTransId) ∧
    Event.outs .little [.keepalive, .terminate] = .ok [8, 0, 0, 0, 11, 0, 0, 0] ∧
    ∀ lib api, Processed .little lib false (.response [] [1, 2] noTransId) [.keepalive, .terminate]
      (ByteOrder.little.bytes 4 6 ++ responseFields .little [] [1, 2] noTransId ++ [8, 0, 0, 0, 11, 0, 0, 0]) api := by
  have hm : (Message.returnSync [] [1, 2] noTransId).out .little =
      .ok (ByteOrder.little.bytes 4 6 ++ responseFields .little [] [1, 2] noTransId) := rfl
  have hb : Event.outs .little [.keepalive, .terminate] = .ok [8, 0, 0, 0, 11, 0, 0, 0] := rfl
  exact ⟨hm, hb, fun lib api => ((processed_iff .little lib _ _ false _ _ api hm hb).mpr trivial).2⟩

/-- A `reinit` message that the end of the service follows. -/
theorem not_processed_reinit :
    (Message.reinit ⟨1, 5000, 5000, 0, false⟩).out .little =
      .ok [9, 0, 0, 0, 1, 0, 0, 0, 136, 19, 0, 0, 136, 19, 0, 0, 0, 0] ∧
    Event.outs .little [.terminate] = .ok [11, 0, 0, 0] ∧
    ∀ lib api, ¬Processed .little lib false (.reinit ⟨1, 5000, 5000, 0, false⟩) [.terminate]
      ([9, 0, 0, 0, 1, 0, 0, 0, 136, 19, 0, 0, 136, 19, 0, 0, 0, 0] ++ [11, 0, 0, 0]) api := by
  refine ⟨rfl, rfl, fun lib api hprocessed => ?_⟩
  obtain ⟨s, hs, -⟩ := @pollMessage_reinit .little lib false [11, 0, 0, 0] _ api ⟨1, 5000, 5000, 0, false⟩ rfl
  obtain ⟨t, ht, -⟩ := hprocessed
  cases hs.symm.trans ht

end CloudI.Api.Go
