import CloudI.Api.Python.Protocol
import CloudI.Framework.Framing

/-!
# The messages that the Python API receives

`__recv` with a header, as for tcp and local sockets, and the data that `__poll_request` gets from it. A socket is
the fragments that are left of its stream. After the last one the connection ends, and each `recv` returns an empty
fragment, so that a loop that waits for more goes on with any `fuel`.

`__recv` returns all of the fragments that it needed (`recv_frame`). What they have after the message is left to
`__handle_events`, which takes the length of the next message for its number.
-/

namespace CloudI.Api.Python

open Slices (At)
open Services.Protocol

/-! ## `__recv` -/

/-- `self.__s.recv(self.__size)` -/
def fragment : List (List UInt8) → List UInt8 × List (List UInt8)
  | [] => ([], [])
  | f :: fs => (f, fs)

/-- Fragments are added to the data until it has `n` bytes. -/
def fill (n : Nat) : Nat → List UInt8 → List (List UInt8) → Option (List UInt8 × List (List UInt8))
  | 0, _, _ => none
  | fuel + 1, data, socket =>
    if data.length < n then fill n fuel (data ++ (fragment socket).1) (fragment socket).2 else some (data, socket)

def recv (fuel : Nat) (socket : List (List UInt8)) : Option (List UInt8 × List (List UInt8)) := do
  let (data, socket) ← fill 4 fuel [] socket
  let total := ofBe (data.take 4)
  fill total fuel (data.drop 4) socket

/-- What a loop has read ends at the first of the bounds that is far enough. -/
structure Filled (n : Nat) (data : List UInt8) (socket : List (List UInt8)) (data' : List UInt8)
    (socket' : List (List UInt8)) : Prop where
  enough : n ≤ data'.length
  length : socket'.length ≤ socket.length
  stream : data' ++ socket'.flatten = data ++ socket.flatten
  first : ∀ b ∈ bounds data.length socket, b < n ∨ data'.length ≤ b
  bounds : ∀ b, data'.length ≤ b → (b ∈ CloudI.bounds data.length socket ↔ b ∈ CloudI.bounds data'.length socket')

variable {socket socket' : List (List UInt8)}

theorem fill_filled {n fuel : Nat} {data data' : List UInt8}
    (h : fill n fuel data socket = some (data', socket')) : Filled n data socket data' socket' := by
  induction fuel generalizing data socket with
  | zero => simp only [fill, reduceCtorEq] at h
  | succ fuel ih =>
    unfold fill at h
    split at h
    case isTrue hlt =>
      have hfilled := ih h
      cases socket with
      | nil =>
        rw [show data ++ (fragment []).1 = data from List.append_nil data] at hfilled
        exact hfilled
      | cons f fs =>
        have hlen : (data ++ f).length = data.length + f.length := List.length_append
        have hle : data'.length ≥ n := hfilled.enough
        refine ⟨hfilled.enough, Nat.le_succ_of_le hfilled.length, ?_, fun b hb => ?_, fun b hb => ?_⟩
        · rw [hfilled.stream, List.flatten_cons, ← List.append_assoc]
          rfl
        · rcases List.mem_cons.mp hb with rfl | hb
          · exact .inl hlt
          · exact hfilled.first b (by rwa [show (fragment (f :: fs)).1 = f from rfl, hlen])
        · rw [← hfilled.bounds b hb, CloudI.bounds, List.mem_cons, show (fragment (f :: fs)).1 = f from rfl, hlen]
          exact or_iff_right (by omega)
    case isFalse hge =>
      obtain ⟨rfl, rfl⟩ := Prod.mk.inj (Option.some.inj h)
      exact ⟨Nat.le_of_not_lt hge, Nat.le_refl _, rfl, fun b hb => .inr (le_of_mem_bounds hb), fun b _ => Iff.rfl⟩

/-- A loop ends when there are enough bytes. -/
theorem fill_ends {n : Nat} {data : List UInt8} {socket : List (List UInt8)}
    (h : n ≤ (data ++ socket.flatten).length) {fuel : Nat} (hfuel : socket.length < fuel) :
    (fill n fuel data socket).isSome := by
  induction socket generalizing data fuel with
  | nil =>
    obtain ⟨fuel, rfl⟩ := Nat.exists_eq_add_of_le' (show 1 ≤ fuel by omega)
    rw [List.flatten_nil, List.append_nil] at h
    rw [fill, if_neg (by omega)]
    rfl
  | cons f fs ih =>
    obtain ⟨fuel, rfl⟩ := Nat.exists_eq_add_of_le' (show 1 ≤ fuel by omega)
    rw [List.length_cons] at hfuel
    rw [fill]
    split
    · refine ih ?_ (by omega)
      rw [List.flatten_cons, ← List.append_assoc] at h
      exact h
    · rfl

theorem Filled.mem {n : Nat} {data data' : List UInt8}
    (h : Filled n data socket data' socket') : data'.length ∈ CloudI.bounds data.length socket :=
  (h.bounds _ (Nat.le_refl _)).mpr (self_mem_bounds _ _)

theorem Filled.le {n : Nat} {data data' : List UInt8}
    (h : Filled n data socket data' socket') : data.length ≤ data'.length := le_of_mem_bounds h.mem

/-- The two loops of `__recv`. -/
theorem recv_filled {fuel : Nat} {data : List UInt8}
    (h : recv fuel socket = some (data, socket')) : ∃ first socket₁, Filled 4 [] socket first socket₁ ∧
      Filled (ofBe (socket.flatten.take 4)) (first.drop 4) socket₁ data socket' := by
  unfold recv at h
  cases hfirst : fill 4 fuel [] socket with
  | none =>
    rw [hfirst] at h
    cases h
  | some r =>
    obtain ⟨first, socket₁⟩ := r
    rw [hfirst] at h
    have hfilled := fill_filled hfirst
    have htake : first.take 4 = socket.flatten.take 4 := by
      rw [← List.nil_append socket.flatten, ← hfilled.stream, List.take_append_of_le_length hfilled.enough]
    refine ⟨first, socket₁, hfilled, ?_⟩
    rw [← htake]
    exact fill_filled h

/-- The stream has the length of a message, and as many bytes as it says. -/
def Complete (stream : List UInt8) : Prop := 4 ≤ stream.length ∧ 4 + ofBe (stream.take 4) ≤ stream.length

theorem recv_ends {socket : List (List UInt8)} (h : Complete socket.flatten) {fuel : Nat}
    (hfuel : socket.length < fuel) : (recv fuel socket).isSome := by
  obtain ⟨⟨first, socket₁⟩, hfirst⟩ := Option.isSome_iff_exists.mp
    (@fill_ends 4 [] socket (by rw [List.nil_append]; exact h.1) _ hfuel)
  have hfilled := fill_filled hfirst
  have htake : first.take 4 = socket.flatten.take 4 := by
    rw [← List.nil_append socket.flatten, ← hfilled.stream, List.take_append_of_le_length hfilled.enough]
  have hlen := congrArg List.length hfilled.stream
  have htotal := h.2
  have henough := hfilled.enough
  rw [recv, hfirst]
  refine fill_ends ?_ (Nat.lt_of_le_of_lt hfilled.length hfuel)
  simp only [List.length_append, List.length_nil, List.length_drop, htake] at hlen ⊢
  omega

/-- `__recv` returns when the stream has a whole message. -/
theorem recv_returns_iff (socket : List (List UInt8)) :
    (∃ fuel, (recv fuel socket).isSome) ↔ Complete socket.flatten := by
  refine ⟨fun hreturns => ?_, fun h => ⟨socket.length + 1, recv_ends h (Nat.lt_succ_self _)⟩⟩
  obtain ⟨fuel, h⟩ := hreturns
  obtain ⟨⟨data, socket'⟩, hr⟩ := Option.isSome_iff_exists.mp h
  obtain ⟨first, socket₁, hfirst, hdata⟩ := recv_filled hr
  have hlen := congrArg List.length hfirst.stream
  have hlen' := congrArg List.length hdata.stream
  have henough := hfirst.enough
  have henough' := hdata.enough
  simp only [List.length_append, List.length_nil, List.length_drop] at hlen hlen'
  exact ⟨by omega, by omega⟩

/-- `__recv` gives the message and what comes with its last bytes. -/
theorem recv_frame {fuel : Nat} {m rest data : List UInt8}
    (hm : m.length < 256 ^ 4) (hs : socket.flatten = frame m ++ rest) (h : recv fuel socket = some (data, socket')) :
    ∃ extra, data = m ++ extra ∧ extra ++ socket'.flatten = rest ∧
      (extra = [] ↔ 4 + m.length ∈ bounds 0 socket) ∧
      (extra = [] → ∀ b, 4 + m.length + b ∈ bounds 0 socket ↔ b ∈ bounds 0 socket') := by
  obtain ⟨first, socket₁, hfirst, hdata⟩ := recv_filled h
  rw [hs, take_frame, ofBe_be_of_lt hm] at hdata
  have hstream : data ++ socket'.flatten = m ++ rest := by
    rw [hdata.stream, ← List.drop_append_of_le_length hfirst.enough, hfirst.stream, List.nil_append, hs, drop_frame]
  have hlen := hdata.enough
  have htake : data.take m.length = m := by
    rw [← List.take_append_of_le_length hlen, hstream, List.take_left]
  have hsplit : data = m ++ data.drop m.length := by
    conv_lhs => rw [← List.take_append_drop m.length data, htake]
  have hle := hdata.le
  have h4 := hfirst.enough
  rw [List.length_drop] at hle
  -- the bounds of the second loop are those of the first, without the length of the message
  have hshift : ∀ b, data.length ≤ b → (4 + b ∈ bounds 0 socket ↔ b ∈ bounds data.length socket') := by
    intro b hb
    have hmem : 4 + b ∈ bounds 0 socket ↔ 4 + b ∈ bounds first.length socket₁ := hfirst.bounds (4 + b) (by omega)
    rw [← hdata.bounds b hb, List.length_drop, hmem, ← @mem_bounds_add _ 4 b, Nat.sub_add_cancel h4, Nat.add_comm b 4]
  have hnil : data.drop m.length = [] ↔ data.length = m.length := by
    rw [List.drop_eq_nil_iff]
    omega
  refine ⟨data.drop m.length, hsplit, ?_, ?_, fun hextra b => ?_⟩
  · rw [hsplit, List.append_assoc, List.append_cancel_left_eq] at hstream
    exact hstream
  · rw [hnil]
    constructor
    · intro heq
      rw [← heq, hshift _ (Nat.le_refl _)]
      exact self_mem_bounds _ _
    · intro hmem
      have hreached : first.length ≤ 4 + m.length := (hfirst.first _ hmem).resolve_left (by omega)
      have hmem' : 4 + m.length ∈ bounds first.length socket₁ := (hfirst.bounds _ hreached).mp hmem
      rw [Nat.add_comm 4, ← Nat.sub_add_cancel h4, mem_bounds_add, ← List.length_drop] at hmem'
      exact Nat.le_antisymm ((hdata.first _ hmem').resolve_left (Nat.lt_irrefl _)) hlen
  · rw [hnil] at hextra
    rw [Nat.add_assoc, hshift _ (by omega), hextra, Nat.add_comm m.length b]
    have hzero := @mem_bounds_add 0 m.length b socket'
    rwa [Nat.zero_add] at hzero

/-! ## What is made of the data -/

/-- `__poll_request` once it has received the data. -/
def pollData (o : ByteOrder) (external : Bool) (data : List UInt8) (api : API) : API × Except Fault Next :=
  if data = [] then (api, .ok (.bool false)) else interpret o data external 0 api

/-- What `n` times the data that was received is made of, until the service ends. `external` is that of the first
call, `later` that of the ones after it. -/
def polls (o : ByteOrder) (fuel : Nat) (later : Bool) : Nat → Bool → API → List (List UInt8) →
    List (API × Except Fault Next)
  | 0, _, _, _ => []
  | n + 1, external, api, socket =>
    if api.terminate then []
    else
      match recv fuel socket with
      | none => []
      | some (data, socket) =>
        let r := pollData o external data api
        r :: polls o fuel later n later r.1 socket

/-- What each message on its own is made of. -/
def interpretations (o : ByteOrder) (later : Bool) : List (List UInt8) → Bool → API → List (API × Except Fault Next)
  | [], _, _ => []
  | m :: ms, external, api =>
    if api.terminate then []
    else
      let r := pollData o external m api
      r :: interpretations o later ms later r.1

/-- Each message ends with a fragment, up to the end of the service. -/
def Whole (o : ByteOrder) : Nat → List (List UInt8) → List Nat → Prop
  | _, [], _ => True
  | p, m :: ms, bs => m = terminateOut o ∨ p + (4 + m.length) ∈ bs ∧ Whole o (p + (4 + m.length)) ms bs

/-- The bytes of an event. -/
def IsEvent (o : ByteOrder) (e : List UInt8) : Prop := ∃ event : Event, event.out o = .ok e

/-- A message that the thread waits for (`external = False`), or a request (`external = True`). -/
def IsMessage (o : ByteOrder) (external : Bool) (data : List UInt8) : Prop :=
  ∃ m : Message, m.out o = .ok data ∧ (external = true ↔ ∃ sync x, m.content = .request sync x)

variable {o : ByteOrder} {external : Bool} {data extra : List UInt8} {api : API} {i j : Nat}

theorem length_event {e : List UInt8} (h : IsEvent o e) : e.length = 4 ∨ e.length = 18 := by
  obtain ⟨event, h⟩ := h
  cases event with
  | reinit m =>
    rw [(reinitOut_ok h).1, reinitFields]
    exact .inr (by simp only [List.length_append, ByteOrder.length_bytes, booleanField])
  | keepalive =>
    rw [← Except.ok.inj h]
    exact .inl (o.length_bytes 4 8)
  | terminate =>
    rw [← Except.ok.inj h]
    exact .inl (o.length_bytes 4 11)

/-- What comes with the last bytes of a message: at least one byte, and the length of an event before the others. -/
def Overrun (o : ByteOrder) (extra : List UInt8) : Prop :=
  extra ≠ [] ∧ (extra.length < 4 ∨
    ∃ n, unpack o [.I] (extra.take 4) = .ok (n, ()) ∧ n ∈ [(4 : Int), 18, 67108864, 301989888])

theorem overrun_of_framed {es : List (List UInt8)} (hes : ∀ e ∈ es, IsEvent o e) {rest : List UInt8}
    (h : extra ++ rest = framed es) (hne : extra ≠ []) : Overrun o extra := by
  refine ⟨hne, (Nat.lt_or_ge extra.length 4).imp_right fun h4 => ?_⟩
  cases es with
  | nil => exact absurd (List.append_eq_nil_iff.mp h).1 hne
  | cons e es =>
    have htake : extra.take 4 = be 4 e.length := by
      rw [← List.take_append_of_le_length h4, h, framed, take_frame]
    rw [htake]
    rcases length_event (hes e List.mem_cons_self) with hlen | hlen <;> rw [hlen] <;> cases o
    · exact ⟨4, rfl, by decide⟩
    · exact ⟨67108864, rfl, by decide⟩
    · exact ⟨18, rfl, by decide⟩
    · exact ⟨301989888, rfl, by decide⟩

/-- The errors that there are for bytes that are no message. -/
def Undecoded (r : Except Fault Next) : Prop := r = .error .structError ∨ r = .error .messageDecodingException

theorem sliceTo_take (h : At data j extra) : sliceTo data j (j + 4) = extra.take 4 := by
  rw [sliceTo, List.drop_take, h.drop, Nat.add_sub_cancel_left]

theorem unpack_short (h : extra.length < 4) : unpack o [.I] (extra.take 4) = .error .structError := by
  rw [unpack, if_neg]
  rintro ⟨-, hlen⟩
  rw [List.length_take] at hlen
  simp only [List.map_cons, Format.size, List.map_nil, List.sum_cons, List.sum_nil] at hlen
  omega

theorem event_error {n : Int} (h : n ∈ [(4 : Int), 18, 67108864, 301989888]) :
    event o data n j api = .error .messageDecodingException := by
  have hne : n ≠ 9 ∧ n ≠ 8 := by
    constructor <;> rintro rfl <;> revert h <;> decide
  rw [event, if_neg hne.1, if_neg hne.2]

/-- The events are not found in what comes with the message. -/
theorem handleEventsFrom_overrun (h : At data j extra) (hover : Overrun o extra) :
    ∃ e, handleEventsFrom o data external j api = (api, .error e) ∧
      (e = .structError ∨ e = .messageDecodingException) := by
  have hlen := h.length
  rw [handleEventsFrom, if_neg (by omega), sliceTo_take h]
  rcases hover.2 with hshort | ⟨n, hn, hmem⟩
  · rw [unpack_short hshort]
    exact ⟨_, rfl, .inl rfl⟩
  · rw [hn]
    have hne : n ≠ 11 := by
      rintro rfl
      revert hmem
      decide
    simp only
    rw [handleEvents.eq_def, if_neg hne]
    split
    · rename_i e he
      rw [event_error hmem] at he
      cases he
      exact ⟨_, rfl, .inr rfl⟩
    · rename_i he
      rw [event_error hmem] at he
      cases he

theorem decodeUtf8_fault {l : List UInt8} {e : Fault} (h : decodeUtf8 l = .error e) : e = .unicodeDecodeError := by
  unfold decodeUtf8 at h
  split at h
  · cases h
  · exact (Except.error.inj h).symm

theorem binaryToTerm_fault {l : List UInt8} {e : Fault} (h : binaryToTerm l = .error e) : e = .parseException := by
  unfold binaryToTerm at h
  split at h
  · exact (Except.error.inj h).symm
  · split at h
    · exact (Except.error.inj h).symm
    · simp only at h
      split at h
      · exact (Except.error.inj h).symm
      · cases h

theorem callOf_fault {command timeout priority : Int} {name pattern requestInfo request transId pid : List UInt8}
    {e : Fault} (h : callOf command name pattern requestInfo request timeout priority transId pid = .error e) :
    e = .unicodeDecodeError ∨ e = .parseException := by
  unfold callOf at h
  cases hname : decodeUtf8 name with
  | error f =>
    rw [hname] at h
    exact .inl ((Except.error.inj h).symm.trans (decodeUtf8_fault hname))
  | ok name =>
    cases hpattern : decodeUtf8 pattern with
    | error f =>
      rw [hname, hpattern] at h
      exact .inl ((Except.error.inj h).symm.trans (decodeUtf8_fault hpattern))
    | ok pattern =>
      cases hpid : binaryToTerm pid with
      | error f =>
        rw [hname, hpattern, hpid] at h
        exact .inr ((Except.error.inj h).symm.trans (binaryToTerm_fault hpid))
      | ok pid =>
        rw [hname, hpattern, hpid] at h
        cases h

/-- The fields of a message are not mistaken for bytes that are no message. -/
theorem finish_decoded (command : Int) (fields : Fields) : ¬Undecoded (finish command api fields).2 := by
  rintro (h | h) <;> cases fields with
  | init _ _ _ _ namePrefix =>
    cases hname : decodeUtf8 namePrefix with
    | error e =>
      simp only [finish, hname, Except.map, decodeUtf8_fault hname, Except.error.injEq, reduceCtorEq] at h
    | ok s => simp only [finish, hname, Except.map, reduceCtorEq] at h
  | request name pattern requestInfo request timeout priority transId pid =>
    cases hcall : callOf command name pattern requestInfo request timeout priority transId pid with
    | error e =>
      rcases callOf_fault hcall with rfl | rfl <;>
        simp only [finish, hcall, Except.error.injEq, reduceCtorEq] at h
    | ok call => simp only [finish, hcall, reduceCtorEq] at h
  | _ => simp only [finish, reduceCtorEq] at h

/-- A message with fields, after which there is more than the events. -/
theorem interpret_overrun_fields {n : Int} {body : List UInt8} {fields : Fields}
    (h : At data 0 (o.bytes 4 n ++ body)) (hn : n % 4294967296 = n) (hevent : n ≠ 8 ∧ n ≠ 9 ∧ n ≠ 11)
    (hexternal : external = true ↔ n = 2 ∨ n = 3) (hend : At data j extra) (hover : Overrun o extra)
    (hd : decode o data n 4 = .ok (fields, j)) : Undecoded (interpret o data external 0 api).2 := by
  have hlen := hend.length
  have hpos := List.length_pos_iff.mpr hover.1
  have hslice : sliceTo data 0 (0 + 4) = o.bytes 4 n := sliceTo_at h (by rw [ByteOrder.length_bytes])
  obtain ⟨e, he, hor⟩ := @handleEventsFrom_overrun o external data extra api j hend hover
  have hsame : (external != decide (n = 2 ∨ n = 3)) = false := by
    cases external <;> simp_all
  rw [interpret.eq_def, hslice, unpack_number, hn]
  simp only
  rw [if_neg hevent.2.2, if_neg (not_or.mpr ⟨hevent.1, hevent.2.1⟩), Nat.zero_add, hd]
  simp only [trailing]
  rw [if_neg (by omega), hsame, if_neg (by decide), he]
  exact hor.imp (fun h => congrArg _ h) (fun h => congrArg _ h)

theorem decodeResponse_response {fields : Fields} (h : decodeResponse o data i = .ok (fields, j)) :
    ∃ responseInfo response transId, fields = .response responseInfo response transId := by
  obtain ⟨_, -, h⟩ := bind_eq_ok h
  obtain ⟨_, -, h⟩ := bind_eq_ok h
  obtain ⟨_, -, h⟩ := bind_eq_ok h
  exact ⟨_, _, _, (Prod.mk.inj (Except.ok.inj h)).1.symm⟩

/-- What comes with the last bytes of an event is not taken for another event. -/
theorem interpret_overrun (h : At data i extra) (hover : Overrun o extra) :
    (interpret o data external i api).2 ≠ .ok .receive := by
  rw [interpret.eq_def, sliceTo_take h]
  rcases hover.2 with hshort | ⟨n, hn, hmem⟩
  · rw [unpack_short hshort]
    exact fun h => by cases h
  · have hne : n ≠ 11 ∧ ¬(n = 8 ∨ n = 9) := by
      constructor
      · rintro rfl
        revert hmem
        decide
      · rintro (rfl | rfl) <;> revert hmem <;> decide
    rw [hn]
    simp only
    rw [if_neg hne.1, if_neg hne.2]
    cases hd : decode o data n (i + 4) with
    | error e => exact fun h => by cases h
    | ok r =>
      obtain ⟨fields, j⟩ := r
      have h4 : n = 4 := by
        simp only [List.mem_cons, List.not_mem_nil, or_false] at hmem
        rcases hmem with rfl | hmem
        · rfl
        · have hunknown : decode o data n (i + 4) = .error .messageDecodingException := by
            rcases hmem with rfl | rfl | rfl <;> rfl
          rw [hunknown] at hd
          cases hd
      subst h4
      obtain ⟨responseInfo, response, transId, rfl⟩ := decodeResponse_response hd
      simp only
      split
      · exact fun h => by cases h
      · split
        · exact fun h => by cases h
        · exact fun h => by cases h

/-- A message is its number and its fields, wherever it ends. -/
structure Numbered (o : ByteOrder) (request : Prop) (m : List UInt8) (n : Int) (body : List UInt8)
    (fields : Fields) : Prop where
  bytes : m = o.bytes 4 n ++ body
  number : n % 4294967296 = n
  event : n ≠ 8 ∧ n ≠ 9 ∧ n ≠ 11
  request : request ↔ n = 2 ∨ n = 3
  decode : ∀ extra, ∃ j, At (m ++ extra) j extra ∧ decode o (m ++ extra) n 4 = .ok (fields, j)

/-- Where the fields of a message are, with more after them. -/
theorem at_body {n : Int} {body : List UInt8} (h : data = o.bytes 4 n ++ body) (extra : List UInt8) :
    At (data ++ extra) 4 (body ++ extra) := by
  subst h
  have h0 := At.start (o.bytes 4 n ++ body ++ extra)
  rw [List.append_assoc] at h0 ⊢
  exact h0.next (by rw [ByteOrder.length_bytes])

theorem numbered_response {n : Int} (hn : n = 4 ∨ n = 6) {responseInfo response : List UInt8} {transId : TransId}
    (hdata : data = o.bytes 4 n ++ responseFields o responseInfo response transId)
    (hinfo : responseInfo.length < 4294967296) (hresponse : response.length < 4294967296) :
    Numbered o False data n (responseFields o responseInfo response transId)
      (.response responseInfo response transId.1) := by
  refine ⟨hdata, by omega, by omega, iff_of_false id (by omega), fun extra => ?_⟩
  obtain ⟨j, hj, hd⟩ := decodeResponse_at responseInfo response transId hinfo hresponse (at_body hdata extra)
  refine ⟨j, hj, ?_⟩
  rw [← hd]
  rcases hn with rfl | rfl <;> rfl

theorem numbered_transIds {transIds : List TransId}
    (hdata : data = o.bytes 4 7 ++ (o.bytes 4 transIds.length ++ (transIds.map Subtype.val).flatten))
    (hcount : transIds.length < 4294967296) :
    Numbered o False data 7 (o.bytes 4 transIds.length ++ (transIds.map Subtype.val).flatten)
      (.transIds (transIds.map Subtype.val)) := by
  refine ⟨hdata, by decide, by decide, by decide, fun extra => ?_⟩
  exact decodeTransIds_at transIds hcount (by simpa only [List.append_assoc] using at_body hdata extra)

theorem numbered_request {n : Int} (hn : n = 2 ∨ n = 3) {m : Send} (hm : sendOut o n m = .ok data) :
    Numbered o True data n (sendFields o m) (.request m.name m.pattern m.requestInfo m.request
      (m.timeout % 4294967296) (o.signed (o.bytes 1 m.priority)) m.transId.1 m.source.termToBinary) := by
  obtain ⟨hdata, hsize⟩ := sendOut_ok hm
  refine ⟨hdata, by omega, by omega, (iff_of_true trivial hn), fun extra => ?_⟩
  obtain ⟨j, hj, hd⟩ := decodeSend_at m hsize (at_body hdata extra)
  refine ⟨j, hj, ?_⟩
  rw [← hd]
  rcases hn with rfl | rfl <;> rfl

/-- A message that is no event. -/
theorem numbered_of_message {m : Message} (h : m.out o = .ok data) (hreinit : ∀ x, m ≠ .reinit x) :
    ∃ n body fields, Numbered o (∃ sync x, m.content = .request sync x) data n body fields := by
  have hnot : ∀ {c : Content}, (∀ sync x, c ≠ .request sync x) → ((∃ sync x, c = .request sync x) ↔ False) :=
    fun hc => iff_of_false (by rintro ⟨sync, x, h⟩; exact hc sync x h) id
  have hresponse : ∀ {c : Content} {n : Int} {body : List UInt8} {fields : Fields},
      Numbered o False data n body fields → (∀ sync x, c ≠ .request sync x) →
      ∃ n body fields, Numbered o (∃ sync x, c = .request sync x) data n body fields := by
    intro c n body fields hnum hc
    exact ⟨n, body, fields, hnum.bytes, hnum.number, hnum.event, (hnot hc).trans hnum.request, hnum.decode⟩
  cases m with
  | init m =>
    obtain ⟨hdata, hsize, -⟩ := initOut_ok h
    refine ⟨1, _, _, hdata, by decide, by decide, ?_, fun extra => decodeInit_at m hsize (at_body hdata extra)⟩
    exact (hnot fun _ _ h => by cases h).trans (by decide)
  | reinit m => exact absurd rfl (hreinit m)
  | sendAsync m =>
    have hnum := numbered_request (.inl rfl) h
    exact ⟨2, _, _, hnum.bytes, hnum.number, hnum.event, iff_of_true ⟨false, m, rfl⟩ (.inl rfl), hnum.decode⟩
  | sendSync m =>
    have hnum := numbered_request (.inr rfl) h
    exact ⟨3, _, _, hnum.bytes, hnum.number, hnum.event, iff_of_true ⟨true, m, rfl⟩ (.inr rfl), hnum.decode⟩
  | returnAsync transId =>
    have hdata : data = o.bytes 4 5 ++ (transId.getD noTransId).1 := (Except.ok.inj h).symm
    refine ⟨5, _, .transId (transId.getD noTransId).1, hdata, by decide, by decide, ?_, fun extra => ?_⟩
    · exact (hnot fun _ _ h => by cases h).trans (by decide)
    · have h4 := at_body hdata extra
      refine ⟨4 + 16, h4.next (by rw [(transId.getD noTransId).2]), ?_⟩
      rw [← sliceTo_at h4 (j := 4 + 16) (by rw [(transId.getD noTransId).2])]
      rfl
  | returnSyncTimeout transId =>
    have hdata := (Except.ok.inj h).symm.trans (timeoutOut_eq o 6 _)
    exact hresponse (numbered_response (.inr rfl) hdata (by decide) (by decide)) fun _ _ h => by cases h
  | returnSync responseInfo response transId =>
    obtain ⟨hdata, hinfo, hlen⟩ := responseOut_ok h
    exact hresponse (numbered_response (.inr rfl) hdata hinfo hlen) fun _ _ h => by cases h
  | returnsAsyncNone =>
    have hdata : data = o.bytes 4 7 ++ (o.bytes 4 ([] : List TransId).length ++
        (([] : List TransId).map Subtype.val).flatten) := by
      rw [← Except.ok.inj h, returnsAsyncNoneOut, List.map_nil, List.flatten_nil, List.append_nil]
      rfl
    exact hresponse (numbered_transIds hdata (by decide)) fun _ _ h => by cases h
  | returnsAsync transIds =>
    obtain ⟨hdata, hcount⟩ := returnsAsyncOut_ok h
    exact hresponse (numbered_transIds hdata hcount) fun _ _ h => by cases h
  | recvAsyncTimeout transId =>
    have hdata := (Except.ok.inj h).symm.trans (timeoutOut_eq o 4 _)
    exact hresponse (numbered_response (.inl rfl) hdata (by decide) (by decide)) fun _ _ h => by cases h
  | recvAsync responseInfo response transId =>
    obtain ⟨hdata, hinfo, hlen⟩ := responseOut_ok h
    exact hresponse (numbered_response (.inl rfl) hdata hinfo hlen) fun _ _ h => by cases h
  | subscribeCount count =>
    obtain ⟨hdata, hlow, hhigh⟩ := subscribeCountOut_ok h
    refine ⟨10, _, .count count, hdata, by decide, by decide, ?_, fun extra => ?_⟩
    · exact (hnot fun _ _ h => by cases h).trans (by decide)
    · obtain ⟨j, hj, hd⟩ := decodeCount_at count (at_body hdata extra)
      rw [mod_eq_iff.mpr ⟨hlow, hhigh⟩] at hd
      exact ⟨j, hj, hd⟩

/-- What is interpreted of a message on its own, and that it is not what is interpreted when more comes with it. -/
structure Alone (o : ByteOrder) (external : Bool) (m : List UInt8) (api : API) : Prop where
  ne : m ≠ []
  terminate : (pollData o external m api).1.terminate = api.terminate
  overrun : ∀ extra, Overrun o extra → pollData o external (m ++ extra) api ≠ pollData o external m api

theorem ne_nil_of_bytes {n : Int} {body m : List UInt8} (h : m = o.bytes 4 n ++ body) : m ≠ [] := by
  rintro rfl
  have hlen := congrArg List.length h
  rw [List.length_append, ByteOrder.length_bytes, List.length_nil] at hlen
  omega

theorem pollData_of_ne (h : data ≠ []) : pollData o external data api = interpret o data external 0 api := by
  rw [pollData, if_neg h]

theorem finish_terminate (command : Int) (fields : Fields) :
    (finish command api fields).1.terminate = api.terminate := by
  cases fields with
  | request => rw [finish]; split <;> rfl
  | _ => rfl

theorem Numbered.alone {request : Prop} {m body : List UInt8} {n : Int} {fields : Fields}
    (h : Numbered o request m n body fields) (hexternal : external = true ↔ request) : Alone o external m api := by
  have hne := ne_nil_of_bytes h.bytes
  obtain ⟨j, hj, hd⟩ := h.decode []
  rw [List.append_nil] at hj hd
  have hm : pollData o external m api = finish n api fields := by
    rw [pollData_of_ne hne]
    exact interpret_fields ⟨Nat.zero_le _, h.bytes⟩ h.number h.event hj hd
  refine ⟨hne, by rw [hm, finish_terminate], fun extra hover heq => ?_⟩
  obtain ⟨k, hk, hdk⟩ := h.decode extra
  have h0 : At (m ++ extra) 0 (o.bytes 4 n ++ (body ++ extra)) :=
    ⟨Nat.zero_le _, by rw [h.bytes, List.append_assoc]; rfl⟩
  have hbad := @interpret_overrun_fields o external (m ++ extra) extra api k n _ fields h0 h.number h.event
    (hexternal.trans h.request) hk hover hdk
  rw [← pollData_of_ne (List.append_ne_nil_of_left_ne_nil hne extra), heq, hm] at hbad
  exact finish_decoded n fields hbad

/-- An event that is no `terminate`. -/
theorem alone_of_event {e : List UInt8} (h : IsEvent o e) (hterm : e ≠ terminateOut o) : Alone o external e api := by
  obtain ⟨n, body, api', hbytes, hn, hterminate, hevent⟩ : ∃ n body api', e = o.bytes 4 n ++ body ∧ (n = 8 ∨ n = 9) ∧
      api'.terminate = api.terminate ∧
      ∀ extra, ∃ j, At (e ++ extra) j extra ∧ event o (e ++ extra) n 4 api = .ok (api', j) := by
    obtain ⟨ev, h⟩ := h
    cases ev with
    | reinit m =>
      obtain ⟨hdata, -⟩ := reinitOut_ok h
      exact ⟨9, _, reinitialized o m api, hdata, .inr rfl, rfl, fun extra =>
        ⟨_, event_reinit m api (at_body hdata extra)⟩⟩
    | keepalive =>
      have hdata : e = o.bytes 4 8 ++ [] := by rw [List.append_nil]; exact (Except.ok.inj h).symm
      exact ⟨8, _, { api with effects := api.effects ++ [.keepalive] }, hdata, .inl rfl, rfl, fun extra =>
        ⟨_, at_body hdata extra, rfl⟩⟩
    | terminate => exact absurd (Except.ok.inj h).symm hterm
  have hne := ne_nil_of_bytes hbytes
  have hat : ∀ extra, At (e ++ extra) 0 (o.bytes 4 n ++ (body ++ extra)) := fun extra =>
    ⟨Nat.zero_le _, by rw [hbytes, List.append_assoc]; rfl⟩
  obtain ⟨j, hj, hd⟩ := hevent []
  have hm : pollData o external e api = (api', .ok .receive) := by
    have hlen : j = (e ++ []).length := by rw [hj.length]; rfl
    have hi := @interpret_event o (e ++ []) _ 0 n j external api api' (hat []) hn hd
    rw [if_pos hlen, List.append_nil] at hi
    rw [pollData_of_ne hne, hi]
  refine ⟨hne, by rw [hm, hterminate], fun extra hover heq => ?_⟩
  obtain ⟨k, hk, hdk⟩ := hevent extra
  have hlen := hk.length
  have hpos := List.length_pos_iff.mpr hover.1
  have hi := @interpret_event o (e ++ extra) _ 0 n k external api api' (hat extra) hn hdk
  rw [if_neg (by omega), if_pos (by omega)] at hi
  rw [pollData_of_ne (List.append_ne_nil_of_left_ne_nil hne extra), hi, hm] at heq
  exact interpret_overrun hk hover (congrArg Prod.snd heq)

theorem alone_of_message {m : List UInt8} (h : IsMessage o external m) (hterm : m ≠ terminateOut o) :
    Alone o external m api := by
  obtain ⟨message, hm, hexternal⟩ := h
  by_cases hreinit : ∃ x, message = .reinit x
  · obtain ⟨x, rfl⟩ := hreinit
    exact alone_of_event ⟨.reinit x, hm⟩ hterm
  · obtain ⟨n, body, fields, hnum⟩ := numbered_of_message hm fun x hx => hreinit ⟨x, hx⟩
    exact hnum.alone hexternal

/-- The end of the service, with any bytes after it. -/
theorem pollData_terminate (extra : List UInt8) :
    pollData o external (terminateOut o ++ extra) api = pollData o external (terminateOut o) api ∧
      (pollData o external (terminateOut o) api).1.terminate = true := by
  have hinterpret : ∀ extra, pollData o external (terminateOut o ++ extra) api =
      ({ api with terminate := true },
        if external then .ok (.bool false) else .error (.terminateException api.timeoutTerminate)) := by
    intro extra
    have hne : terminateOut o ++ extra ≠ [] :=
      List.append_ne_nil_of_left_ne_nil (ne_nil_of_bytes (List.append_nil _).symm) extra
    have hslice : sliceTo (terminateOut o ++ extra) 0 (0 + 4) = o.bytes 4 11 :=
      sliceTo_at (At.start (o.bytes 4 11 ++ extra)) (by rw [ByteOrder.length_bytes])
    rw [pollData_of_ne hne, interpret.eq_def, hslice, unpack_number]
    simp only
    rw [if_pos (by decide), handleEvents.eq_def, if_pos (by decide)]
    cases external <;> rfl
  have hnil := hinterpret []
  rw [List.append_nil] at hnil
  rw [hinterpret, hnil]
  exact ⟨rfl, rfl⟩

/-! ## The stream -/

theorem whole_shift {p q : Nat} {ms : List (List UInt8)} {bs bs' : List Nat} (h : ∀ b, q + b ∈ bs ↔ b ∈ bs') :
    Whole o (q + p) ms bs ↔ Whole o p ms bs' := by
  induction ms generalizing p with
  | nil => exact Iff.rfl
  | cons m ms ih =>
    simp only [Whole]
    rw [Nat.add_assoc, h, ih]

theorem polls_terminated {fuel n : Nat} {later : Bool} {socket : List (List UInt8)} (h : api.terminate = true) :
    polls o fuel later n external api socket = [] := by
  cases n with
  | zero => rfl
  | succ n => rw [polls, if_pos h]

theorem interpretations_terminated {later : Bool} {ms : List (List UInt8)} (h : api.terminate = true) :
    interpretations o later ms external api = [] := by
  cases ms with
  | nil => rfl
  | cons m ms => rw [interpretations, if_pos h]

theorem recv_length {fuel : Nat} (h : recv fuel socket = some (data, socket')) :
    socket'.length ≤ socket.length := by
  obtain ⟨first, socket₁, hfirst, hdata⟩ := recv_filled h
  exact Nat.le_trans hdata.length hfirst.length

/-- The messages are interpreted in order, each on its own, exactly when each ends with a fragment. -/
theorem polls_iff_of_alone {later : Bool} {ms : List (List UInt8)} {socket : List (List UInt8)}
    (hlen : ∀ m ∈ ms, m.length < 256 ^ 4) (hs : socket.flatten = framed ms) (hterm : api.terminate = false)
    (hfirst : ∀ m ∈ ms.head?, m ≠ terminateOut o → ∀ api, Alone o external m api)
    (hevents : ∀ e ∈ ms.tail, IsEvent o e) :
    (Whole o 0 ms (bounds 0 socket) → ∀ fuel, socket.length < fuel →
      polls o fuel later ms.length external api socket = interpretations o later ms external api) ∧
    ∀ fuel, polls o fuel later ms.length external api socket = interpretations o later ms external api →
      Whole o 0 ms (bounds 0 socket) := by
  induction ms generalizing api external socket with
  | nil => exact ⟨fun _ _ _ => rfl, fun _ _ => trivial⟩
  | cons m ms ih =>
    have hm := hlen m List.mem_cons_self
    rw [framed] at hs
    have hcomplete : Complete socket.flatten := by
      rw [hs]
      refine ⟨by rw [List.length_append, length_frame]; omega, ?_⟩
      rw [take_frame, ofBe_be_of_lt hm, List.length_append, length_frame]
      omega
    have hfalse : ¬api.terminate = true := by rw [hterm]; decide
    rw [interpretations, if_neg hfalse]
    -- what is received after the message
    have hnext : ∀ {socket' : List (List UInt8)} {api' : API}, api'.terminate = false → socket'.flatten = framed ms →
        (Whole o 0 ms (bounds 0 socket') → ∀ fuel, socket'.length < fuel →
          polls o fuel later ms.length later api' socket' = interpretations o later ms later api') ∧
        ∀ fuel, polls o fuel later ms.length later api' socket' = interpretations o later ms later api' →
          Whole o 0 ms (bounds 0 socket') := fun hterm' hs' =>
      ih (fun m' hm' => hlen m' (List.mem_cons_of_mem _ hm')) hs' hterm'
        (fun e he hne api => alone_of_event (hevents e (List.mem_of_mem_head? he)) hne)
        (fun e he => hevents e (List.mem_of_mem_tail he))
    constructor
    · intro hwhole fuel hfuel
      obtain ⟨⟨data, socket'⟩, hr⟩ := Option.isSome_iff_exists.mp (recv_ends hcomplete hfuel)
      obtain ⟨extra, rfl, hrest, hextra, hshift⟩ := recv_frame hm hs hr
      rw [List.length_cons, polls, if_neg hfalse, hr]
      simp only
      by_cases hend : m = terminateOut o
      · subst hend
        obtain ⟨hsame, hdone⟩ := @pollData_terminate o external api extra
        rw [hsame, polls_terminated hdone, interpretations_terminated hdone]
      · obtain ⟨hbound, hwhole⟩ := hwhole.resolve_left hend
        rw [Nat.zero_add] at hbound hwhole
        obtain rfl := hextra.mpr hbound
        have halone := hfirst m rfl hend api
        rw [List.append_nil, (hnext (halone.terminate.trans hterm) hrest).1 ?_ fuel
          (Nat.lt_of_le_of_lt (recv_length hr) hfuel)]
        exact (whole_shift (p := 0) (hshift rfl)).mp hwhole
    · intro fuel heq
      rw [Whole]
      refine Classical.or_iff_not_imp_left.mpr fun hend => ?_
      have halone := hfirst m rfl hend api
      rw [List.length_cons, polls, if_neg hfalse] at heq
      cases hr : recv fuel socket with
      | none => rw [hr] at heq; cases heq
      | some r =>
        obtain ⟨data, socket'⟩ := r
        obtain ⟨extra, rfl, hrest, hextra, hshift⟩ := recv_frame hm hs hr
        rw [hr] at heq
        simp only [List.cons.injEq] at heq
        have hnil : extra = [] := by
          by_contra hne
          exact halone.overrun extra (overrun_of_framed hevents hrest hne) heq.1
        rw [Nat.zero_add]
        refine ⟨hextra.mp hnil, (whole_shift (p := 0) (hshift hnil)).mpr ?_⟩
        subst hnil
        rw [List.append_nil] at heq
        exact (hnext (halone.terminate.trans hterm) hrest).2 fuel heq.2

/-- The messages in flight are interpreted in order, each on its own, exactly when each message up to the end of the
service ends with a fragment; and `__recv` returns exactly when there is a whole message before the end of the
connection. -/
theorem polls_recv_iff (o : ByteOrder) (external later : Bool) (first : List UInt8) (events : List (List UInt8))
    (messages socket : List (List UInt8)) (api : API) (hfirst : IsMessage o external first)
    (hlen : first.length < 256 ^ 4) (hevents : ∀ e ∈ events, IsEvent o e)
    (hmessages : messages.flatten = framed (first :: events)) (hterm : api.terminate = false) :
    (∃ fuel, polls o fuel later (events.length + 1) external api messages =
        interpretations o later (first :: events) external api) ∧
      (∃ fuel, (recv fuel socket).isSome) ↔
    Whole o 0 (first :: events) (bounds 0 messages) ∧ Complete socket.flatten := by
  have hlens : ∀ m ∈ first :: events, m.length < 256 ^ 4 := by
    intro m hm
    rcases List.mem_cons.mp hm with rfl | hm
    · exact hlen
    · rcases length_event (hevents m hm) with h | h <;> rw [h] <;> decide
  obtain ⟨hto, hof⟩ := @polls_iff_of_alone o external api later (first :: events) messages hlens hmessages hterm
    (fun m hm hne api => by cases hm; exact alone_of_message hfirst hne) hevents
  rw [recv_returns_iff]
  refine and_congr_left fun _ => ⟨fun h => ?_, fun h => ⟨messages.length + 1, hto h _ (Nat.lt_succ_self _)⟩⟩
  obtain ⟨fuel, h⟩ := h
  exact hof fuel h

/-- A response without a request, and a `keepalive` message in the next fragment. -/
theorem polls_recv_two : (∃ fuel, polls .little fuel false 2 false ⟨0, 1, 1, 1, "", 0, 0, 0, 0, 0, false, false, []⟩
      [[0, 0, 0], 20 :: 5 :: List.replicate 19 0, [0, 0, 0, 4, 8, 0, 0, 0]] =
        interpretations .little false [5 :: List.replicate 19 0, [8, 0, 0, 0]] false
          ⟨0, 1, 1, 1, "", 0, 0, 0, 0, 0, false, false, []⟩) ∧
    ∃ fuel, (recv fuel [[0, 0], [0, 1, 7]]).isSome := by
  refine (polls_recv_iff .little false false (5 :: List.replicate 19 0) [[8, 0, 0, 0]]
    [[0, 0, 0], 20 :: 5 :: List.replicate 19 0, [0, 0, 0, 4, 8, 0, 0, 0]] [[0, 0], [0, 1, 7]] _
    ⟨.returnAsync none, rfl, ?_⟩ (by decide) ?_ rfl rfl).mpr ⟨?_, by simp only [Complete]; decide⟩
  · exact iff_of_false (by decide) (by rintro ⟨sync, x, h⟩; cases h)
  · intro e he
    obtain rfl := List.mem_singleton.mp he
    exact ⟨.keepalive, rfl⟩
  · exact .inr ⟨by decide, .inr ⟨by decide, trivial⟩⟩

/-- The `keepalive` message comes with the response, and its length is taken for its number. At the end of the
connection `__recv` does not return. -/
theorem polls_recv_coalesced : (¬∃ fuel, polls .little fuel false 2 false
      ⟨0, 1, 1, 1, "", 0, 0, 0, 0, 0, false, false, []⟩
      [0 :: 0 :: 0 :: 20 :: 5 :: List.replicate 19 0 ++ [0, 0, 0, 4, 8, 0, 0, 0]] =
        interpretations .little false [5 :: List.replicate 19 0, [8, 0, 0, 0]] false
          ⟨0, 1, 1, 1, "", 0, 0, 0, 0, 0, false, false, []⟩) ∧
    ¬∃ fuel, (recv fuel []).isSome := by
  constructor
  · rintro ⟨fuel, h⟩
    have hfirst : IsMessage .little false (5 :: List.replicate 19 0) :=
      ⟨.returnAsync none, rfl, iff_of_false (by decide) (by rintro ⟨sync, x, h⟩; cases h)⟩
    have hevents : ∀ e ∈ [[8, 0, 0, 0]], IsEvent .little e := by
      intro e he
      obtain rfl := List.mem_singleton.mp he
      exact ⟨.keepalive, rfl⟩
    have hwhole := (@polls_iff_of_alone .little false _ false [5 :: List.replicate 19 0, [8, 0, 0, 0]] _
      (by decide) rfl rfl (fun m hm hne api => by cases hm; exact alone_of_message hfirst hne) hevents).2 fuel h
    have hbound := (hwhole.resolve_left (by decide)).1
    revert hbound
    decide
  · rw [recv_returns_iff]
    exact fun h => absurd h.1 (by decide)

end CloudI.Api.Python
