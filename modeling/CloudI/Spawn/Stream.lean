import CloudI.Framework.Run
import CloudI.Framework.Exn

/-!
# Output capture of `cloudi_os_spawn`

`consume_stream` of `port.cpp` over the buffer `realloc_ptr`: what a child
writes is read into the buffer, and the lines that are complete go to Erlang.

The pipe is the list of bytes the child writes. A call takes, for each `read`,
how many of them it hands over at most, whether `realloc` finds memory and
whether `poll` finds more, so every way the output is split is one list of
calls. The memory of the buffer is a function, and what was never written is
what the function happens to be.

* `readLoop_reads`, `readLoop_counts_twice`: the loop appends what it reads,
  except where it ends after the buffer grew and `poll` found nothing: then
  the last read is counted twice;
* `sendLines_delivered`: sending moves bytes from the buffer to Erlang;
* `captured_iff`: the bytes sent and kept are the bytes read exactly when no
  call ends its loop so and none starts with a full buffer.
-/

namespace CloudI.Spawn

/-! ## The buffer -/

/-- `assert(i < m_size)` of `operator []` fails. -/
structure BoundAssertion where
  i : Nat
  m_size : Nat
deriving DecidableEq, Repr

/-- `realloc_ptr`: `m_size` elements of the memory `m_p` are allocated. -/
structure ReallocPtr (α : Type) where
  m_size : Nat
  m_maxSize : Nat
  m_p : Nat → α
  m_size_pos : 0 < m_size

/-- The least power of two from `n` on. -/
def greaterPow2 (n : Nat) : Nat :=
  if 1 <<< n.log2 = n then 1 <<< n.log2 else (1 <<< n.log2) <<< 1

theorem greaterPow2_pos (n : Nat) : 0 < greaterPow2 n := by
  have hpos := Nat.two_pow_pos n.log2
  simp only [greaterPow2, Nat.one_shiftLeft, Nat.shiftLeft_succ, Nat.shiftLeft_zero]
  split <;> omega

/-- The doublings of `reserve`, from the size `newSize` up. -/
def reserveSize (size newSize : Nat) (h : 0 < newSize) : Nat :=
  if size < newSize then newSize else reserveSize size (newSize * 2) (by omega)
termination_by size + 1 - newSize

theorem le_reserveSize (size newSize : Nat) (h : 0 < newSize) :
    newSize ≤ reserveSize size newSize h := by
  fun_induction reserveSize with
  | case1 newSize => exact Nat.le_refl newSize
  | case2 newSize _ _ ih => omega

theorem lt_reserveSize (size newSize : Nat) (h : 0 < newSize) : size < reserveSize size newSize h := by
  fun_induction reserveSize with
  | case1 newSize _ hlt => exact hlt
  | case2 newSize _ _ ih => exact ih

namespace ReallocPtr

variable {α : Type}

/-- The constructor, on the memory that `malloc` returns. -/
def new (initialSize maxSize : Nat) (m : Nat → α) : ReallocPtr α :=
  ⟨greaterPow2 initialSize, greaterPow2 maxSize, m, greaterPow2_pos initialSize⟩

/-- `operator []`, where the element is read. -/
def get (p : ReallocPtr α) (i : Nat) : Except BoundAssertion α :=
  if i < p.m_size then .ok (p.m_p i) else .error ⟨i, p.m_size⟩

/-- `grow`, where `allocated` says whether `realloc` finds memory. -/
def grow (p : ReallocPtr α) (allocated : Bool) : Option (ReallocPtr α) :=
  if p.m_maxSize < p.m_size * 2 then none
  else if allocated then
    some { p with m_size := p.m_size * 2, m_size_pos := Nat.mul_pos p.m_size_pos (by decide) }
  else none

/-- `reserve` -/
def reserve (p : ReallocPtr α) (size : Nat) (allocated : Bool) : Option (ReallocPtr α) :=
  if size < p.m_size then some p
  else if p.m_maxSize < size then none
  else if allocated then
    some { p with
      m_size := reserveSize size p.m_size p.m_size_pos
      m_size_pos := Nat.lt_of_lt_of_le p.m_size_pos (le_reserveSize _ _ _) }
  else none

/-- `move`: `memmove` after `reserve`. -/
def move (p : ReallocPtr α) (iSrc nSrc iDst : Nat) (allocated : Bool) : Option (ReallocPtr α) :=
  match p.reserve (iDst + nSrc) allocated with
  | none => none
  | some q => some { q with
      m_p := fun k => if iDst ≤ k ∧ k < iDst + nSrc then q.m_p (iSrc + (k - iDst)) else q.m_p k }

/-- The buffer after a system call has filled it from index `i` on. -/
def fill (p : ReallocPtr α) (i : Nat) (bytes : List α) : ReallocPtr α :=
  { p with m_p := fun k => if i ≤ k then (bytes[k - i]?).getD (p.m_p k) else p.m_p k }

/-- The `n` elements from index `i` on. -/
def slice (p : ReallocPtr α) (i n : Nat) : List α :=
  (List.range n).map fun k => p.m_p (i + k)

@[simp] theorem length_slice (p : ReallocPtr α) (i n : Nat) : (p.slice i n).length = n := by
  simp only [slice, List.length_map, List.length_range]

theorem slice_add (p : ReallocPtr α) (i n k : Nat) :
    p.slice i (n + k) = p.slice i n ++ p.slice (i + n) k := by
  simp only [slice, List.range_add, List.map_append, List.map_map]
  refine congrArg _ (List.map_congr_left fun j _ => ?_)
  simp only [Function.comp_apply, Nat.add_assoc]

/-- Elements that agree give the same slice. -/
theorem slice_congr {p q : ReallocPtr α} {i j n : Nat} (h : ∀ k < n, p.m_p (i + k) = q.m_p (j + k)) :
    p.slice i n = q.slice j n :=
  List.map_congr_left fun k hk => h k (List.mem_range.mp hk)

theorem fill_slice_before (p : ReallocPtr α) {i n : Nat} (bytes : List α) (h : n ≤ i) :
    (p.fill i bytes).slice 0 n = p.slice 0 n := by
  refine slice_congr fun k hk => ?_
  show (if i ≤ 0 + k then _ else _) = _
  rw [if_neg (by omega)]

theorem fill_slice (p : ReallocPtr α) (i : Nat) (bytes : List α) :
    (p.fill i bytes).slice i bytes.length = bytes := by
  refine List.ext_getElem (length_slice _ _ _) fun k _ hk => ?_
  simp only [slice, fill, List.getElem_map, List.getElem_range]
  rw [if_pos (by omega), show i + k - i = k by omega, List.getElem?_eq_getElem hk, Option.getD_some]

theorem grow_eq_some {p q : ReallocPtr α} {allocated : Bool} (h : p.grow allocated = some q) :
    p.m_size * 2 ≤ p.m_maxSize ∧ allocated = true ∧ q.m_size = p.m_size * 2 ∧
      q.m_maxSize = p.m_maxSize ∧ q.m_p = p.m_p := by
  unfold grow at h
  split at h
  · cases h
  · split at h
    · cases h
      exact ⟨by omega, by assumption, rfl, rfl, rfl⟩
    · cases h

theorem grow_eq_none {p : ReallocPtr α} {allocated : Bool} (h : p.grow allocated = none) :
    ¬ (p.m_size * 2 ≤ p.m_maxSize ∧ allocated = true) := by
  rintro ⟨hm, ha⟩
  rw [grow, if_neg (by omega), if_pos ha] at h
  cases h

/-- Reserving never makes the buffer smaller. -/
theorem le_of_reserve {p q : ReallocPtr α} {size : Nat} {allocated : Bool}
    (h : p.reserve size allocated = some q) : p.m_size ≤ q.m_size := by
  unfold reserve at h
  split at h
  · cases h
    exact Nat.le_refl _
  · split at h
    · cases h
    · split at h
      · cases h
        exact le_reserveSize _ _ _
      · cases h

/-- The end of what is in the buffer moves to its front. -/
theorem move_slice (p : ReallocPtr α) (iSrc : Nat) {nSrc : Nat} (allocated : Bool) (h : nSrc < p.m_size) :
    ∃ q, p.move iSrc nSrc 0 allocated = some q ∧ q.m_size = p.m_size ∧
      q.slice 0 nSrc = p.slice iSrc nSrc := by
  rw [move, reserve, if_pos (by omega)]
  refine ⟨_, rfl, rfl, slice_congr fun k hk => ?_⟩
  show (if 0 ≤ 0 + k ∧ 0 + k < 0 + nSrc then _ else _) = _
  rw [if_pos (by omega), show 0 + k - 0 = k by omega]

end ReallocPtr

/-! ## `consume_stream` -/

/-- The status a call returns. -/
inductive ExitStatus where
  | success
  | readEagain | readEbadf | readEfault | readEintr | readEinval | readEio | readEisdir
  | readUnknown
  | writeEagain | writeEbadf | writeEfault | writeEfbig | writeEintr | writeEinval | writeEio
  | writeEnospc | writeEpipe | writeNull | writeOverflow | writeUnknown
  | eiEncodeError
  | pollErr | pollHup | pollNval
deriving DecidableEq, Repr

/-- `errno` after `read`. -/
inductive Errno where
  | eagain | ebadf | efault | eintr | einval | eio | eisdir | other
deriving DecidableEq, Repr

/-- `errno_read` -/
def errnoRead : Errno → ExitStatus
  | .eagain => .readEagain
  | .ebadf => .readEbadf
  | .efault => .readEfault
  | .eintr => .readEintr
  | .einval => .readEinval
  | .eio => .readEio
  | .eisdir => .readEisdir
  | .other => .readUnknown

/-- What the system does at one `read` and after it: the most bytes it hands
over or an error, whether `grow` finds memory and whether `data_ready` finds
more. -/
structure ReadOutcome where
  bytes : Except Errno Nat
  allocated : Bool
  ready : Bool

/-- The flags of `revents` that end a call. -/
structure Revents where
  pollerr : Bool
  pollhup : Bool
  pollnval : Bool

/-- What the system does in one call. `header` is the index after the version,
tuple, name and pid are encoded, if they can be; `string` says whether the
text can be, and `write` is what writing it returns. A `read` past the end of
`reads` is interrupted. -/
structure Call where
  revents : Revents
  reads : List ReadOutcome
  header : Option Nat
  reserved : Bool
  string : Bool
  write : ExitStatus
  moved : Bool

/-- A tuple that Erlang receives. -/
structure Message where
  name : String
  pid : Nat
  text : List UInt8
deriving DecidableEq, Repr

/-- One output of one child: the buffer with its next index, the buffer of the
port, what the child wrote that is not read yet, what was read of it, and the
messages sent. -/
structure Capture where
  stream : ReallocPtr UInt8
  i : Nat
  sendBuffer : ReallocPtr UInt8
  pipe : List UInt8
  bytesRead : List UInt8
  sent : List Message

/-- `'\n'` -/
def newline : UInt8 := 10

/-- `read`, of at most `left` bytes, to index `i` of the buffer. -/
def read (o : ReadOutcome) (left : Nat) (s : Capture) : Except Errno Nat × Capture :=
  match o.bytes with
  | .error e => (.error e, s)
  | .ok n =>
    let got := s.pipe.take (min n left)
    (.ok got.length, { s with
      stream := s.stream.fill s.i got
      pipe := s.pipe.drop got.length
      bytesRead := s.bytesRead ++ got })

/-- The loop of `consume_stream`: `readBytes` and the state it leaves. -/
def readLoop : List ReadOutcome → Capture → Except BoundAssertion (Except Errno Nat × Capture)
  | [], s => do
    let _ ← s.stream.get s.i
    return (.error .eintr, s)
  | o :: os, s => do
    let _ ← s.stream.get s.i
    let left := s.stream.m_size - s.i
    match read o left s with
    | (.error e, s') => return (.error e, s')
    | (.ok readBytes, s') =>
      if readBytes = left then
        match s'.stream.grow o.allocated with
        | none => return (.ok readBytes, s')
        | some stream =>
          let s'' := { s' with stream := stream, i := s'.i + left }
          if o.ready then readLoop os s'' else return (.ok readBytes, s'')
      else return (.ok readBytes, s')

/-- The last newline before index `j`, if there is one. -/
def findNewline (p : ReallocPtr UInt8) : Nat → Except BoundAssertion (Option Nat)
  | 0 => .ok none
  | j + 1 => do
    let c ← p.get j
    if c = newline then return some j else findNewline p j

/-- `write_cmd`: the length goes to the first four bytes. -/
def writeCmd (buffer : ReallocPtr UInt8) (c : Call) : Except BoundAssertion ExitStatus := do
  let _ ← buffer.get 0
  let _ ← buffer.get 1
  let _ ← buffer.get 2
  let _ ← buffer.get 3
  return c.write

/-- Send everything up to the newline and keep the rest. -/
def sendLines (name : String) (pid : Nat) (c : Call) (s : Capture) (iNewline : Nat) :
    Except BoundAssertion (ExitStatus × Capture) :=
  match c.header with
  | none => .ok (.eiEncodeError, s)
  | some index =>
    match s.sendBuffer.reserve (index + (iNewline + 1) + 1) c.reserved with
    | none => .ok (.writeOverflow, s)
    | some sendBuffer =>
      let s := { s with sendBuffer := sendBuffer }
      if c.string then do
        let status ← writeCmd sendBuffer c
        if status ≠ .success then return (status, s)
        else
          let s := { s with sent := s.sent ++ [Message.mk name pid (s.stream.slice 0 (iNewline + 1))] }
          if iNewline = s.i - 1 then return (.success, { s with i := 0 })
          else
            let remainingBytes := s.i - iNewline - 1
            return (.success, { s with
              stream := (s.stream.move (iNewline + 1) remainingBytes 0 c.moved).getD s.stream
              i := remainingBytes })
      else .ok (.eiEncodeError, s)

/-- `consume_stream` -/
def consumeStream (name : String) (pid : Nat) (c : Call) (s : Capture) :
    Except BoundAssertion (ExitStatus × Capture) :=
  if c.revents.pollerr then .ok (.pollErr, s)
  else if c.revents.pollhup then .ok (.pollHup, s)
  else if c.revents.pollnval then .ok (.pollNval, s)
  else do
    let (readBytes, s) ← readLoop c.reads s
    match readBytes with
    | .error e => return (errnoRead e, s)
    | .ok readBytes =>
      if readBytes = 0 ∧ s.i = 0 then return (.success, s)
      else
        let s := { s with i := s.i + readBytes }
        match ← findNewline s.stream s.i with
        | none => return (.success, s)
        | some iNewline => sendLines name pid c s iNewline

/-- One call, without its status. -/
def stepCall (name : String) (pid : Nat) (s : Capture) (c : Call) : Except BoundAssertion Capture :=
  (consumeStream name pid c s).map Prod.snd

/-- The buffers of a new process, on any memory, and what the child will write. -/
def initCapture (m sendMemory : Nat → UInt8) (written : List UInt8) : Capture where
  stream := .new 1 16384 m
  i := 0
  sendBuffer := .new 32768 4194304 sendMemory
  pipe := written
  bytesRead := []
  sent := []

/-! ## What a call reads -/

/-- The reads of a call end with one that fills the buffer, lets it grow and
leaves nothing ready, for a buffer of `size` filled up to `i` and a pipe with
`unread` bytes. -/
def StopsAfterGrowth (maxSize : Nat) : List ReadOutcome → Nat → Nat → Nat → Prop
  | [], _, _, _ => False
  | o :: os, size, i, unread =>
    match o.bytes with
    | .error _ => False
    | .ok n => size - i ≤ n ∧ size - i ≤ unread ∧ size * 2 ≤ maxSize ∧ o.allocated = true ∧
        (o.ready = true → StopsAfterGrowth maxSize os (size * 2) size (unread - (size - i)))

/-- How far `i` moves after the loop. -/
def countRead : Except Errno Nat → Nat
  | .ok readBytes => readBytes
  | .error _ => 0

/-- The loop took `got` from the pipe and counts `n` bytes more than its index. -/
structure Reads (s s' : Capture) (n : Nat) (got : List UInt8) : Prop where
  sent : s'.sent = s.sent
  sendBuffer : s'.sendBuffer = s.sendBuffer
  bound : s'.i + n ≤ s'.stream.m_size
  bytesRead : s'.bytesRead = s.bytesRead ++ got
  pipe : got ++ s'.pipe = s.pipe

variable {s : Capture}

theorem Reads.refl (h : s.i ≤ s.stream.m_size) : Reads s s 0 [] :=
  ⟨rfl, rfl, h, (List.append_nil _).symm, rfl⟩

theorem Reads.trans {s s' s'' : Capture} {n k : Nat} {got more : List UInt8} (h : Reads s s' n got)
    (h' : Reads s' s'' k more) : Reads s s'' k (got ++ more) where
  sent := h'.sent.trans h.sent
  sendBuffer := h'.sendBuffer.trans h.sendBuffer
  bound := h'.bound
  bytesRead := by rw [h'.bytesRead, h.bytesRead, List.append_assoc]
  pipe := by rw [List.append_assoc, h'.pipe, h.pipe]

/-- One `read` puts what it takes behind what is in the buffer. -/
theorem read_ok {o : ReadOutcome} {n : Nat} (left : Nat) (ho : o.bytes = .ok n)
    (hl : s.i + left = s.stream.m_size) :
    ∃ s' got, read o left s = (.ok got.length, s') ∧ got.length = min (min n left) s.pipe.length ∧
      Reads s s' got.length got ∧ s'.i = s.i ∧ s'.stream.m_size = s.stream.m_size ∧
      s'.stream.m_maxSize = s.stream.m_maxSize ∧
      s'.stream.slice 0 (s.i + got.length) = s.stream.slice 0 s.i ++ got := by
  have hlen : (s.pipe.take (min n left)).length = min (min n left) s.pipe.length := List.length_take
  have hread : read o left s = (.ok (s.pipe.take (min n left)).length, { s with
      stream := s.stream.fill s.i (s.pipe.take (min n left))
      pipe := s.pipe.drop (s.pipe.take (min n left)).length
      bytesRead := s.bytesRead ++ s.pipe.take (min n left) }) := by
    simp only [read, ho]
  refine ⟨_, _, hread, hlen, ⟨rfl, rfl, ?_, rfl, ?_⟩, rfl, rfl, rfl, ?_⟩
  · show s.i + _ ≤ s.stream.m_size
    omega
  · show _ ++ s.pipe.drop _ = _
    rw [List.length_take, List.take_eq_take_min, List.take_append_drop]
  · rw [ReallocPtr.slice_add, ReallocPtr.fill_slice_before _ _ (Nat.le_refl _), Nat.zero_add,
      ReallocPtr.fill_slice]

/-- The loop on a buffer with room: what it reads lies behind what was there,
unless it ends after the buffer grew, where it counts more than it read. -/
theorem readLoop_reads (os : List ReadOutcome) (hi : s.i < s.stream.m_size) :
    ∃ r s' got, readLoop os s = .ok (r, s') ∧ Reads s s' (countRead r) got ∧
      (StopsAfterGrowth s.stream.m_maxSize os s.stream.m_size s.i s.pipe.length →
        s.i + got.length < s'.i + countRead r) ∧
      (¬ StopsAfterGrowth s.stream.m_maxSize os s.stream.m_size s.i s.pipe.length →
        s'.stream.slice 0 (s'.i + countRead r) = s.stream.slice 0 s.i ++ got) := by
  induction os generalizing s with
  | nil =>
    refine ⟨.error .eintr, s, [], ?_, Reads.refl (Nat.le_of_lt hi), False.elim,
      fun _ => (List.append_nil _).symm⟩
    rw [readLoop, ReallocPtr.get, if_pos hi]
    rfl
  | cons o os ih =>
    have hget : s.stream.get s.i = .ok (s.stream.m_p s.i) := if_pos hi
    rw [readLoop, bind_ok hget, StopsAfterGrowth]
    cases ho : o.bytes with
    | error e =>
      refine ⟨.error e, s, [], ?_, Reads.refl (Nat.le_of_lt hi), False.elim,
        fun _ => (List.append_nil _).symm⟩
      simp only [read, ho]
      rfl
    | ok n =>
      obtain ⟨s₁, got, hread, hlen, hr, hi₁, hs₁, hm₁, hslice⟩ :=
        read_ok (s := s) (s.stream.m_size - s.i) ho (by omega)
      have hpipe : s₁.pipe.length + got.length = s.pipe.length := by
        have := congrArg List.length hr.pipe
        rw [List.length_append] at this
        omega
      simp only [hread]
      by_cases hfull : got.length = s.stream.m_size - s.i
      · rw [if_pos hfull]
        cases hg : s₁.stream.grow o.allocated with
        | none =>
          have hno := ReallocPtr.grow_eq_none hg
          rw [hs₁, hm₁] at hno
          refine ⟨.ok got.length, s₁, got, rfl, hr, fun h => absurd ⟨h.2.2.1, h.2.2.2.1⟩ hno, fun _ => ?_⟩
          rw [hi₁]
          exact hslice
        | some q =>
          obtain ⟨hmax, ha, hq, hqm, hqp⟩ := ReallocPtr.grow_eq_some hg
          have hgrown : q.slice 0 s.stream.m_size = s.stream.slice 0 s.i ++ got := by
            rw [← hslice, show s.i + got.length = s.stream.m_size by omega]
            exact ReallocPtr.slice_congr fun k _ => by rw [hqp]
          have hi₂ : s₁.i + (s.stream.m_size - s.i) = s.stream.m_size := by omega
          have hq₂ : q.m_size = s.stream.m_size * 2 := hq.trans (by rw [hs₁])
          have hm₂ : q.m_maxSize = s.stream.m_maxSize := hqm.trans hm₁
          have hp₂ : s₁.pipe.length = s.pipe.length - (s.stream.m_size - s.i) := by omega
          simp only [hi₂]
          by_cases hready : o.ready = true
          · rw [if_pos hready]
            obtain ⟨r, s', more, hrun, hr', hbad, hgood⟩ :=
              ih (s := { s₁ with stream := q, i := s.stream.m_size }) (by simp only [hq₂]; omega)
            simp only [hq₂, hm₂, hp₂] at hbad hgood
            have hr₂ : Reads s { s₁ with stream := q, i := s.stream.m_size } 0 got :=
              ⟨hr.sent, hr.sendBuffer, by simp only [hq₂]; omega, hr.bytesRead, hr.pipe⟩
            refine ⟨r, s', got ++ more, hrun, hr₂.trans hr', fun h => ?_, fun h => ?_⟩
            · have := hbad (h.2.2.2.2 hready)
              rw [List.length_append]
              omega
            · rw [hgood fun h' => h ⟨by omega, by omega, by omega, ha, fun _ => h'⟩, hgrown,
                List.append_assoc]
          · rw [if_neg hready]
            have hr₂ : Reads s { s₁ with stream := q, i := s.stream.m_size } got.length got :=
              ⟨hr.sent, hr.sendBuffer, by simp only [hq₂]; omega, hr.bytesRead, hr.pipe⟩
            refine ⟨.ok got.length, _, got, rfl, hr₂, fun _ => ?_, fun h => absurd ?_ h⟩
            · simp only [countRead]
              omega
            · exact ⟨by omega, by omega, by omega, ha, fun h => absurd h hready⟩
      · rw [if_neg hfull]
        refine ⟨.ok got.length, s₁, got, rfl, hr, fun h => ?_, fun _ => ?_⟩
        · obtain ⟨h₁, h₂, -⟩ := h
          omega
        · rw [hi₁]
          exact hslice

/-! ## What a call sends -/

/-- The texts sent, and behind them what waits in the buffer. -/
def Capture.delivered (s : Capture) : List UInt8 :=
  s.sent.flatMap Message.text ++ s.stream.slice 0 s.i

/-- The index is in the buffer, and the length of a message fits the port's. -/
structure Bounds (s : Capture) : Prop where
  index : s.i ≤ s.stream.m_size
  header : 4 ≤ s.sendBuffer.m_size

/-- Every text sent ends with a newline. -/
def EndsLines (s : Capture) : Prop :=
  ∀ m ∈ s.sent, m.text.getLast? = some newline

theorem findNewline_spec {p : ReallocPtr UInt8} {j : Nat} (h : j ≤ p.m_size) :
    ∃ r, findNewline p j = .ok r ∧ ∀ k, r = some k → k < j ∧ p.m_p k = newline := by
  induction j with
  | zero => exact ⟨none, rfl, fun k hk => absurd hk (by simp)⟩
  | succ j ih =>
    have hget : p.get j = .ok (p.m_p j) := if_pos h
    rw [findNewline, bind_ok hget]
    by_cases hc : p.m_p j = newline
    · rw [if_pos hc]
      refine ⟨some j, rfl, fun k hk => ?_⟩
      rw [← Option.some.inj hk]
      exact ⟨Nat.lt_succ_self j, hc⟩
    · rw [if_neg hc]
      obtain ⟨r, hr, hk⟩ := ih (Nat.le_of_succ_le h)
      exact ⟨r, hr, fun k h => ⟨Nat.lt_succ_of_lt (hk k h).1, (hk k h).2⟩⟩

theorem writeCmd_ok {p : ReallocPtr UInt8} (h : 4 ≤ p.m_size) (c : Call) : writeCmd p c = .ok c.write := by
  simp only [writeCmd, ReallocPtr.get, if_pos (show 0 < p.m_size by omega),
    if_pos (show 1 < p.m_size by omega), if_pos (show 2 < p.m_size by omega),
    if_pos (show 3 < p.m_size by omega)]
  rfl

/-- A slice up to and with a newline ends with it. -/
theorem slice_getLast {p : ReallocPtr UInt8} {k : Nat} (h : p.m_p k = newline) :
    (p.slice 0 (k + 1)).getLast? = some newline := by
  rw [ReallocPtr.slice_add, List.getLast?_append]
  simp [ReallocPtr.slice, h]

/-- A call left alone what was read, and sent only lines. -/
structure Sends (s s' : Capture) : Prop where
  delivered : s'.delivered = s.delivered
  bytesRead : s'.bytesRead = s.bytesRead
  pipe : s'.pipe = s.pipe
  bounds : Bounds s'
  lines : EndsLines s → EndsLines s'

theorem sendLines_delivered (name : String) (pid : Nat) (c : Call) {iNewline : Nat}
    (hb : Bounds s) (hlt : iNewline < s.i) (hnl : s.stream.m_p iNewline = newline) :
    ∃ st s', sendLines name pid c s iNewline = .ok (st, s') ∧ Sends s s' := by
  unfold sendLines
  cases c.header with
  | none => exact ⟨_, s, rfl, rfl, rfl, rfl, hb, id⟩
  | some index =>
    simp only
    cases hres : s.sendBuffer.reserve (index + (iNewline + 1) + 1) c.reserved with
    | none => exact ⟨_, s, rfl, rfl, rfl, rfl, hb, id⟩
    | some sendBuffer =>
      have hheader : 4 ≤ sendBuffer.m_size := Nat.le_trans hb.header (ReallocPtr.le_of_reserve hres)
      simp only
      by_cases hstr : c.string = true
      · rw [if_pos hstr, bind_ok (writeCmd_ok hheader c)]
        have hlines : EndsLines s → ∀ m ∈ s.sent ++ [Message.mk name pid (s.stream.slice 0 (iNewline + 1))],
            m.text.getLast? = some newline := by
          intro h m hm
          rcases List.mem_append.mp hm with hm | hm
          · exact h m hm
          · rw [List.mem_singleton.mp hm]
            exact slice_getLast hnl
        by_cases hw : c.write ≠ .success
        · rw [if_pos hw]
          exact ⟨_, _, rfl, rfl, rfl, rfl, ⟨hb.index, hheader⟩, id⟩
        · rw [if_neg hw]
          by_cases hall : iNewline = s.i - 1
          · rw [if_pos hall]
            refine ⟨_, _, rfl, ?_, rfl, rfl, ⟨Nat.zero_le _, hheader⟩, hlines⟩
            simp only [Capture.delivered, List.flatMap_append, List.flatMap_singleton,
              show iNewline + 1 = s.i by omega]
            exact List.append_nil _
          · rw [if_neg hall]
            have hrest := hb.index
            obtain ⟨q, hq, hsize, hslice⟩ := s.stream.move_slice (iNewline + 1) c.moved
              (show s.i - iNewline - 1 < s.stream.m_size by omega)
            rw [hq]
            refine ⟨_, _, rfl, ?_, rfl, rfl, ⟨?_, hheader⟩, hlines⟩
            · simp only [Capture.delivered, List.flatMap_append, List.flatMap_singleton,
                Option.getD_some, hslice, List.append_assoc]
              rw [show s.stream.slice (iNewline + 1) _ = s.stream.slice (0 + (iNewline + 1)) _ by
                rw [Nat.zero_add], ← ReallocPtr.slice_add,
                show iNewline + 1 + (s.i - iNewline - 1) = s.i by omega]
            · simp only [Option.getD_some, hsize]
              omega
      · rw [if_neg hstr]
        exact ⟨_, _, rfl, rfl, rfl, rfl, ⟨hb.index, hheader⟩, id⟩

/-! ## One call -/

/-- A call that is neither made on a full buffer nor ends its reads after the
buffer grew. -/
def Clean (c : Call) (s : Capture) : Prop :=
  c.revents.pollerr = true ∨ c.revents.pollhup = true ∨ c.revents.pollnval = true ∨
    (s.i < s.stream.m_size ∧
      ¬ StopsAfterGrowth s.stream.m_maxSize c.reads s.stream.m_size s.i s.pipe.length)

/-- A call that read `got`. -/
structure Steps (s s' : Capture) (got : List UInt8) : Prop where
  bytesRead : s'.bytesRead = s.bytesRead ++ got
  pipe : got ++ s'.pipe = s.pipe
  bounds : Bounds s'
  lines : EndsLines s → EndsLines s'

/-- What follows the loop sends lines from the buffer, as the loop left it. -/
theorem afterLoop (name : String) (pid : Nat) (c : Call) {s s₁ : Capture} {r : Except Errno Nat}
    {got : List UInt8} (hb : Bounds s) (hrun : readLoop c.reads s = .ok (r, s₁)) (hr : Reads s s₁ (countRead r) got)
    (he : c.revents.pollerr = false) (hh : c.revents.pollhup = false) (hn : c.revents.pollnval = false) :
    ∃ st s', consumeStream name pid c s = .ok (st, s') ∧ Steps s s' got ∧
      s'.delivered = s.sent.flatMap Message.text ++ s₁.stream.slice 0 (s₁.i + countRead r) := by
  have hb₁ : Bounds { s₁ with i := s₁.i + countRead r } := ⟨hr.bound, by
    show 4 ≤ s₁.sendBuffer.m_size
    rw [hr.sendBuffer]
    exact hb.header⟩
  have hsteps : ∀ s', Sends { s₁ with i := s₁.i + countRead r } s' → Steps s s' got ∧
      s'.delivered = s.sent.flatMap Message.text ++ s₁.stream.slice 0 (s₁.i + countRead r) := by
    intro s' h
    refine ⟨⟨h.bytesRead.trans hr.bytesRead, by rw [h.pipe]; exact hr.pipe, h.bounds, fun hl => h.lines ?_⟩, ?_⟩
    · intro m hm
      rw [show m ∈ s₁.sent ↔ m ∈ s.sent by rw [hr.sent]] at hm
      exact hl m hm
    · rw [h.delivered]
      simp only [Capture.delivered, hr.sent]
  have hkeep : Sends { s₁ with i := s₁.i + countRead r } { s₁ with i := s₁.i + countRead r } :=
    ⟨rfl, rfl, rfl, hb₁, id⟩
  simp only [consumeStream, he, hh, hn, Bool.false_eq_true, if_false]
  rw [bind_ok hrun]
  cases r with
  | error e => exact ⟨_, _, rfl, hsteps _ hkeep⟩
  | ok n =>
    simp only
    by_cases hz : n = 0 ∧ s₁.i = 0
    · rw [if_pos hz]
      obtain ⟨rfl, -⟩ := hz
      exact ⟨_, _, rfl, hsteps _ hkeep⟩
    · rw [if_neg hz]
      obtain ⟨k, hk, hknl⟩ := findNewline_spec (p := s₁.stream) (j := s₁.i + n) hr.bound
      rw [bind_ok hk]
      cases k with
      | none => exact ⟨_, _, rfl, hsteps _ hkeep⟩
      | some iNewline =>
        obtain ⟨hlt, hnl⟩ := hknl iNewline rfl
        obtain ⟨st, s', hs', hsends⟩ := sendLines_delivered name pid c hb₁ hlt hnl
        exact ⟨st, s', hs', hsteps s' hsends⟩

theorem consumeStream_clean (name : String) (pid : Nat) {c : Call} (hb : Bounds s) (hc : Clean c s) :
    ∃ st s' got, consumeStream name pid c s = .ok (st, s') ∧ Steps s s' got ∧
      s'.delivered = s.delivered ++ got := by
  have hsame : Steps s s [] ∧ s.delivered = s.delivered ++ [] :=
    ⟨⟨(List.append_nil _).symm, rfl, hb, id⟩, (List.append_nil _).symm⟩
  by_cases he : c.revents.pollerr = true
  · exact ⟨_, s, [], if_pos he, hsame⟩
  by_cases hh : c.revents.pollhup = true
  · exact ⟨_, s, [], by rw [consumeStream, if_neg he, if_pos hh], hsame⟩
  by_cases hn : c.revents.pollnval = true
  · exact ⟨_, s, [], by rw [consumeStream, if_neg he, if_neg hh, if_pos hn], hsame⟩
  obtain ⟨hi, hstop⟩ := ((hc.resolve_left he).resolve_left hh).resolve_left hn
  obtain ⟨r, s₁, got, hrun, hr, -, hgood⟩ := readLoop_reads c.reads hi
  obtain ⟨st, s', hs', hsteps, hd⟩ := afterLoop name pid c hb hrun hr (Bool.not_eq_true _ ▸ he)
    (Bool.not_eq_true _ ▸ hh) (Bool.not_eq_true _ ▸ hn)
  refine ⟨st, s', got, hs', hsteps, ?_⟩
  rw [hd, hgood hstop, Capture.delivered, List.append_assoc]

/-- A call on a full buffer ends in the assertion of its first `read`. -/
theorem readLoop_full (os : List ReadOutcome) (hi : ¬ s.i < s.stream.m_size) :
    readLoop os s = .error ⟨s.i, s.stream.m_size⟩ := by
  cases os with
  | nil =>
    rw [readLoop, ReallocPtr.get, if_neg hi]
    rfl
  | cons o os =>
    rw [readLoop, ReallocPtr.get, if_neg hi]
    rfl

theorem consumeStream_unclean {name : String} {pid : Nat} {c : Call} {s s' : Capture} {st : ExitStatus}
    (hb : Bounds s) (hc : ¬ Clean c s) (hs' : consumeStream name pid c s = .ok (st, s')) :
    ∃ got, Steps s s' got ∧ s.delivered.length + got.length < s'.delivered.length := by
  simp only [Clean, not_or, Bool.not_eq_true, not_and, Classical.not_not] at hc
  obtain ⟨he, hh, hn, hstop⟩ := hc
  by_cases hi : s.i < s.stream.m_size
  · obtain ⟨r, s₁, got, hrun, hr, hbad, -⟩ := readLoop_reads c.reads hi
    obtain ⟨st₁, s₂, hs₂, hsteps, hd⟩ := afterLoop name pid c hb hrun hr he hh hn
    rw [hs', Except.ok.injEq, Prod.mk.injEq] at hs₂
    obtain ⟨-, rfl⟩ := hs₂
    have := hbad (hstop hi)
    refine ⟨got, hsteps, ?_⟩
    rw [hd, Capture.delivered, List.length_append, List.length_append, ReallocPtr.length_slice,
      ReallocPtr.length_slice]
    omega
  · simp only [consumeStream, he, hh, hn, Bool.false_eq_true, if_false, readLoop_full c.reads hi] at hs'
    cases hs'

theorem stepCall_clean (name : String) (pid : Nat) {c : Call} (hb : Bounds s) (hc : Clean c s) :
    ∃ s' got, stepCall name pid s c = .ok s' ∧ Steps s s' got ∧ s'.delivered = s.delivered ++ got := by
  obtain ⟨st, s', got, hs', h⟩ := consumeStream_clean name pid hb hc
  exact ⟨s', got, by rw [stepCall, hs']; rfl, h⟩

theorem stepCall_unclean {name : String} {pid : Nat} {c : Call} {s s' : Capture} (hb : Bounds s)
    (hc : ¬ Clean c s) (hs' : stepCall name pid s c = .ok s') :
    ∃ got, Steps s s' got ∧ s.delivered.length + got.length < s'.delivered.length := by
  rw [stepCall] at hs'
  cases hx : consumeStream name pid c s with
  | error e =>
    rw [hx] at hs'
    cases hs'
  | ok x =>
    rw [hx] at hs'
    cases hs'
    exact consumeStream_unclean hb hc hx

/-! ## Runs -/

/-- The calls make no access outside the buffer, and afterwards the texts sent
and what waits in the buffer are the bytes read, and every text ends its line. -/
def Captured (name : String) (pid : Nat) (calls : List Call) (written : List UInt8) (s : Capture) : Prop :=
  ∃ s', calls.foldlM (stepCall name pid) s = .ok s' ∧ s'.bytesRead ++ s'.pipe = written ∧
    s'.delivered = s'.bytesRead ∧ EndsLines s'

/-- What is counted too much never goes away again. -/
theorem run_exceeds {name : String} {pid : Nat} {calls : List Call} {s s' : Capture} (hb : Bounds s)
    (h : s.bytesRead.length < s.delivered.length) (hrun : calls.foldlM (stepCall name pid) s = .ok s') :
    s'.bytesRead.length < s'.delivered.length := by
  induction calls generalizing s with
  | nil =>
    cases hrun
    exact h
  | cons c calls ih =>
    rw [List.foldlM_cons] at hrun
    obtain ⟨s₁, hs₁, hrun⟩ := bind_eq_ok hrun
    have hstep : ∃ got, Steps s s₁ got ∧ s.delivered.length + got.length ≤ s₁.delivered.length := by
      by_cases hc : Clean c s
      · obtain ⟨s₂, got, hs₂, hsteps, hd⟩ := stepCall_clean name pid hb hc
        rw [hs₁] at hs₂
        cases hs₂
        exact ⟨got, hsteps, Nat.le_of_eq (by rw [hd, List.length_append])⟩
      · obtain ⟨got, hsteps, hlt⟩ := stepCall_unclean hb hc hs₁
        exact ⟨got, hsteps, Nat.le_of_lt hlt⟩
    obtain ⟨got, hsteps, hle⟩ := hstep
    refine ih hsteps.bounds ?_ hrun
    rw [hsteps.bytesRead, List.length_append]
    omega

theorem run_captured_iff (name : String) (pid : Nat) (calls : List Call) (hb : Bounds s)
    (hd : s.delivered = s.bytesRead) (hl : EndsLines s) :
    Captured name pid calls (s.bytesRead ++ s.pipe) s ↔ Guarded (stepCall name pid) Clean calls s := by
  induction calls generalizing s with
  | nil => exact ⟨fun _ => trivial, fun _ => ⟨s, rfl, rfl, hd, hl⟩⟩
  | cons c calls ih =>
    rw [Captured, List.foldlM_cons, Guarded]
    by_cases hc : Clean c s
    · obtain ⟨s₁, got, hstep, hsteps, hd₁⟩ := stepCall_clean name pid hb hc
      have hih := ih hsteps.bounds (by rw [hd₁, hd, hsteps.bytesRead]) (hsteps.lines hl)
      rw [hsteps.bytesRead, List.append_assoc, hsteps.pipe] at hih
      rw [bind_ok hstep]
      refine hih.trans ⟨fun h => ⟨hc, fun s' hs' => ?_⟩, fun h => h.2 s₁ hstep⟩
      rw [hstep] at hs'
      cases hs'
      exact h
    · refine ⟨fun ⟨s', hrun, _, hd', _⟩ => ?_, fun h => absurd h.1 hc⟩
      obtain ⟨s₁, hs₁, hrun⟩ := bind_eq_ok hrun
      obtain ⟨got, hsteps, hlt⟩ := stepCall_unclean hb hc hs₁
      have := run_exceeds hsteps.bounds
        (by rw [hsteps.bytesRead, List.length_append, ← hd]; exact hlt) hrun
      rw [hd'] at this
      exact absurd this (Nat.lt_irrefl _)

/-- Whatever a child writes, however it is read and whatever the memory of the
buffers holds, capture is exact as long as, and only as long as, every call is
clean. -/
theorem captured_iff (name : String) (pid : Nat) (m sendMemory : Nat → UInt8) (written : List UInt8)
    (calls : List Call) :
    Captured name pid calls written (initCapture m sendMemory written) ↔
      Guarded (stepCall name pid) Clean calls (initCapture m sendMemory written) := by
  refine run_captured_iff name pid calls (s := initCapture m sendMemory written) ⟨Nat.zero_le _, ?_⟩ rfl
    fun m hm => absurd hm (List.not_mem_nil)
  show 4 ≤ greaterPow2 32768
  decide

/-- One byte fills the buffer of size one. It grows, nothing more is ready, and
the byte of memory behind it counts as read. -/
theorem not_captured_one_byte :
    ¬ Captured "stdout" 7 [⟨⟨false, false, false⟩, [⟨.ok 1, true, false⟩], some 20, true, true, .success, true⟩]
      [97] (initCapture (fun _ => 0) (fun _ => 0) [97]) := by
  rintro ⟨s, hrun, -, hd, -⟩
  have hcounts := congrArg (fun x => x.toOption.map fun s => decide (s.delivered = s.bytesRead)) hrun
  simp only [Except.toOption, Option.map_some, decide_eq_true hd] at hcounts
  exact absurd hcounts (by decide)

end CloudI.Spawn
