import Mathlib.Algebra.Ring.Int.Defs
import Mathlib.Algebra.Ring.Nat
import Mathlib.Logic.Function.Basic
import CloudI.Framework.Exn

/-!
# Transaction ids

A transaction id is a version 1 UUID that a process makes from its `uuid_state`: the time, a clock sequence and 48 bits
that stand for the node and the pid. `nodeId_inj` is that different pids of a node have different bits, `getV1Time_uuid`
that the time can be read back, and `run_grows` that the times of one state grow whatever the clock reads. Together
they are `ids_unique`: no two ids that the processes of a node make are equal.
-/

namespace CloudI.Uuid

/-! ## States -/

/-- The types of timestamps of Erlang 18.0 and later. -/
inductive TimestampType where
  | erlangTimestamp
  | os
  | warp
deriving DecidableEq

/-- `uuid_state` -/
structure State where
  nodeId : BitVec 48
  clockSeq : Nat
  timestampType : TimestampType
  timestampLast : Int

/-- A pid of the local node, in the external format: the id has 15 bits and the serial 13. -/
structure Pid where
  id : Nat
  serial : Nat
  id_lt : id < 2 ^ 15
  serial_lt : serial < 2 ^ 13
deriving DecidableEq

/-- What the processes of a node share. -/
structure Host where
  macAddress : List UInt8
  node : List UInt8
  creation : BitVec 8

/-- The last nine bytes of `term_to_binary(Pid)`. -/
def pidBin (creation : BitVec 8) (pid : Pid) : BitVec 72 :=
  BitVec.ofNat 32 pid.id ++ BitVec.ofNat 32 pid.serial ++ creation

/-- The bits of a state that stand for the node and the pid; `sha` is `crypto:hash(sha, _)`, which has 20 bytes. -/
def nodeId (sha : List UInt8 → Fin 20 → BitVec 8) (host : Host) (pid : Pid) : BitVec 48 :=
  let NodeD := sha (host.macAddress ++ host.node)
  let PidBin := pidBin host.creation pid
  let PidID1 := PidBin.extractLsb' 64 8
  let PidID2 := PidBin.extractLsb' 56 8
  let PidID3 := PidBin.extractLsb' 48 8
  let PidID4 := PidBin.extractLsb' 40 8
  let PidSR1 := PidBin.extractLsb' 32 8
  let PidSR2 := PidBin.extractLsb' 24 8
  let PidSR3 := PidBin.extractLsb' 16 8
  let PidSR4 := PidBin.extractLsb' 8 8
  let PidCR1 := PidBin.extractLsb' 0 8
  let NodeByte1 := NodeD 0 ^^^ NodeD 1 ^^^ NodeD 2 ^^^ NodeD 3 ^^^ NodeD 4 ^^^ NodeD 5 ^^^ NodeD 6 ^^^ NodeD 7 ^^^
    NodeD 8 ^^^ NodeD 9
  let NodeByte2 := NodeD 10 ^^^ NodeD 11 ^^^ NodeD 12 ^^^ NodeD 13 ^^^ NodeD 14 ^^^ NodeD 15 ^^^ NodeD 16 ^^^
    NodeD 17 ^^^ NodeD 18 ^^^ NodeD 19 ^^^ PidCR1
  let PidByte1 := PidID1 ^^^ PidSR4
  let PidByte2 := PidID2 ^^^ PidSR3
  let PidByte3 := PidID3 ^^^ PidSR2
  let PidByte4 := PidID4 ^^^ PidSR1
  NodeByte1 ++ NodeByte2 ++ PidByte1 ++ PidByte2 ++ PidByte3 ++ PidByte4

/-- `new/2`: `ClockSeq` is random, and `TimestampLast` a reading of the clock. -/
def new (sha : List UInt8 → Fin 20 → BitVec 8) (host : Host) (pid : Pid) (timestampType : TimestampType)
    (ClockSeq : Nat) (TimestampLast : Int) : State where
  nodeId := nodeId sha host pid
  clockSeq := ClockSeq
  timestampType := timestampType
  timestampLast := TimestampLast

/-- `timestamp/2`, when the clock reads `TimestampNext`. -/
def timestamp (timestampType : TimestampType) (TimestampNext TimestampLast : Int) : Int :=
  match timestampType with
  | .erlangTimestamp => if TimestampNext > TimestampLast then TimestampNext else TimestampLast + 1
  | .os | .warp => TimestampNext

/-- The number of 100 ns intervals between the epochs of UUIDs and of UNIX. -/
def epoch : Int := 0x01b21dd213814000

/-- The UUID of a time. -/
def uuid (MicroSeconds : Int) (ClockSeq : Nat) (NodeId : BitVec 48) : BitVec 128 :=
  let Time := BitVec.ofInt 60 (MicroSeconds * 10 + epoch)
  let TimeHigh := Time.extractLsb' 48 12
  let TimeMid := Time.extractLsb' 32 16
  let TimeLow := Time.extractLsb' 0 32
  TimeLow ++ (TimeMid ++ (0b0001#4 ++ (TimeHigh ++ (0b10#2 ++ (BitVec.ofNat 14 ClockSeq ++ NodeId)))))

/-- `get_v1/1`, when the clock reads `TimestampNext`. -/
def getV1 (s : State) (TimestampNext : Int) : BitVec 128 × State :=
  let MicroSeconds := timestamp s.timestampType TimestampNext s.timestampLast
  (uuid MicroSeconds s.clockSeq s.nodeId, { s with timestampLast := MicroSeconds })

/-- `get_v1_time/1` of a UUID. -/
def getV1Time (Value : BitVec 128) : Except Exn Int :=
  let TimeLow := Value.extractLsb' 96 32
  let TimeMid := Value.extractLsb' 80 16
  let TimeHigh := Value.extractLsb' 64 12
  if Value.extractLsb' 76 4 = 0b0001#4 ∧ Value.extractLsb' 62 2 = 0b10#2 then
    let Time := TimeHigh ++ (TimeMid ++ TimeLow)
    .ok ((Time.toNat - epoch).tdiv 10)
  else .error .badmatch

/-- `is_v1/1` -/
def isV1 (Value : BitVec 128) : Bool :=
  Value.extractLsb' 76 4 = 0b0001#4 ∧ Value.extractLsb' 62 2 = 0b10#2

/-- `increment/1` of a state. -/
def increment (s : State) : State :=
  let NextClockSeq := s.clockSeq + 1
  { s with clockSeq := if NextClockSeq = 16384 then 0 else NextClockSeq }

/-! ## The fields of a UUID -/

section Fields

open BitVec

variable (t : Int) (c : Nat) (n : BitVec 48)

theorem uuid_low : (uuid t c n).extractLsb' 96 32 = (BitVec.ofInt 60 (t * 10 + epoch)).extractLsb' 0 32 :=
  extractLsb'_append_eq_left

theorem uuid_mid : (uuid t c n).extractLsb' 80 16 = (BitVec.ofInt 60 (t * 10 + epoch)).extractLsb' 32 16 := by
  rw [uuid, extractLsb'_append_eq_of_add_le (by decide)]
  exact extractLsb'_append_eq_left

theorem uuid_version : (uuid t c n).extractLsb' 76 4 = 0b0001#4 := by
  rw [uuid, extractLsb'_append_eq_of_add_le (by decide), extractLsb'_append_eq_of_add_le (by decide)]
  exact extractLsb'_append_eq_left

theorem uuid_high : (uuid t c n).extractLsb' 64 12 = (BitVec.ofInt 60 (t * 10 + epoch)).extractLsb' 48 12 := by
  rw [uuid, extractLsb'_append_eq_of_add_le (by decide), extractLsb'_append_eq_of_add_le (by decide),
    extractLsb'_append_eq_of_add_le (by decide)]
  exact extractLsb'_append_eq_left

theorem uuid_variant : (uuid t c n).extractLsb' 62 2 = 0b10#2 := by
  rw [uuid, extractLsb'_append_eq_of_add_le (by decide), extractLsb'_append_eq_of_add_le (by decide),
    extractLsb'_append_eq_of_add_le (by decide), extractLsb'_append_eq_of_add_le (by decide)]
  exact extractLsb'_append_eq_left

theorem uuid_nodeId : (uuid t c n).extractLsb' 0 48 = n := by
  rw [uuid, extractLsb'_append_eq_of_add_le (by decide), extractLsb'_append_eq_of_add_le (by decide),
    extractLsb'_append_eq_of_add_le (by decide), extractLsb'_append_eq_of_add_le (by decide),
    extractLsb'_append_eq_of_add_le (by decide)]
  exact extractLsb'_append_eq_right

theorem isV1_uuid : isV1 (uuid t c n) = true := by
  rw [isV1, uuid_version, uuid_variant]
  decide

/-- A time that has 60 bits. -/
def InTime (MicroSeconds : Int) : Prop := 0 ≤ MicroSeconds * 10 + epoch ∧ MicroSeconds * 10 + epoch < 2 ^ 60

/-- The time of a UUID is read back. -/
theorem getV1Time_uuid (ht : InTime t) : getV1Time (uuid t c n) = .ok t := by
  rw [getV1Time, uuid_version, uuid_variant, uuid_low, uuid_mid, uuid_high, if_pos ⟨rfl, rfl⟩]
  have hall : ∀ x : BitVec 60, x.extractLsb' 48 12 ++ (x.extractLsb' 32 16 ++ x.extractLsb' 0 32) = x := by
    intro x
    rw [extractLsb'_append_extractLsb'_eq_extractLsb' (show 32 = 0 + 32 from rfl),
      extractLsb'_append_extractLsb'_eq_extractLsb' (show 48 = 0 + (16 + 32) from rfl)]
    exact extractLsb'_eq_self
  have hnat : ((BitVec.ofInt 60 (t * 10 + epoch)).toNat : Int) = t * 10 + epoch := by
    rw [BitVec.toNat_ofInt]
    have := ht.1
    have := ht.2
    omega
  show Except.ok (((_ ++ (_ ++ _) : BitVec 60).toNat - epoch).tdiv 10) = _
  rw [hall, hnat, Int.add_sub_cancel, Int.mul_tdiv_cancel _ (by decide)]

end Fields

/-! ## The bits of a pid -/

section Bits

open BitVec

variable (creation : BitVec 8) (pid : Pid)

theorem pidBin_id {k : Nat} (hk : k ≤ 24) :
    (pidBin creation pid).extractLsb' (40 + k) 8 = BitVec.ofNat 8 (pid.id / 2 ^ k) := by
  have hid := pid.id_lt
  rw [pidBin, extractLsb'_append_eq_of_le (by omega), extractLsb'_append_eq_of_le (by omega)]
  refine eq_of_toNat_eq ?_
  rw [extractLsb'_toNat, toNat_ofNat, toNat_ofNat, Nat.shiftRight_eq_div_pow,
    Nat.mod_eq_of_lt (show pid.id < 2 ^ 32 by omega), show 40 + k - 8 - 32 = k by omega]

theorem pidBin_serial {k : Nat} (hk : k ≤ 24) :
    (pidBin creation pid).extractLsb' (8 + k) 8 = BitVec.ofNat 8 (pid.serial / 2 ^ k) := by
  have hserial := pid.serial_lt
  rw [pidBin, extractLsb'_append_eq_of_le (by omega), extractLsb'_append_eq_of_add_le (by omega)]
  refine eq_of_toNat_eq ?_
  rw [extractLsb'_toNat, toNat_ofNat, toNat_ofNat, Nat.shiftRight_eq_div_pow,
    Nat.mod_eq_of_lt (show pid.serial < 2 ^ 32 by omega), show 8 + k - 8 = k by omega]

variable (sha : List UInt8 → Fin 20 → BitVec 8) (host : Host)

theorem pidBin_id_zero {k : Nat} (hk : 15 ≤ k ∧ k ≤ 24) : (pidBin creation pid).extractLsb' (40 + k) 8 = 0#8 := by
  have hle : 2 ^ 15 ≤ 2 ^ k := Nat.pow_le_pow_right (by decide) hk.1
  rw [pidBin_id creation pid hk.2, Nat.div_eq_of_lt (Nat.lt_of_lt_of_le pid.id_lt hle)]

theorem pidBin_serial_zero {k : Nat} (hk : 13 ≤ k ∧ k ≤ 24) : (pidBin creation pid).extractLsb' (8 + k) 8 = 0#8 := by
  have hle : 2 ^ 13 ≤ 2 ^ k := Nat.pow_le_pow_right (by decide) hk.1
  rw [pidBin_serial creation pid hk.2, Nat.div_eq_of_lt (Nat.lt_of_lt_of_le pid.serial_lt hle)]

/-- The last four bytes are those of the serial and the id, each with a zero. -/
theorem nodeId_bytes :
    (nodeId sha host pid).extractLsb' 0 8 = BitVec.ofNat 8 pid.id ∧
    (nodeId sha host pid).extractLsb' 8 8 = BitVec.ofNat 8 (pid.id / 2 ^ 8) ∧
    (nodeId sha host pid).extractLsb' 16 8 = BitVec.ofNat 8 (pid.serial / 2 ^ 8) ∧
    (nodeId sha host pid).extractLsb' 24 8 = BitVec.ofNat 8 pid.serial := by
  have hid1 := pidBin_id_zero host.creation pid (k := 24) (by decide)
  have hid2 := pidBin_id_zero host.creation pid (k := 16) (by decide)
  have hid3 := pidBin_id host.creation pid (k := 8) (by decide)
  have hid4 := pidBin_id host.creation pid (k := 0) (by decide)
  have hserial1 := pidBin_serial_zero host.creation pid (k := 24) (by decide)
  have hserial2 := pidBin_serial_zero host.creation pid (k := 16) (by decide)
  have hserial3 := pidBin_serial host.creation pid (k := 8) (by decide)
  have hserial4 := pidBin_serial host.creation pid (k := 0) (by decide)
  rw [Nat.pow_zero, Nat.div_one] at hid4 hserial4
  simp only [Nat.reduceAdd, Nat.add_zero] at hid1 hid2 hid3 hid4 hserial1 hserial2 hserial3 hserial4
  rw [nodeId]
  simp only [hid1, hid2, hid3, hid4, hserial1, hserial2, hserial3, hserial4, xor_zero, zero_xor,
    extractLsb'_append_eq_right, extractLsb'_append_eq_of_le, Nat.reduceLeDiff, Nat.reduceSub, and_self_iff]

/-- Different pids of a node have different bits. -/
theorem nodeId_inj {p q : Pid} (h : nodeId sha host p = nodeId sha host q) : p = q := by
  have hbytes := nodeId_bytes p sha host
  rw [h] at hbytes
  obtain ⟨hid4, hid3, hserial3, hserial4⟩ := hbytes
  obtain ⟨hid4', hid3', hserial3', hserial4'⟩ := nodeId_bytes q sha host
  have hid := congrArg BitVec.toNat (hid4.symm.trans hid4')
  have hid' := congrArg BitVec.toNat (hid3.symm.trans hid3')
  have hserial := congrArg BitVec.toNat (hserial4.symm.trans hserial4')
  have hserial' := congrArg BitVec.toNat (hserial3.symm.trans hserial3')
  simp only [toNat_ofNat] at hid hid' hserial hserial'
  have := p.id_lt
  have := q.id_lt
  have := p.serial_lt
  have := q.serial_lt
  have hidEq : p.id = q.id := by omega
  have hserialEq : p.serial = q.serial := by omega
  cases p
  cases q
  simp only [Pid.mk.injEq]
  exact ⟨hidEq, hserialEq⟩

end Bits

/-! ## The processes of a node -/

/-- What a process of the node does. -/
inductive Event where
  | new (pid : Pid) (ClockSeq : Nat) (reading : Int)
  | getV1 (pid : Pid) (reading : Int)
  | increment (pid : Pid)

/-- An id that was made: by whom, and the time that the state kept. -/
structure Made where
  pid : Pid
  id : BitVec 128
  timestampLast : Int

section Runs

variable (sha : List UInt8 → Fin 20 → BitVec 8) (host : Host)

/-- One step: a process makes its one state, or uses it. -/
def step (states : Pid → Option State) : Event → Option ((Pid → Option State) × List Made)
  | .new pid ClockSeq reading =>
    if (states pid).isSome then none
    else some (Function.update states pid (some (new sha host pid .erlangTimestamp ClockSeq reading)), [])
  | .getV1 pid reading => do
    let s ← states pid
    let (id, s') := getV1 s reading
    return (Function.update states pid (some s'), [⟨pid, id, s'.timestampLast⟩])
  | .increment pid => do
    let s ← states pid
    return (Function.update states pid (some (increment s)), [])

/-- The ids made in a run. -/
def run (states : Pid → Option State) : List Event → Option (List Made)
  | [] => some []
  | event :: events => do
    let (states', made) ← step sha host states event
    return made ++ (← run states' events)

/-- The states of the processes are those of their own pids. -/
def Own (states : Pid → Option State) : Prop :=
  ∀ pid s, states pid = some s → s.nodeId = nodeId sha host pid ∧ s.timestampType = .erlangTimestamp

/-- An id that is made from a time and the pid. -/
def Made.Good (m : Made) : Prop := ∃ c, m.id = uuid m.timestampLast c (nodeId sha host m.pid)

/-- What a step does to the states, and what it makes. -/
structure Steps (states states' : Pid → Option State) (made : List Made) : Prop where
  own : Own sha host states'
  later : ∀ pid s, states pid = some s → ∃ s', states' pid = some s' ∧ s.timestampLast ≤ s'.timestampLast
  made : made = [] ∨ ∃ m s s', made = [m] ∧ m.Good sha host ∧ states m.pid = some s ∧
    s.timestampLast < m.timestampLast ∧ states' m.pid = some s' ∧ s'.timestampLast = m.timestampLast

/-- A state that takes the place of another one of the process. -/
theorem own_update {states : Pid → Option State} (hown : Own sha host states) {pid : Pid} {s : State}
    (hid : s.nodeId = nodeId sha host pid) (htype : s.timestampType = .erlangTimestamp) :
    Own sha host (Function.update states pid (some s)) := by
  intro pid' s' hs'
  by_cases h : pid' = pid
  · subst h
    rw [Function.update_self, Option.some.injEq] at hs'
    subst hs'
    exact ⟨hid, htype⟩
  · rw [Function.update_of_ne h] at hs'
    exact hown pid' s' hs'

theorem later_update {states : Pid → Option State} {pid : Pid} {s' : State}
    (hlater : ∀ s, states pid = some s → s.timestampLast ≤ s'.timestampLast) (pid' : Pid) (s : State)
    (hs : states pid' = some s) :
    ∃ s₁, Function.update states pid (some s') pid' = some s₁ ∧ s.timestampLast ≤ s₁.timestampLast := by
  by_cases h : pid' = pid
  · subst h
    exact ⟨s', Function.update_self .., hlater s hs⟩
  · exact ⟨s, by rw [Function.update_of_ne h, hs], Int.le_refl _⟩

theorem lt_timestamp (TimestampNext TimestampLast : Int) :
    TimestampLast < timestamp .erlangTimestamp TimestampNext TimestampLast := by
  rw [timestamp]
  split <;> omega

theorem step_steps {event : Event} {states states' : Pid → Option State} {made : List Made}
    (hown : Own sha host states) (hstep : step sha host states event = some (states', made)) :
    Steps sha host states states' made := by
  cases event with
  | new pid ClockSeq reading =>
    rw [step] at hstep
    split at hstep
    · cases hstep
    · rename_i hnone
      cases hstep
      refine ⟨own_update sha host hown rfl rfl, later_update fun s hs => ?_, .inl rfl⟩
      rw [hs] at hnone
      exact absurd rfl hnone
  | getV1 pid reading =>
    cases hs : states pid with
    | none =>
      rw [step, hs] at hstep
      cases hstep
    | some s =>
      rw [step, hs] at hstep
      cases hstep
      obtain ⟨hid, htype⟩ := hown pid s hs
      have hlt : s.timestampLast < timestamp s.timestampType reading s.timestampLast := by
        rw [htype]
        exact lt_timestamp _ _
      refine ⟨own_update sha host hown hid htype, later_update fun s₁ hs₁ => ?_,
        .inr ⟨_, s, _, rfl, ⟨s.clockSeq, ?_⟩, hs, hlt, Function.update_self .., rfl⟩⟩
      · rw [hs, Option.some.injEq] at hs₁
        subst hs₁
        exact Int.le_of_lt hlt
      · rw [← hid]
  | increment pid =>
    cases hs : states pid with
    | none =>
      rw [step, hs] at hstep
      cases hstep
    | some s =>
      rw [step, hs] at hstep
      cases hstep
      obtain ⟨hid, htype⟩ := hown pid s hs
      refine ⟨own_update sha host hown hid htype, later_update fun s₁ hs₁ => ?_, .inl rfl⟩
      rw [hs, Option.some.injEq] at hs₁
      subst hs₁
      exact Int.le_refl _

/-- The times of a process grow: what is made later is later than its state and than what was made before. -/
theorem run_grows {events : List Event} {states : Pid → Option State} {made : List Made} (hown : Own sha host states)
    (hrun : run sha host states events = some made) :
    (∀ m ∈ made, m.Good sha host ∧ ∀ s, states m.pid = some s → s.timestampLast < m.timestampLast) ∧
      made.Pairwise fun m m' => m.pid = m'.pid → m.timestampLast < m'.timestampLast := by
  induction events generalizing states made with
  | nil =>
    cases hrun
    exact ⟨fun m hm => absurd hm List.not_mem_nil, List.Pairwise.nil⟩
  | cons event events ih =>
    rw [run, Option.bind_eq_bind, Option.bind_eq_some_iff] at hrun
    obtain ⟨⟨states', made₁⟩, hstep, hrest⟩ := hrun
    simp only [Option.bind_eq_bind, Option.bind_eq_some_iff] at hrest
    obtain ⟨made₂, hrun₂, hmade⟩ := hrest
    cases hmade
    have hs := step_steps sha host hown hstep
    obtain ⟨hall, hpair⟩ := ih hs.own hrun₂
    have hold : ∀ m ∈ made₂, ∀ s, states m.pid = some s → s.timestampLast < m.timestampLast := by
      intro m hm s hstate
      obtain ⟨s', hs', hle⟩ := hs.later m.pid s hstate
      exact Int.lt_of_le_of_lt hle ((hall m hm).2 s' hs')
    rcases hs.made with rfl | ⟨m, s, s', rfl, hgood, hstate, hlt, hstate', heq⟩
    · exact ⟨fun m hm => ⟨(hall m hm).1, hold m hm⟩, hpair⟩
    · constructor
      · intro m' hm'
        rcases List.mem_cons.mp hm' with rfl | hm'
        · refine ⟨hgood, fun s₁ hs₁ => ?_⟩
          rw [hstate, Option.some.injEq] at hs₁
          subst hs₁
          exact hlt
        · exact ⟨(hall m' hm').1, hold m' hm'⟩
      · refine List.pairwise_cons.mpr ⟨fun m' hm' hpid => ?_, hpair⟩
        rw [← heq]
        refine (hall m' hm').2 s' ?_
        rw [← hpid, hstate']

theorem uuid_time_inj {t t' : Int} {c c' : Nat} {n n' : BitVec 48} (ht : InTime t) (ht' : InTime t')
    (h : uuid t c n = uuid t' c' n') : t = t' := by
  have hr := getV1Time_uuid t c n ht
  rw [h, getV1Time_uuid t' c' n' ht'] at hr
  exact (Except.ok.inj hr).symm

/-- The ids that the processes of a node make are distinct UUIDs of version 1, the time of each is the one its state
kept, and the times of a process grow, whatever the clock reads. -/
theorem ids_unique {events : List Event} {made : List Made} (hrun : run sha host (fun _ => none) events = some made)
    (htime : ∀ m ∈ made, InTime m.timestampLast) :
    (∀ m ∈ made, isV1 m.id = true ∧ getV1Time m.id = .ok m.timestampLast) ∧
      made.Pairwise fun m m' => m.id ≠ m'.id ∧ (m.pid = m'.pid → m.timestampLast < m'.timestampLast) := by
  obtain ⟨hall, hpair⟩ := run_grows sha host (fun pid s hs => by cases hs) hrun
  constructor
  · intro m hm
    obtain ⟨⟨c, hid⟩, -⟩ := hall m hm
    rw [hid]
    exact ⟨isV1_uuid _ _ _, getV1Time_uuid _ _ _ (htime m hm)⟩
  · refine List.Pairwise.imp_of_mem (fun {m m'} hm hm' hlt => ⟨fun heq => ?_, hlt⟩) hpair
    obtain ⟨⟨c, hid⟩, -⟩ := hall m hm
    obtain ⟨⟨c', hid'⟩, -⟩ := hall m' hm'
    rw [hid, hid'] at heq
    have htimes := uuid_time_inj (htime m hm) (htime m' hm') heq
    have hnode := congrArg (BitVec.extractLsb' 0 48) heq
    rw [uuid_nodeId, uuid_nodeId] at hnode
    have := hlt (nodeId_inj sha host hnode)
    omega

end Runs

/-- A clock that stands still and then goes back, and another process at the same time; the digest is that of the
address and the name of the node. -/
theorem ids_unique_two :
    ∃ made, run
        (fun _ i => [27, 92, 162, 215, 5, 147, 183, 178, 43, 201, 0, 149, 180, 161, 36, 238, 241, 161, 224, 54][i])
        ⟨[8, 0, 39, 1, 2, 3], [110, 111, 110, 111, 100, 101, 64, 110, 111, 104, 111, 115, 116], 0⟩ (fun _ => none)
        [.new ⟨80, 0, by decide, by decide⟩ 5 1000, .getV1 ⟨80, 0, by decide, by decide⟩ 1000,
          .getV1 ⟨80, 0, by decide, by decide⟩ 900, .new ⟨81, 0, by decide, by decide⟩ 5 1000,
          .getV1 ⟨81, 0, by decide, by decide⟩ 1000] = some made ∧
      made.map Made.timestampLast = [1001, 1002, 1001] ∧ made.Pairwise fun m m' => m.id ≠ m'.id := by
  have hids : ∀ {sha host events}, (∃ made, run sha host (fun _ => none) events = some made ∧
      made.map Made.timestampLast = [1001, 1002, 1001]) → ∃ made, run sha host (fun _ => none) events = some made ∧
      made.map Made.timestampLast = [1001, 1002, 1001] ∧ made.Pairwise fun m m' => m.id ≠ m'.id := by
    rintro sha host events ⟨made, hrun, htimes⟩
    refine ⟨made, hrun, htimes, ((ids_unique sha host hrun fun m hm => ?_).2).imp fun h => h.1⟩
    have hmem : m.timestampLast ∈ [1001, 1002, 1001] := htimes ▸ List.mem_map_of_mem hm
    simp only [List.mem_cons, List.not_mem_nil, or_false] at hmem
    rw [InTime, epoch]
    omega
  exact hids ⟨_, rfl, rfl⟩

end CloudI.Uuid
