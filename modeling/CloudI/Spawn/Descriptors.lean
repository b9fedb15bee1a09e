import Mathlib.Data.List.Nodup
import Mathlib.Algebra.GroupWithZero.Nat
import Mathlib.Data.List.ReduceOption
import Mathlib.Logic.Function.Basic

/-!
# Descriptor table of `cloudi_os_spawn`

The table `GEPD::fds` holds three entries of the program itself, and behind
them two entries for each child. The main loop polls it, handles what Erlang
sends (which may spawn a child) and then checks the children one by one while
events are left. A child that has ended leaves the vector: the entries of all
later children move two places down.

* `shift_spec`: the shift keeps what the entries say of each child;
* `check_spec`: a check handles the events of one child and no others;
* `checkLoop_spec`: the loop checks children in order, and stops only where no
  events are left;
* `descriptor_table`: the layout between any two rounds, and what a round checks.
-/

namespace CloudI.Spawn.Descriptors

/-! ## The table -/

/-- `POLLIN`, `POLLERR`, `POLLHUP` and `POLLNVAL` -/
def POLLIN : UInt16 := 0x001
def POLLERR : UInt16 := 0x008
def POLLHUP : UInt16 := 0x010
def POLLNVAL : UInt16 := 0x020

/-- `struct pollfd`; all entries ask for the same events. -/
structure Pollfd where
  fd : Nat
  revents : UInt16
deriving DecidableEq, Repr

/-- `process_data`. The pipes it was spawned with and its number are kept to say which child it is: no
function of the program reads them. -/
structure ProcessData where
  m_pid : Nat
  m_index_stdout : Nat
  m_index_stderr : Nat
  serial : Nat
  fd_stdout : Nat
  fd_stderr : Nat
deriving DecidableEq, Repr

/-- `GEPD::fds`, `GEPD::nfds` and the vector `processes`, with the number of children spawned so far. -/
structure Table where
  fds : Nat → Pollfd
  nfds : Nat
  processes : List ProcessData
  spawned : Nat

/-- `GEPD::init`, with the descriptors that it opens. -/
def init (fd_stdout fd_stderr fd_erlang : Nat) (m : Nat → Pollfd) : Table where
  fds := Function.update (Function.update (Function.update m 0 ⟨fd_stdout, 0⟩) 1 ⟨fd_stderr, 0⟩) 2 ⟨fd_erlang, 0⟩
  nfds := 3
  processes := []
  spawned := 0

/-- The parent in `spawn`, after the pipes and the child exist. -/
def spawn (pid fd_stdout fd_stderr : Nat) (t : Table) : Table where
  fds := Function.update (Function.update t.fds t.nfds ⟨fd_stdout, 0⟩) (t.nfds + 1) ⟨fd_stderr, 0⟩
  nfds := t.nfds + 2
  processes := t.processes ++ [⟨pid, t.nfds, t.nfds + 1, t.spawned, fd_stdout, fd_stderr⟩]
  spawned := t.spawned + 1

/-! ## A round -/

/-- What a function returns: `error_HUP` is the only error that does not end the program. -/
inductive Status where
  | success
  | error_HUP
  | failure
deriving DecidableEq, Repr

/-- What Erlang's command does: it ends the program, leaves the table as it is, or spawns a child. -/
inductive Command where
  | exit
  | reply
  | spawn (pid fd_stdout fd_stderr : Nat)
deriving DecidableEq, Repr

/-- What the system does in one round: the events `poll` finds at each entry, what Erlang sends, and
the descriptors whose output cannot be read or sent on. -/
structure Round where
  revents : Nat → UInt16
  command : Command
  fails : Nat → Bool

/-- `consume_stream`, as far as the table goes. -/
def consumeStream (fails : Nat → Bool) (e : Pollfd) : Status × Pollfd :=
  if e.revents &&& POLLERR ≠ 0 then (.failure, e)
  else if e.revents &&& POLLHUP ≠ 0 then (.error_HUP, e)
  else if e.revents &&& POLLNVAL ≠ 0 then (.failure, e)
  else (if fails e.fd then .failure else .success, { e with revents := 0 })

/-- `flush_stream`, as far as the table goes: it gets the events by value. -/
def flushStream (fails : Nat → Bool) (e : Pollfd) : Status :=
  if e.revents &&& POLLIN = 0 then .success
  else if fails e.fd then .failure else .success

/-- One half of `check` -/
def checkStream (fails : Nat → Bool) (i count : Nat) (fds : Nat → Pollfd) : Status × Nat × (Nat → Pollfd) :=
  if 0 < count ∧ (fds i).revents ≠ 0 then
    match consumeStream fails (fds i) with
    | (.success, e) => (.success, count - 1, Function.update fds i e)
    | (status, e) => (status, count, Function.update fds i e)
  else (.success, count, fds)

/-- `check` -/
def check (fails : Nat → Bool) (p : ProcessData) (count : Nat) (fds : Nat → Pollfd) :
    Status × Nat × (Nat → Pollfd) :=
  match checkStream fails p.m_index_stderr count fds with
  | (.success, count, fds) => checkStream fails p.m_index_stdout count fds
  | r => r

/-- One half of `flush` -/
def flushHalf (fails : Nat → Bool) (i count : Nat) (fds : Nat → Pollfd) : Status × Nat :=
  if 0 < count ∧ (fds i).revents ≠ 0 then
    match flushStream fails (fds i) with
    | .success => (.success, count - 1)
    | status => (status, count)
  else (.success, count)

/-- `flush` -/
def flush (fails : Nat → Bool) (p : ProcessData) (count : Nat) (fds : Nat → Pollfd) : Status × Nat :=
  match flushHalf fails p.m_index_stderr count fds with
  | (.success, count) => flushHalf fails p.m_index_stdout count fds
  | r => r

/-- `shift` -/
def ProcessData.shift (p : ProcessData) (fds : Nat → Pollfd) : ProcessData × (Nat → Pollfd) :=
  let q := { p with m_index_stdout := p.m_index_stdout - 2, m_index_stderr := p.m_index_stderr - 2 }
  let fds₁ := Function.update fds q.m_index_stdout (fds p.m_index_stdout)
  (q, Function.update fds₁ q.m_index_stderr (fds₁ p.m_index_stderr))

/-- The loop that shifts the children behind the dead one. -/
def shiftAll : List ProcessData → (Nat → Pollfd) → List ProcessData × (Nat → Pollfd)
  | [], fds => ([], fds)
  | p :: l, fds =>
    let (q, fds) := p.shift fds
    let (l, fds) := shiftAll l fds
    (q :: l, fds)

/-- `vector::erase` moves each later element to the place before it: assigning to a `copy_ptr` takes the
pointer of the other one and destroys what it held. The last element is destroyed. The second
component lists the children whose destructor runs. -/
def eraseFrom : Option ProcessData → List (Option ProcessData) → List (Option ProcessData) × List ProcessData
  | m_p, [] => ([], m_p.toList)
  | m_p, next :: l =>
    let (l, destroyed) := eraseFrom none l
    (next :: l, m_p.toList ++ destroyed)

theorem length_shiftAll (l : List ProcessData) (fds : Nat → Pollfd) : (shiftAll l fds).1.length = l.length := by
  induction l generalizing fds with
  | nil => rfl
  | cons p l ih => exact congrArg (· + 1) (ih _)

theorem eraseFrom_none (l : List ProcessData) : eraseFrom none (l.map some) = (l.map some, []) := by
  induction l with
  | nil => rfl
  | cons p l ih => simp only [List.map_cons, eraseFrom, ih, Option.toList_none, List.append_nil]

theorem reduceOption_map_some (l : List ProcessData) : (l.map some).reduceOption = l := by
  simp [List.reduceOption, List.filterMap_map]

/-- Erasing one child runs one destructor. -/
theorem eraseFrom_some (p : ProcessData) (l : List ProcessData) :
    eraseFrom (some p) (l.map some) = (l.map some, [p]) := by
  cases l with
  | nil => rfl
  | cons q l => simp only [List.map_cons, eraseFrom, eraseFrom_none, Option.toList_some, List.append_nil]

@[simp] theorem length_eraseFrom (m_p : Option ProcessData) (l : List (Option ProcessData)) :
    (eraseFrom m_p l).1.length = l.length := by
  induction l generalizing m_p with
  | nil => rfl
  | cons q l ih => exact congrArg (· + 1) (ih none)

/-- What the loop over the children leaves: the table, and the children it has checked. -/
structure Checked where
  fds : Nat → Pollfd
  nfds : Nat
  processes : List ProcessData
  checked : List Nat

/-- The loop of `main` over the children from the iterator on: `s` has the children before it, and those
checked so far. There is no result where the program ends. -/
def checkLoop (fails : Nat → Bool) (l : List ProcessData) (count : Nat) (s : Checked) : Option Checked :=
  match l with
  | [] => some s
  | p :: l =>
    if count = 0 then some { s with processes := s.processes ++ p :: l }
    else
      match check fails p count s.fds with
      | (.failure, _, _) => none
      | (.success, count, fds) =>
        checkLoop fails l count
          { s with fds := fds, processes := s.processes ++ [p], checked := s.checked ++ [p.serial] }
      | (.error_HUP, count, fds) =>
        match flush fails p count fds with
        | (.success, count) =>
          let rest := shiftAll l fds
          let erased := eraseFrom (some p) (rest.1.map some)
          checkLoop fails erased.1.reduceOption count
            { s with fds := rest.2, nfds := s.nfds - 2 * erased.2.length, checked := s.checked ++ [p.serial] }
        | _ => none
termination_by l.length
decreasing_by
  · simp
  · refine Nat.lt_succ_of_le (Nat.le_trans (List.reduceOption_length_le _) (Nat.le_of_eq ?_))
    rw [length_eraseFrom, List.length_map, length_shiftAll]

/-- `poll` writes the events of the entries it is given. -/
def poll (r : Round) (t : Table) : Table :=
  { t with fds := fun i => if i < t.nfds then { t.fds i with revents := r.revents i } else t.fds i }

/-- What `poll` returns: how many entries have events. -/
def pollCount (r : Round) (nfds : Nat) : Nat := (List.range nfds).countP fun i => r.revents i ≠ 0

/-- The function that Erlang calls. -/
def Command.call : Command → Table → Option Table
  | .exit, _ => none
  | .reply, t => some t
  | .spawn pid fd_stdout fd_stderr, t => some (Descriptors.spawn pid fd_stdout fd_stderr t)

/-- `consume_erlang` -/
def consumeErlang (command : Command) (t : Table) : Option Table :=
  if (t.fds 2).revents &&& POLLERR ≠ 0 ∨ (t.fds 2).revents &&& POLLHUP ≠ 0 ∨
      (t.fds 2).revents &&& POLLNVAL ≠ 0 then none
  else command.call { t with fds := Function.update t.fds 2 { t.fds 2 with revents := 0 } }

/-- `GEPD::wait` at the entry of Erlang. -/
def waitErlang (command : Command) (count : Nat) (t : Table) : Option (Nat × Table) :=
  if 0 < count ∧ (t.fds 2).revents ≠ 0 then (consumeErlang command t).map fun t => (count - 1, t)
  else some (count, t)

/-- `GEPD::wait` at an entry for the program's own output: any error ends the program. -/
def waitStream (fails : Nat → Bool) (i : Nat) (s : Nat × Table) : Option (Nat × Table) :=
  match checkStream fails i s.1 s.2.fds with
  | (.success, count, fds) => some (count, { s.2 with fds := fds })
  | _ => none

/-- A round: one `poll` of `GEPD::wait`, and the loop over the children for the events that are left. -/
def round (r : Round) (t : Table) : Option (Table × List Nat) := do
  if pollCount r t.nfds = 0 then none
  let s ← waitErlang r.command (pollCount r t.nfds) (poll r t)
  let s ← waitStream r.fails 1 s
  let s ← waitStream r.fails 0 s
  let c ← checkLoop r.fails s.2.processes s.1 ⟨s.2.fds, s.2.nfds, [], []⟩
  some (⟨c.fds, c.nfds, c.processes, s.2.spawned⟩, c.checked)

/-- The tables between rounds, from the start of the program on. -/
inductive Reachable : Table → Prop where
  | init (fd_stdout fd_stderr fd_erlang : Nat) (m : Nat → Pollfd) : Reachable (init fd_stdout fd_stderr fd_erlang m)
  | round {t t' : Table} {checked : List Nat} (h : Reachable t) (r : Round) (hr : round r t = some (t', checked)) :
      Reachable t'

/-! ## Where the entries are -/

/-- The children from entry `k` on have their entries one after the other, with their own descriptors. -/
def Placed (fds : Nat → Pollfd) : Nat → List ProcessData → Prop
  | _, [] => True
  | k, p :: l => (p.m_index_stdout = k ∧ p.m_index_stderr = k + 1 ∧ (fds k).fd = p.fd_stdout ∧
      (fds (k + 1)).fd = p.fd_stderr) ∧ Placed fds (k + 2) l

/-- How many events an entry has: one or none. -/
def events (e : Pollfd) : Nat := if e.revents ≠ 0 then 1 else 0

/-- The events at the entries of a child. -/
def ProcessData.events (p : ProcessData) (fds : Nat → Pollfd) : Nat :=
  Descriptors.events (fds p.m_index_stderr) + Descriptors.events (fds p.m_index_stdout)

/-- The children, each with its events. -/
def marks (fds : Nat → Pollfd) (l : List ProcessData) : List (Nat × Nat) := l.map fun p => (p.serial, p.events fds)

/-- The events that are left. -/
def pending (fds : Nat → Pollfd) (l : List ProcessData) : Nat := (l.map fun p => p.events fds).sum

theorem pending_eq (fds : Nat → Pollfd) (l : List ProcessData) : pending fds l = ((marks fds l).map Prod.snd).sum := by
  simp [pending, marks, Function.comp_def]

@[simp] theorem pending_cons (fds : Nat → Pollfd) (p : ProcessData) (l : List ProcessData) :
    pending fds (p :: l) = p.events fds + pending fds l := by
  simp [pending]

variable {fds : Nat → Pollfd}

theorem Placed.append {k : Nat} {a b : List ProcessData} :
    Placed fds k (a ++ b) ↔ Placed fds k a ∧ Placed fds (k + 2 * a.length) b := by
  induction a generalizing k with
  | nil => simp [Placed]
  | cons p a ih =>
    rw [List.cons_append, Placed, Placed, ih, List.length_cons,
      show k + 2 + 2 * a.length = k + 2 * (a.length + 1) by omega]
    exact and_assoc.symm

variable {l : List ProcessData}

/-- Only the descriptors of the entries matter. -/
theorem Placed.congr {fds fds' : Nat → Pollfd} {k : Nat} (h : Placed fds k l)
    (hfd : ∀ i, k ≤ i → i < k + 2 * l.length → (fds' i).fd = (fds i).fd) : Placed fds' k l := by
  induction l generalizing k with
  | nil => trivial
  | cons p l ih =>
    obtain ⟨⟨hout, herr, ho, he⟩, hl⟩ := h
    rw [List.length_cons] at hfd
    exact ⟨⟨hout, herr, (hfd k (by omega) (by omega)).trans ho, (hfd (k + 1) (by omega) (by omega)).trans he⟩,
      ih hl fun i hi hlt => hfd i (by omega) (by omega)⟩

/-- Entries before those of the children do not matter for their events. -/
theorem marks_congr {fds fds' : Nat → Pollfd} {k : Nat} (h : Placed fds k l)
    (hfds : ∀ i, k ≤ i → i < k + 2 * l.length → fds' i = fds i) : marks fds' l = marks fds l := by
  induction l generalizing k with
  | nil => rfl
  | cons p l ih =>
    obtain ⟨⟨hout, herr, -⟩, hl⟩ := h
    rw [List.length_cons] at hfds
    have hrest := ih hl fun i hi hlt => hfds i (by omega) (by omega)
    simp only [marks, List.map_cons] at hrest ⊢
    rw [hrest, ProcessData.events, ProcessData.events, hout, herr, hfds k (by omega) (by omega),
      hfds (k + 1) (by omega) (by omega)]

theorem Placed.getElem {k i : Nat} (h : Placed fds k l) (hi : i < l.length) :
    l[i].m_index_stdout = k + 2 * i ∧ l[i].m_index_stderr = k + 1 + 2 * i ∧
      (fds (k + 2 * i)).fd = l[i].fd_stdout ∧ (fds (k + 1 + 2 * i)).fd = l[i].fd_stderr := by
  induction l generalizing k i with
  | nil => exact absurd hi (Nat.not_lt_zero _)
  | cons p l ih =>
    cases i with
    | zero => exact h.1
    | succ i =>
      have hrest := ih h.2 (Nat.lt_of_succ_lt_succ hi)
      rw [show k + 2 * (i + 1) = k + 2 + 2 * i by omega, show k + 1 + 2 * (i + 1) = k + 2 + 1 + 2 * i by omega]
      exact hrest

/-! ## The shift -/

/-- The children move two entries down, with their descriptors and their events. -/
theorem shift_spec {k : Nat} (h : Placed fds (k + 2) l) :
    Placed (shiftAll l fds).2 k (shiftAll l fds).1 ∧ marks (shiftAll l fds).2 (shiftAll l fds).1 = marks fds l ∧
      ∀ i < k, (shiftAll l fds).2 i = fds i := by
  induction l generalizing k fds with
  | nil => exact ⟨trivial, rfl, fun _ _ => rfl⟩
  | cons p l ih =>
    obtain ⟨⟨hout, herr, ho, he⟩, hl⟩ := h
    have hfds : (p.shift fds).2 = Function.update (Function.update fds k (fds (k + 2))) (k + 1) (fds (k + 3)) := by
      simp only [ProcessData.shift, hout, herr, Nat.add_sub_cancel, show k + 2 + 1 - 2 = k + 1 by omega]
      rw [Function.update_of_ne (a := k + 2 + 1) (by omega)]
    have hbehind : ∀ i, k + 2 ≤ i → (p.shift fds).2 i = fds i := fun i hi => by
      rw [hfds, Function.update_of_ne (by omega), Function.update_of_ne (by omega)]
    have hrest : Placed (p.shift fds).2 (k + 2 + 2) l :=
      hl.congr fun i hi _ => congrArg Pollfd.fd (hbehind i (by omega))
    obtain ⟨hplaced, hmarks, hbefore⟩ := ih hrest
    have hk : (shiftAll l (p.shift fds).2).2 k = fds (k + 2) := by
      rw [hbefore k (by omega), hfds, Function.update_of_ne (by omega), Function.update_self]
    have hk1 : (shiftAll l (p.shift fds).2).2 (k + 1) = fds (k + 3) := by
      rw [hbefore (k + 1) (by omega), hfds, Function.update_self]
    have hq : (p.shift fds).1 = { p with m_index_stdout := k, m_index_stderr := k + 1 } := by
      simp only [ProcessData.shift, hout, herr, Nat.add_sub_cancel, show k + 2 + 1 - 2 = k + 1 by omega]
    refine ⟨⟨⟨congrArg ProcessData.m_index_stdout hq, congrArg ProcessData.m_index_stderr hq,
      (congrArg Pollfd.fd hk).trans ho, (congrArg Pollfd.fd hk1).trans he⟩, hplaced⟩, ?_, fun i hi => ?_⟩
    · have hrest := hmarks.trans (marks_congr hl fun i hi _ => hbehind i (by omega))
      have hevents : (p.shift fds).1.events (shiftAll l (p.shift fds).2).2 = p.events fds := by
        rw [hq, ProcessData.events]
        show events ((shiftAll l (p.shift fds).2).2 (k + 1)) + events ((shiftAll l (p.shift fds).2).2 k) = _
        rw [hk, hk1, ProcessData.events, hout, herr]
      exact congrArg₂ List.cons (congrArg (Prod.mk p.serial) hevents) hrest
    · show (shiftAll l (p.shift fds).2).2 i = fds i
      rw [hbefore i (by omega), hfds, Function.update_of_ne (by omega), Function.update_of_ne (by omega)]

/-! ## A check -/

theorem consumeStream_spec (fails : Nat → Bool) (e : Pollfd) :
    consumeStream fails e = (.success, { e with revents := 0 }) ∨ consumeStream fails e = (.error_HUP, e) ∨
      (consumeStream fails e).1 = .failure := by
  unfold consumeStream
  split
  · exact .inr (.inr rfl)
  · split
    · exact .inr (.inl rfl)
    · split
      · exact .inr (.inr rfl)
      · cases fails e.fd with
        | false => exact .inl rfl
        | true => exact .inr (.inr rfl)

/-- The events of one entry are handled, or its other end is closed. -/
theorem checkStream_spec (fails : Nat → Bool) {i count n : Nat} (h : count = events (fds i) + n) :
    checkStream fails i count fds = (.success, n, Function.update fds i { fds i with revents := 0 }) ∨
      checkStream fails i count fds = (.error_HUP, count, fds) ∨ (checkStream fails i count fds).1 = .failure := by
  unfold checkStream
  split
  · rename_i hc
    rw [events, if_pos hc.2] at h
    rcases consumeStream_spec fails (fds i) with hs | hs | hs
    · exact .inl (by rw [hs, h]; simp)
    · refine .inr (.inl ?_)
      rw [hs]
      show (Status.error_HUP, count, Function.update fds i (fds i)) = _
      rw [Function.update_eq_self]
    · refine .inr (.inr ?_)
      generalize consumeStream fails (fds i) = r at hs
      obtain ⟨status, e⟩ := r
      subst hs
      rfl
  · rename_i hc
    have hzero : (fds i).revents = 0 := by
      refine Decidable.byContradiction fun hne => hc ⟨?_, hne⟩
      rw [events, if_pos hne] at h
      omega
    refine .inl ?_
    rw [h, events, if_neg (not_not_intro hzero), ← hzero, Function.update_eq_self, Nat.zero_add]

theorem flushStream_ne (fails : Nat → Bool) (e : Pollfd) : flushStream fails e ≠ .error_HUP := by
  unfold flushStream
  split
  · exact Status.noConfusion
  · cases fails e.fd <;> exact Status.noConfusion

theorem flushHalf_spec (fails : Nat → Bool) {i count n : Nat} (h : count = events (fds i) + n) :
    flushHalf fails i count fds = (.success, n) ∨ (flushHalf fails i count fds).1 = .failure := by
  unfold flushHalf
  by_cases hr : (fds i).revents = 0
  · rw [events, if_neg (not_not_intro hr), Nat.zero_add] at h
    rw [if_neg fun hc => hc.2 hr, h]
    exact .inl rfl
  · rw [events, if_pos hr] at h
    rw [if_pos ⟨by omega, hr⟩]
    cases hs : flushStream fails (fds i) with
    | success => exact .inl (by rw [h]; simp)
    | error_HUP => exact absurd hs (flushStream_ne _ _)
    | failure => exact .inr rfl

/-- The entries are those of `fds`, but for the events of one child. -/
structure Frame (p : ProcessData) (fds fds' : Nat → Pollfd) : Prop where
  others : ∀ i, i ≠ p.m_index_stdout → i ≠ p.m_index_stderr → fds' i = fds i
  fd : ∀ i, (fds' i).fd = (fds i).fd

theorem Frame.refl (p : ProcessData) (fds : Nat → Pollfd) : Frame p fds fds := ⟨fun _ _ _ => rfl, fun _ => rfl⟩

theorem Frame.clear {p : ProcessData} {fds fds' : Nat → Pollfd} (h : Frame p fds fds') {i : Nat}
    (hi : i = p.m_index_stdout ∨ i = p.m_index_stderr) :
    Frame p fds (Function.update fds' i { fds' i with revents := 0 }) := by
  refine ⟨fun j ho he => ?_, fun j => ?_⟩
  · rw [Function.update_of_ne (by rintro rfl; exact hi.elim ho he), h.others j ho he]
  · by_cases hj : j = i
    · rw [hj, Function.update_self]
      exact h.fd i
    · rw [Function.update_of_ne hj, h.fd j]

variable {fails : Nat → Bool}

/-- A check that does not end the program leaves the events of the other children, and counts those that it
leaves of this one: none if the child lives. -/
theorem check_spec {p : ProcessData} {n count' : Nat} {fds fds' : Nat → Pollfd} {status : Status}
    (hne : p.m_index_stdout ≠ p.m_index_stderr) (hs : status ≠ .failure)
    (h : check fails p (p.events fds + n) fds = (status, count', fds')) :
    Frame p fds fds' ∧ count' = p.events fds' + n ∧ (status = .success → count' = n) := by
  unfold check at h
  have hsplit : p.events fds + n = events (fds p.m_index_stderr) + (events (fds p.m_index_stdout) + n) :=
    Nat.add_assoc _ _ _
  rcases checkStream_spec fails hsplit with he | he | he
  · rw [he] at h
    set fds₁ := Function.update fds p.m_index_stderr { fds p.m_index_stderr with revents := 0 } with hfds₁
    have hframe : Frame p fds fds₁ := (Frame.refl p fds).clear (.inr rfl)
    have hout : fds₁ p.m_index_stdout = fds p.m_index_stdout := Function.update_of_ne hne _ _
    have herr : events (fds₁ p.m_index_stderr) = 0 := by
      rw [hfds₁, Function.update_self]
      rfl
    clear_value fds₁
    have hsame : events (fds p.m_index_stdout) + n = events (fds₁ p.m_index_stdout) + n := by rw [hout]
    rcases checkStream_spec fails hsame with ho | ho | ho
    · cases ho.symm.trans h
      refine ⟨hframe.clear (.inl rfl), ?_, fun _ => rfl⟩
      rw [ProcessData.events, Function.update_self, Function.update_of_ne hne.symm, herr]
      exact (Nat.zero_add n).symm
    · cases ho.symm.trans h
      exact ⟨hframe, by rw [ProcessData.events, herr, hout, Nat.zero_add], fun h => nomatch h⟩
    · exact absurd (show status = .failure from (congrArg Prod.fst h).symm.trans ho) hs
  · rw [he] at h
    cases h
    exact ⟨Frame.refl p fds, rfl, fun h => nomatch h⟩
  · generalize checkStream fails p.m_index_stderr (p.events fds + n) fds = r at h he
    obtain ⟨status', c, f⟩ := r
    subst he
    exact absurd (congrArg Prod.fst h).symm hs

/-- `flush` takes the events of the child off the count. -/
theorem flush_spec {p : ProcessData} {n count : Nat}
    (h : flush fails p (p.events fds + n) fds = (.success, count)) : count = n := by
  unfold flush at h
  have hsplit : p.events fds + n = events (fds p.m_index_stderr) + (events (fds p.m_index_stdout) + n) :=
    Nat.add_assoc _ _ _
  rcases flushHalf_spec fails hsplit with he | he
  · rw [he] at h
    have hsame : events (fds p.m_index_stdout) + n = events (fds p.m_index_stdout) + n := rfl
    rcases flushHalf_spec fails hsame with ho | ho
    · cases ho.symm.trans h
      rfl
    · cases ho.symm.trans (congrArg Prod.fst h)
  · generalize flushHalf fails p.m_index_stderr (p.events fds + n) fds = r at h he
    obtain ⟨status, c⟩ := r
    subst he
    cases h

/-! ## The loop over the children -/

/-- What the loop has done from a state on, for children `l`. -/
structure Done (s s' : Checked) (l : List ProcessData) : Prop where
  placed : Placed s'.fds 3 s'.processes
  size : s'.nfds = 3 + 2 * s'.processes.length
  kept : (s'.processes.map ProcessData.serial).Sublist ((s.processes ++ l).map ProcessData.serial)
  checked : ∃ m, s'.checked = s.checked ++ ((marks s.fds l).take m).map Prod.fst ∧
    ∀ q ∈ (marks s.fds l).drop m, q.2 = 0

/-- A check of the child at the iterator. -/
theorem checked_behind {p : ProcessData} {count c : Nat} {s : Checked}
    {f : Nat → Pollfd} {status : Status} (hplaced : Placed s.fds 3 (s.processes ++ p :: l))
    (hcount : count = pending s.fds (p :: l)) (hcheck : check fails p count s.fds = (status, c, f))
    (hs : status ≠ .failure) :
    Frame p s.fds f ∧ marks f l = marks s.fds l ∧ c = p.events f + pending f l ∧
      (status = .success → c = pending s.fds l) := by
  obtain ⟨-, ⟨hout, herr, -⟩, hl⟩ := Placed.append.mp hplaced
  rw [hcount, pending_cons] at hcheck
  obtain ⟨hframe, hc, hn⟩ := check_spec (by omega) hs hcheck
  have hbehind : marks f l = marks s.fds l :=
    marks_congr hl fun i hi _ => hframe.others i (by omega) (by omega)
  exact ⟨hframe, hbehind, by rw [hc, pending_eq f, hbehind, ← pending_eq], hn⟩

/-- The loop checks the children in order, and leaves out only those without events. -/
theorem checkLoop_spec {count : Nat} {s s' : Checked}
    (h : checkLoop fails l count s = some s') (hplaced : Placed s.fds 3 (s.processes ++ l))
    (hsize : s.nfds = 3 + 2 * (s.processes ++ l).length) (hcount : count = pending s.fds l) : Done s s' l := by
  fun_induction checkLoop fails l count s with
  | case1 count s =>
    cases h
    rw [List.append_nil] at hplaced hsize
    exact ⟨hplaced, hsize, by simp, 0, by simp, by simp [marks]⟩
  | case2 s p l =>
    cases h
    refine ⟨hplaced, hsize, List.Sublist.refl _, 0, by simp, fun q hq => ?_⟩
    -- no events are left, so no child behind the iterator has any
    rw [pending_eq] at hcount
    exact List.sum_eq_zero_iff_forall_eq_nat.mp hcount.symm _ (List.mem_map_of_mem hq)
  | case3 count s p l hne c f hcheck => cases h
  | case4 count s p l hne c f hcheck ih =>
    obtain ⟨hframe, hbehind, hc⟩ := checked_behind hplaced hcount hcheck (by decide)
    have hc := hc.2 rfl
    obtain ⟨hp, hn, hk, m, hm, hrest⟩ := ih h
      (by
        rw [List.append_assoc]
        exact hplaced.congr fun i _ _ => hframe.fd i)
      (by rw [List.append_assoc]; exact hsize) (by rw [hc, pending_eq, pending_eq, hbehind])
    rw [hbehind] at hm hrest
    rw [List.append_assoc] at hk
    exact ⟨hp, hn, hk, m + 1, by rw [hm, List.append_assoc]; rfl, hrest⟩
  | case5 count s p l hne c f hcheck c' hflush rest erased ih =>
    obtain ⟨hframe, hbehind, hc⟩ := checked_behind hplaced hcount hcheck (by decide)
    rw [hc.1] at hflush
    have hc' := flush_spec hflush
    obtain ⟨hbefore, -, hl⟩ := Placed.append.mp hplaced
    have hl' : Placed f (3 + 2 * s.processes.length + 2) l := hl.congr fun i _ _ => hframe.fd i
    obtain ⟨hshift, hmarks, hkept⟩ := shift_spec hl'
    have herased : erased = (rest.1.map some, [p]) := eraseFrom_some p rest.1
    have hserials : rest.1.map ProcessData.serial = l.map ProcessData.serial := by
      have := congrArg (List.map Prod.fst) (hmarks.trans hbehind)
      simpa only [marks, List.map_map, Function.comp_def] using this
    have hlength : rest.1.length = l.length := length_shiftAll l f
    rw [herased] at h ih
    simp only [reduceOption_map_some] at h ih
    have hplaced' : Placed rest.2 3 s.processes :=
      hbefore.congr fun i _ hi => (congrArg Pollfd.fd (hkept i hi)).trans (hframe.fd i)
    have hmarks' : marks rest.2 rest.1 = marks s.fds l := hmarks.trans hbehind
    obtain ⟨hp, hn, hk, m, hm, hrest⟩ := ih h (Placed.append.mpr ⟨hplaced', hshift⟩)
      (by
        simp only [List.length_append, List.length_cons, List.length_nil, hlength] at hsize ⊢
        omega)
      (by rw [hc', pending_eq, pending_eq, hmarks', hbehind])
    simp only [hmarks'] at hm hrest
    refine ⟨hp, hn, hk.trans ?_, m + 1, by rw [hm, List.append_assoc]; rfl, hrest⟩
    simp only [List.map_append, List.map_cons, hserials]
    exact (List.Sublist.refl _).append (List.sublist_cons_self _ _)
  | case6 count s p l hne c f hcheck hflush => cases h

/-! ## A round -/

/-- The layout of a table between rounds. -/
structure Layout (t : Table) : Prop where
  size : t.nfds = 3 + 2 * t.processes.length
  placed : Placed t.fds 3 t.processes
  nodup : (t.processes.map ProcessData.serial).Nodup
  fresh : ∀ i ∈ t.processes.map ProcessData.serial, i < t.spawned

theorem Layout.init (fd_stdout fd_stderr fd_erlang : Nat) (m : Nat → Pollfd) :
    Layout (init fd_stdout fd_stderr fd_erlang m) :=
  ⟨rfl, trivial, List.nodup_nil, fun _ h => nomatch h⟩

/-- Entries that keep their descriptors keep the layout. -/
theorem Layout.congr {t : Table} (h : Layout t) (hfd : ∀ i, (fds i).fd = (t.fds i).fd) :
    Layout { t with fds := fds } :=
  ⟨h.size, h.placed.congr fun i _ _ => hfd i, h.nodup, h.fresh⟩

theorem spawn_fds {t : Table} (pid fd_stdout fd_stderr : Nat) {i : Nat} (hi : i < t.nfds) :
    (spawn pid fd_stdout fd_stderr t).fds i = t.fds i := by
  show Function.update (Function.update _ _ _) _ _ i = _
  rw [Function.update_of_ne (by omega), Function.update_of_ne (by omega)]

/-- A child that is spawned gets the two entries behind all others, without events. -/
theorem Layout.spawn {t : Table} (h : Layout t) (pid fd_stdout fd_stderr : Nat) :
    Layout (spawn pid fd_stdout fd_stderr t) ∧
      marks (spawn pid fd_stdout fd_stderr t).fds (spawn pid fd_stdout fd_stderr t).processes =
        marks t.fds t.processes ++ [(t.spawned, 0)] := by
  have hout : (Descriptors.spawn pid fd_stdout fd_stderr t).fds t.nfds = ⟨fd_stdout, 0⟩ := by
    show Function.update (Function.update _ _ _) _ _ t.nfds = _
    rw [Function.update_of_ne (by omega), Function.update_self]
  have herr : (Descriptors.spawn pid fd_stdout fd_stderr t).fds (t.nfds + 1) = ⟨fd_stderr, 0⟩ :=
      Function.update_self _ _ _
  have hserials : (Descriptors.spawn pid fd_stdout fd_stderr t).processes.map ProcessData.serial =
      t.processes.map ProcessData.serial ++ [t.spawned] := List.map_append
  have hsize := h.size
  refine ⟨⟨?_, Placed.append.mpr ⟨?_, ?_⟩, ?_, ?_⟩, ?_⟩
  · show t.nfds + 2 = 3 + 2 * (t.processes ++ [_]).length
    rw [List.length_append, List.length_singleton]
    omega
  · exact h.placed.congr fun i _ hi => congrArg Pollfd.fd (spawn_fds _ _ _ (by omega))
  · rw [← hsize]
    exact ⟨⟨rfl, rfl, congrArg Pollfd.fd hout, congrArg Pollfd.fd herr⟩, trivial⟩
  · rw [hserials]
    refine List.nodup_append.mpr ⟨h.nodup, List.nodup_singleton _, fun i hi j hj => ?_⟩
    rw [List.mem_singleton.mp hj]
    exact Nat.ne_of_lt (h.fresh i hi)
  · rw [hserials]
    intro i hi
    rcases List.mem_append.mp hi with hi | hi
    · exact Nat.lt_succ_of_lt (h.fresh i hi)
    · rw [List.mem_singleton.mp hi]
      exact Nat.lt_succ_self _
  · show marks _ (t.processes ++ [_]) = _
    rw [marks, List.map_append]
    refine congrArg₂ (· ++ ·) (marks_congr h.placed fun i _ hi => spawn_fds _ _ _ (by omega)) ?_
    simp only [List.map_cons, List.map_nil, ProcessData.events, hout, herr]
    rfl

/-- What `poll` counts: the events of the program's own entries and those of the children. -/
theorem pollCount_eq {t : Table} (h : Layout t) (r : Round) :
    pollCount r t.nfds = events ((poll r t).fds 2) + (events ((poll r t).fds 1) + (events ((poll r t).fds 0) +
      pending (poll r t).fds t.processes)) := by
  have hcount : ∀ (n k : Nat), k + n ≤ t.nfds → (List.range' k n).countP (fun i => r.revents i ≠ 0) =
      ((List.range' k n).map fun i => events ((poll r t).fds i)).sum := by
    intro n
    induction n with
    | zero => exact fun _ _ => rfl
    | succ n ih =>
      intro k hk
      have hrest := ih (k + 1) (by omega)
      have hfds : ((poll r t).fds k).revents = r.revents k := by
        show (if k < t.nfds then _ else _ : Pollfd).revents = _
        rw [if_pos (by omega)]
      rw [List.range'_succ, List.countP_cons, hrest, List.map_cons, List.sum_cons, events, hfds]
      by_cases hz : r.revents k = 0 <;> simp [hz, Nat.add_comm]
  have hpending : ∀ (l : List ProcessData) (k : Nat), Placed (poll r t).fds k l → pending (poll r t).fds l =
      ((List.range' k (2 * l.length)).map fun i => events ((poll r t).fds i)).sum := by
    intro l
    induction l with
    | nil => exact fun _ _ => rfl
    | cons p l ih =>
      intro k hk
      obtain ⟨⟨hout, herr, -⟩, hl⟩ := hk
      rw [pending_cons, ih _ hl, List.length_cons, show 2 * (l.length + 1) = 2 * l.length + 1 + 1 by omega,
        List.range'_succ, List.range'_succ, List.map_cons, List.map_cons, List.sum_cons, List.sum_cons,
        ProcessData.events, hout, herr, show k + 1 + 1 = k + 2 from rfl]
      omega
  have hplaced : Placed (poll r t).fds 3 t.processes := by
    refine h.placed.congr fun i _ _ => ?_
    show (if _ then _ else _ : Pollfd).fd = _
    split <;> rfl
  rw [pollCount, List.range_eq_range', hcount _ _ (by omega), hpending _ _ hplaced, h.size,
    show 3 + 2 * t.processes.length = 2 * t.processes.length + 1 + 1 + 1 by omega]
  simp only [List.range'_succ, List.map_cons, List.sum_cons, Nat.zero_add, Nat.reduceAdd]
  omega

/-- What handling the program's own entries does: children may come, without events. -/
structure Waits (t : Table) (s : Nat × Table) (n : Nat) : Prop where
  layout : Layout s.2
  count : s.1 = n
  marks : ∃ new, marks s.2.fds s.2.processes = marks t.fds t.processes ++ new ∧ ∀ q ∈ new, q.2 = 0

/-- The entry of Erlang. -/
theorem waitErlang_spec {command : Command} {n : Nat} {t : Table} {s : Nat × Table} (h : Layout t)
    (hs : waitErlang command (events (t.fds 2) + n) t = some s) :
    Waits t s n ∧ s.2.fds 0 = t.fds 0 ∧ s.2.fds 1 = t.fds 1 := by
  unfold waitErlang at hs
  split at hs
  · rename_i hc
    obtain ⟨t', ht', hs⟩ := Option.map_eq_some_iff.mp hs
    subst hs
    have hn : events (t.fds 2) + n - 1 = n := by rw [events, if_pos hc.2]; omega
    unfold consumeErlang at ht'
    split at ht'
    · cases ht'
    · have hl : Layout { t with fds := Function.update t.fds 2 { t.fds 2 with revents := 0 } } :=
        h.congr fun i => by
          by_cases hi : i = 2
          · rw [hi, Function.update_self]
          · rw [Function.update_of_ne hi]
      have hother : ∀ i, i ≠ 2 → Function.update t.fds 2 { t.fds 2 with revents := 0 } i = t.fds i :=
        fun i hi => Function.update_of_ne hi _ _
      have hm := marks_congr h.placed fun i hi _ => hother i (by omega)
      cases command with
      | exit => cases ht'
      | reply =>
        cases ht'
        exact ⟨⟨hl, hn, [], by rw [List.append_nil]; exact hm, fun _ h => nomatch h⟩, rfl, rfl⟩
      | spawn pid fd_stdout fd_stderr =>
        cases ht'
        obtain ⟨hl', hm'⟩ := hl.spawn pid fd_stdout fd_stderr
        have hsize := h.size
        refine ⟨⟨hl', hn, _, hm'.trans (congrArg (· ++ _) hm), fun q hq => by rw [List.mem_singleton.mp hq]⟩,
          ?_, ?_⟩
        · exact (spawn_fds pid _ _ (show 0 < t.nfds by omega)).trans (hother 0 (by decide))
        · exact (spawn_fds pid _ _ (show 1 < t.nfds by omega)).trans (hother 1 (by decide))
  · rename_i hc
    cases hs
    have hz : events (t.fds 2) = 0 := by
      rw [events, if_neg]
      intro hr
      rw [events, if_pos hr] at hc
      exact hc ⟨by omega, hr⟩
    exact ⟨⟨h, by rw [hz, Nat.zero_add], [], (List.append_nil _).symm, fun _ h => nomatch h⟩, rfl, rfl⟩

/-- The entry of the program's own output. -/
theorem waitStream_spec {i n : Nat} {s s' : Nat × Table} (hi : i < 3) (h : Layout s.2)
    (hn : s.1 = events (s.2.fds i) + n) (hs : waitStream fails i s = some s') :
    Waits s.2 s' n ∧ ∀ j, j ≠ i → s'.2.fds j = s.2.fds j := by
  unfold waitStream at hs
  rcases checkStream_spec fails hn with hc | hc | hc
  · rw [hc] at hs
    cases hs
    refine ⟨⟨h.congr fun j => ?_, rfl, [], ?_, fun _ h => nomatch h⟩, fun j hj => Function.update_of_ne hj _ _⟩
    · by_cases hj : j = i
      · rw [hj, Function.update_self]
      · rw [Function.update_of_ne hj]
    · rw [List.append_nil]
      exact marks_congr h.placed fun j hj _ => Function.update_of_ne (by omega) _ _
  · rw [hc] at hs
    cases hs
  · generalize checkStream fails i s.1 s.2.fds = r at hs hc
    obtain ⟨status, c, f⟩ := r
    subst hc
    cases hs

/-- A child whose entries have events is checked once. -/
def ChecksOnce (r : Round) (t : Table) (checked : List Nat) : Prop :=
  ∀ p ∈ t.processes, r.revents p.m_index_stdout ≠ 0 ∨ r.revents p.m_index_stderr ≠ 0 → checked.count p.serial = 1

/-- The events that `poll` finds at the entries of a child are counted. -/
theorem Layout.events_ne {t : Table} (h : Layout t) {r : Round} {p : ProcessData} (hp : p ∈ t.processes)
    (hr : r.revents p.m_index_stdout ≠ 0 ∨ r.revents p.m_index_stderr ≠ 0) : p.events (poll r t).fds ≠ 0 := by
  obtain ⟨k, hk, rfl⟩ := List.getElem_of_mem hp
  obtain ⟨hout, herr, -⟩ := h.placed.getElem hk
  have hsize := h.size
  have hfds : ∀ i < t.nfds, ((poll r t).fds i).revents = r.revents i := fun i hi => by
    show (if i < t.nfds then _ else _ : Pollfd).revents = _
    rw [if_pos hi]
  rw [ProcessData.events, events, events, hfds _ (by omega), hfds _ (by omega)]
  rcases hr with hr | hr
  · rw [if_pos hr]
    omega
  · rw [if_pos hr]
    omega

/-- A round keeps the layout, and checks each child with events once. -/
theorem round_spec {r : Round} {t t' : Table} {checked : List Nat} (h : Layout t)
    (hr : round r t = some (t', checked)) : Layout t' ∧ ChecksOnce r t checked := by
  unfold round at hr
  split at hr
  · cases hr
  · obtain ⟨s₁, h₁, hr⟩ := Option.bind_eq_some_iff.mp hr
    obtain ⟨s₂, h₂, hr⟩ := Option.bind_eq_some_iff.mp hr
    obtain ⟨s₃, h₃, hr⟩ := Option.bind_eq_some_iff.mp hr
    obtain ⟨c, hc, hr⟩ := Option.bind_eq_some_iff.mp hr
    cases hr
    have hfd : ∀ i, ((poll r t).fds i).fd = (t.fds i).fd := fun i => by
      show (if _ then _ else _ : Pollfd).fd = _
      split <;> rfl
    rw [pollCount_eq h] at h₁
    obtain ⟨w₁, h0, h1⟩ := waitErlang_spec (h.congr hfd) h₁
    obtain ⟨w₂, h0'⟩ := waitStream_spec (by decide) w₁.layout (by rw [w₁.count, h1]) h₂
    obtain ⟨w₃, -⟩ := waitStream_spec (by decide) w₂.layout (by rw [w₂.count, h0' 0 (by decide), h0]) h₃
    -- the children are those at the poll, and perhaps new ones without events
    obtain ⟨new₁, hm₁, hz₁⟩ := w₁.marks
    obtain ⟨new₂, hm₂, hz₂⟩ := w₂.marks
    obtain ⟨new₃, hm₃, hz₃⟩ := w₃.marks
    have hmarks : marks s₃.2.fds s₃.2.processes = marks (poll r t).fds t.processes ++ (new₁ ++ new₂ ++ new₃) := by
      rw [hm₃, hm₂, hm₁]
      simp only [List.append_assoc]
    have hzero : ∀ q ∈ new₁ ++ new₂ ++ new₃, q.2 = 0 := by
      intro q hq
      rcases List.mem_append.mp hq with hq | hq
      · exact (List.mem_append.mp hq).elim (hz₁ q) (hz₂ q)
      · exact hz₃ q hq
    have hpending : s₃.1 = pending s₃.2.fds s₃.2.processes := by
      rw [w₃.count, pending_eq s₃.2.fds, hmarks, List.map_append, List.sum_append, ← pending_eq,
        List.sum_eq_zero_iff_forall_eq_nat.mpr (List.forall_mem_map.mpr hzero), Nat.add_zero]
    obtain ⟨hp, hn, hk, m, hm, hrest⟩ := checkLoop_spec hc w₃.layout.placed w₃.layout.size hpending
    refine ⟨⟨hn, hp, w₃.layout.nodup.sublist hk, fun i hi => w₃.layout.fresh i (hk.subset hi)⟩, fun q hq hevents => ?_⟩
    have hmark : (q.serial, q.events (poll r t).fds) ∈ marks s₃.2.fds s₃.2.processes := by
      rw [hmarks]
      exact List.mem_append_left _ (List.mem_map_of_mem hq)
    have htake : (q.serial, q.events (poll r t).fds) ∈ (marks s₃.2.fds s₃.2.processes).take m := by
      rw [← List.take_append_drop m (marks _ _)] at hmark
      refine (List.mem_append.mp hmark).resolve_right fun hdrop => ?_
      exact absurd (hrest _ hdrop) (h.events_ne hq hevents)
    have hserials : (marks s₃.2.fds s₃.2.processes).map Prod.fst = s₃.2.processes.map ProcessData.serial := by
      simp only [marks, List.map_map, Function.comp_def]
    have hnodup : (((marks s₃.2.fds s₃.2.processes).take m).map Prod.fst).Nodup :=
      (hserials ▸ w₃.layout.nodup).sublist ((List.take_sublist _ _).map _)
    rw [hm, List.nil_append]
    exact List.count_eq_one_of_mem hnodup (List.mem_map_of_mem htake)

/-- Between rounds the table has three entries and two for each child, and the child at position `k` has its
own descriptors at `3 + 2k` and `4 + 2k`; a round checks each child with events once. -/
theorem descriptor_table {t : Table} (h : Reachable t) :
    t.nfds = 3 + 2 * t.processes.length ∧
      (∀ k (hk : k < t.processes.length), t.processes[k].m_index_stdout = 3 + 2 * k ∧
        t.processes[k].m_index_stderr = 4 + 2 * k ∧ (t.fds (3 + 2 * k)).fd = t.processes[k].fd_stdout ∧
        (t.fds (4 + 2 * k)).fd = t.processes[k].fd_stderr) ∧
      ∀ (r : Round) (t' : Table) (checked : List Nat), round r t = some (t', checked) → ChecksOnce r t checked := by
  have hlayout : Layout t := by
    induction h with
    | init fd_stdout fd_stderr fd_erlang m => exact Layout.init fd_stdout fd_stderr fd_erlang m
    | round _ r hr ih => exact (round_spec ih hr).1
  exact ⟨hlayout.size, fun k hk => hlayout.placed.getElem hk, fun r t' checked hr => (round_spec hlayout hr).2⟩

/-- Erlang spawns a child, and the child closes its standard error. -/
theorem descriptor_table_spawn : ∃ t checked t',
    round ⟨fun i => if i = 2 then POLLIN else 0, .spawn 77 8 9, fun _ => false⟩ (init 5 6 0 fun _ => ⟨0, 0⟩) =
      some (t, checked) ∧ t.processes.length = 1 ∧
    round ⟨fun i => if i = 4 then POLLHUP else 0, .reply, fun _ => false⟩ t = some (t', [0]) ∧
      t.nfds = 3 + 2 * t.processes.length ∧ t'.nfds = 3 + 2 * t'.processes.length ∧ t'.processes = [] := by
  have hloop : ∀ (p : ProcessData) (s : Checked),
      checkLoop (fun _ => false) [p] 0 s = some { s with processes := s.processes ++ [p] } := fun p s => by
    rw [checkLoop, if_pos rfl]
  obtain ⟨x, h₁, hprocesses, hnfds, hlength⟩ : ∃ x,
      round ⟨fun i => if i = 2 then POLLIN else 0, .spawn 77 8 9, fun _ => false⟩ (init 5 6 0 fun _ => ⟨0, 0⟩) =
        some x ∧ x.1.processes = [⟨77, 3, 4, 0, 8, 9⟩] ∧ x.1.nfds = 5 ∧ x.1.processes.length = 1 := by
    rw [round, if_neg (by decide)]
    exact ⟨_, (congrArg (Option.bind · _) (hloop ⟨77, 3, 4, 0, 8, 9⟩ _)).trans rfl, rfl, rfl, rfl⟩
  obtain ⟨⟨fds, nfds, processes, spawned⟩, checked⟩ := x
  obtain rfl : processes = _ := hprocesses
  obtain rfl : nfds = 5 := hnfds
  have hgone (F : Nat → Pollfd) (h₄ : (F 4).revents = POLLHUP) (h₃ : (F 3).revents = 0) :
      checkLoop (fun _ => false) [⟨77, 3, 4, 0, 8, 9⟩] 1 ⟨F, 5, [], []⟩ = some ⟨F, 3, [], [0]⟩ := by
    have hcheck : check (fun _ => false) ⟨77, 3, 4, 0, 8, 9⟩ 1 F = (.error_HUP, 1, F) := by
      simp [check, checkStream, consumeStream, h₄, show POLLHUP ≠ 0 by decide, show POLLHUP &&& POLLERR = 0 by decide]
    have hflush : flush (fun _ => false) ⟨77, 3, 4, 0, 8, 9⟩ 1 F = (.success, 0) := by
      simp [flush, flushHalf, flushStream, h₄, h₃, show POLLHUP ≠ 0 by decide, show POLLHUP &&& POLLIN = 0 by decide]
    rw [checkLoop, if_neg (by decide), hcheck]
    simp only [hflush, shiftAll, eraseFrom, List.map_nil, List.reduceOption_nil, List.nil_append]
    rw [checkLoop]
    rfl
  have h₂ : round ⟨fun i => if i = 4 then POLLHUP else 0, .reply, fun _ => false⟩
      ⟨fds, 5, [⟨77, 3, 4, 0, 8, 9⟩], spawned⟩ = some (⟨fun i => if i < 5 then
        { fds i with revents := if i = 4 then POLLHUP else 0 } else fds i, 3, [], spawned⟩, [0]) := by
    rw [round, if_neg (show ¬pollCount ⟨fun i => if i = 4 then POLLHUP else 0, .reply, fun _ => false⟩ 5 = 0 by decide)]
    exact (congrArg (Option.bind · _) (hgone _ rfl rfl)).trans rfl
  have hr : Reachable ⟨fds, 5, [⟨77, 3, 4, 0, 8, 9⟩], spawned⟩ := .round (.init 5 6 0 fun _ => ⟨0, 0⟩) _ h₁
  exact ⟨_, checked, _, h₁, hlength, h₂, (descriptor_table hr).1, (descriptor_table (.round hr _ h₂)).1, rfl⟩

end CloudI.Spawn.Descriptors
