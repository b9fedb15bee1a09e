import Mathlib.Algebra.GroupWithZero.Nat
import CloudI.Framework.Dict
import CloudI.Framework.Timers
import CloudI.PQueue.Contents

/-!
# Queued service requests

The service requests that wait in a dispatcher while it is busy: the queue,
the timer of each request, and the size of the queue in bytes. The external
and the internal services have the same functions on them. `Inv` keeps these
in step with each other, and with a ledger of what became of each request that
was accepted: it waits, it was started, or its timeout removed it.
-/

namespace CloudI.Services

open PriorityFamily
open scoped List

/-- The type of a service request. -/
inductive SendType where
  | sendAsync
  | sendSync
deriving DecidableEq

/-- `cloudi_service_send_async` and `cloudi_service_send_sync` messages. -/
structure Request (TransId Pid Term : Type) where
  sendType : SendType
  name : List Nat
  pattern : List Nat
  requestInfo : Term
  request : Term
  timeout : Nat
  priority : Priority
  transId : TransId
  source : Pid

/-- `cloudi_service_recv_timeout` messages. -/
structure RecvTimeout (TransId : Type) where
  priority : Priority
  transId : TransId
  size : Nat

variable {TransId Pid Term : Type}

/-- The fields `recv_timeouts`, `queued` and `queued_size` of a dispatcher. -/
structure Incoming (TransId Pid Term : Type) where
  recvTimeouts : Dict TransId Nat := Dict.new
  queued : PQueue4 (Nat × Request TransId Pid Term) := PQueue4.new
  queuedSize : Int := 0

abbrev RecvTimers (TransId : Type) := Timers (RecvTimeout TransId)

namespace Incoming

section

variable [DecidableEq TransId]

/-- `recv_timeout_start/6` -/
def recvTimeoutStart (Timeout : Nat) (Priority : Priority) (TransId' : TransId) (Size : Nat)
    (T : Request TransId Pid Term) (s : Incoming TransId Pid Term) (t : RecvTimers TransId) :
    Except Exn (Incoming TransId Pid Term × RecvTimers TransId) := do
  let (Tref, t) := t.sendAfter Timeout ⟨Priority, TransId', Size⟩
  return ({ recvTimeouts := s.recvTimeouts.store TransId' Tref
            queued := ← s.queued.in3 (Size, T) Priority.val
            queuedSize := s.queuedSize + Size }, t)

/-- `handle_info` of a `cloudi_service_recv_timeout` message, and whether it removed the request. -/
def recvTimeout (QueueRequests : Bool) (m : RecvTimeout TransId) (s : Incoming TransId Pid Term) :
    Except Exn (Bool × Incoming TransId Pid Term) := do
  if QueueRequests then
    -- not removed if the message was sent while its timer was cancelled
    let (Removed, NextQueue) ← s.queued.removeUnique3 (fun x => x.2.transId = m.transId) m.priority.val
    return (Removed, { recvTimeouts := s.recvTimeouts.erase m.transId
                       queued := NextQueue
                       queuedSize := if Removed then s.queuedSize - m.size else s.queuedSize })
  else return (false, { s with recvTimeouts := s.recvTimeouts.erase m.transId })

/-- What `process_queue/1` does with a request it took from the queue: its
timer is cancelled, for the time left, and it no longer counts. -/
def start (Size : Nat) (TransId' : TransId) (NewQueue : PQueue4 (Nat × Request TransId Pid Term))
    (s : Incoming TransId Pid Term) (t : RecvTimers TransId) :
    Except Exn (Nat × Incoming TransId Pid Term × RecvTimers TransId) :=
  match s.recvTimeouts TransId' with
  | none => .error .badarg
  | some RecvTimer =>
    let (Timeout, t) := t.cancelTimer RecvTimer
    .ok (Timeout.getD 0, { recvTimeouts := s.recvTimeouts.erase TransId'
                           queued := NewQueue
                           queuedSize := s.queuedSize - Size }, t)

end

/-- The requests that wait, with their sizes. -/
def held (s : Incoming TransId Pid Term) : List (Nat × Request TransId Pid Term) := s.queued.contents.toList

/-- The transaction ids of the requests that wait. -/
def ids (s : Incoming TransId Pid Term) : List TransId := s.held.map fun x => x.2.transId

end Incoming

/-- The message of the timer of a request that waits. -/
def timeoutOf (x : Nat × Request TransId Pid Term) : RecvTimeout TransId := ⟨x.2.priority, x.2.transId, x.1⟩

/-- The transaction ids of the requests accepted so far, and of those started
and of those removed by their timeouts. -/
structure Ledger (TransId : Type) where
  accepted : List TransId := []
  started : List TransId := []
  timedOut : List TransId := []

namespace Incoming

/-- The queue, the timers and the ledger are in step. -/
structure Inv (L : Ledger TransId) (s : Incoming TransId Pid Term) (t : RecvTimers TransId) : Prop where
  coherent : s.queued.Coherent
  placed : ∀ P, ∀ x ∈ s.queued.contents P, x.2.priority = P
  keys : ∀ i, s.recvTimeouts i ≠ none ↔ i ∈ s.ids
  size : s.queuedSize = (s.held.map Prod.fst).sum
  nodup : L.accepted.Nodup
  ledger : L.accepted.Perm (s.ids ++ (L.started ++ L.timedOut))
  timer : ∀ x ∈ s.held, ∃ ref, s.recvTimeouts x.2.transId = some ref ∧ t.Pending ref (timeoutOf x)
  runs : ∀ ref m, t.Runs ref m → s.recvTimeouts m.transId = some ref ∧ ∃ x ∈ s.held, timeoutOf x = m
  mailbox : ∀ m ∈ t.mailbox, m.transId ∈ L.accepted ∧ (∀ x ∈ s.held, x.2.transId = m.transId → timeoutOf x = m) ∧
    ∀ ref m', t.Runs ref m' → m'.transId ≠ m.transId
  refs : ∀ i ref, s.recvTimeouts i = some ref → ref < t.next
  inj : ∀ i j ref, s.recvTimeouts i = some ref → s.recvTimeouts j = some ref → i = j

variable {L : Ledger TransId} {s : Incoming TransId Pid Term} {t t' : RecvTimers TransId}

theorem mem_ids {i : TransId} : i ∈ s.ids ↔ ∃ x ∈ s.held, x.2.transId = i := List.mem_map

theorem inv_new : Inv ({} : Ledger TransId) ({} : Incoming TransId Pid Term) Timers.new := by
  have hcontents : ∀ P, (PQueue4.new : PQueue4 (Nat × Request TransId Pid Term)).contents P = [] := fun P => by
    rw [PQueue4.contents_new]
    rfl
  have hheld : ({} : Incoming TransId Pid Term).held = [] := toList_of_empty hcontents
  have hruns : ∀ {ref} {m : RecvTimeout TransId}, ¬ Timers.new.Runs ref m := Timers.not_runs_new
  constructor
  case coherent => exact PQueue4.coherent_new
  case placed =>
    intro P x hx
    rw [show ({} : Incoming TransId Pid Term).queued = PQueue4.new from rfl, hcontents] at hx
    cases hx
  case keys => simp [Dict.new, ids, hheld]
  case size => simp [hheld]
  case nodup => exact List.nodup_nil
  case ledger => simp [ids, hheld]
  case timer => simp [hheld]
  case runs => exact fun ref m h => absurd h hruns
  case mailbox => exact fun m hm => absurd hm List.not_mem_nil
  case refs => simp [Dict.new]
  case inj => simp [Dict.new]

theorem Inv.ids_accepted (h : Inv L s t) {i : TransId} (hi : i ∈ s.ids) : i ∈ L.accepted :=
  h.ledger.mem_iff.mpr (List.mem_append_left _ hi)

theorem Inv.nodup_ids (h : Inv L s t) : s.ids.Nodup :=
  (List.nodup_append.mp (h.ledger.nodup_iff.mp h.nodup)).1

theorem Inv.eq_of_transId (h : Inv L s t) {x y : Nat × Request TransId Pid Term} (hx : x ∈ s.held) (hy : y ∈ s.held)
    (he : x.2.transId = y.2.transId) : x = y :=
  List.inj_on_of_nodup_map h.nodup_ids hx hy he

/-! ## A request starts to wait -/

section

variable [DecidableEq TransId]

theorem recvTimeoutStart_spec (h : Inv L s t) {T : Request TransId Pid Term} (hT : T.transId ∉ L.accepted)
    (Timeout Size : Nat) :
    ∃ s' t', recvTimeoutStart Timeout T.priority T.transId Size T s t = .ok (s', t') ∧
      Inv { L with accepted := T.transId :: L.accepted } s' t' ∧ s'.held.Perm ((Size, T) :: s.held) := by
  obtain ⟨Q', hr, hc, hQ'⟩ := PQueue4.in3_spec h.coherent (Size, T) T.priority
  have hperm : Q'.contents.toList.Perm ((Size, T) :: s.held) := hc ▸ toList_enq_perm ..
  have hid : ∀ {i}, i ∈ s.ids → i ≠ T.transId := fun hi he => hT (he ▸ h.ids_accepted hi)
  have hstored : ∀ {i}, i ≠ T.transId → s.recvTimeouts.store T.transId t.next i = s.recvTimeouts i :=
    fun hi => Function.update_of_ne hi _ _
  have hself : s.recvTimeouts.store T.transId t.next T.transId = some t.next := Function.update_self ..
  have hidperm : (Q'.contents.toList.map fun x => x.2.transId).Perm (T.transId :: s.ids) := hperm.map _
  have hnext : ∀ {i ref}, s.recvTimeouts i = some ref → ref ≠ t.next := fun hi => (h.refs _ _ hi).ne
  refine ⟨{ recvTimeouts := s.recvTimeouts.store T.transId t.next, queued := Q', queuedSize := s.queuedSize + Size },
    (t.sendAfter Timeout ⟨T.priority, T.transId, Size⟩).2, by rw [recvTimeoutStart, hr]; rfl, ?_, hperm⟩
  constructor
  case coherent => exact hQ'
  case placed =>
    intro P x hx
    rw [hc, enq] at hx
    by_cases hP : P = T.priority
    · rw [hP, set_self, List.mem_append, List.mem_singleton] at hx
      rcases hx with hx | rfl
      · rw [hP]
        exact h.placed _ x hx
      · exact hP.symm
    · rw [set_of_ne _ _ hP] at hx
      exact h.placed P x hx
  case keys =>
    intro i
    show s.recvTimeouts.store T.transId t.next i ≠ none ↔ i ∈ Q'.contents.toList.map fun x => x.2.transId
    rw [hidperm.mem_iff, List.mem_cons]
    by_cases hi : i = T.transId
    · rw [hi, hself]
      simp
    · rw [hstored hi, h.keys, or_iff_right hi]
  case size =>
    show s.queuedSize + Size = ((Q'.contents.toList.map Prod.fst).sum : Nat)
    rw [(hperm.map Prod.fst).sum_eq, List.map_cons, List.sum_cons, h.size]
    omega
  case nodup => exact List.nodup_cons.mpr ⟨hT, h.nodup⟩
  case ledger => exact (h.ledger.cons T.transId).trans (hidperm.symm.append_right (L.started ++ L.timedOut))
  case timer =>
    intro x hx
    rcases List.mem_cons.mp (hperm.mem_iff.mp hx) with rfl | hx
    · exact ⟨t.next, hself, .inl (Timers.runs_sendAfter.mpr (.inl ⟨rfl, rfl⟩))⟩
    · obtain ⟨ref, href, hp⟩ := h.timer x hx
      exact ⟨ref, (hstored (hid (mem_ids.mpr ⟨x, hx, rfl⟩))).trans href, Timers.pending_sendAfter (hnext href) hp⟩
  case runs =>
    intro ref m hrun
    rcases Timers.runs_sendAfter.mp hrun with ⟨rfl, rfl⟩ | ⟨hne, hrun⟩
    · exact ⟨hself, _, hperm.mem_iff.mpr List.mem_cons_self, rfl⟩
    · obtain ⟨href, x, hx, rfl⟩ := h.runs ref m hrun
      exact ⟨(hstored (hid (mem_ids.mpr ⟨x, hx, rfl⟩))).trans href, x,
        hperm.mem_iff.mpr (List.mem_cons_of_mem _ hx), rfl⟩
  case mailbox =>
    intro m hm
    obtain ⟨hacc, hheld, hfired⟩ := h.mailbox m hm
    refine ⟨List.mem_cons_of_mem _ hacc, fun x hx he => ?_, fun ref m' hrun he => ?_⟩
    · rcases List.mem_cons.mp (hperm.mem_iff.mp hx) with rfl | hx
      · exact absurd (he ▸ hacc) hT
      · exact hheld x hx he
    · rcases Timers.runs_sendAfter.mp hrun with ⟨rfl, rfl⟩ | ⟨hne, hrun⟩
      · rw [show T.transId = m.transId from he] at hT
        exact hT hacc
      · exact hfired ref m' hrun he
  case refs =>
    intro i ref hi
    show ref < t.next + 1
    by_cases hiT : i = T.transId
    · rw [hiT] at hi
      obtain rfl : t.next = ref := Option.some.inj (hself.symm.trans hi)
      exact Nat.lt_succ_self _
    · exact (h.refs i ref ((hstored hiT).symm.trans hi)).trans (Nat.lt_succ_self _)
  case inj =>
    intro i j ref hi hj
    by_cases hiT : i = T.transId
    · by_cases hjT : j = T.transId
      · rw [hiT, hjT]
      · rw [hiT] at hi
        exact absurd (Option.some.inj (hself.symm.trans hi)).symm (hnext ((hstored hjT).symm.trans hj))
    · by_cases hjT : j = T.transId
      · rw [hjT] at hj
        exact absurd (Option.some.inj (hself.symm.trans hj)).symm (hnext ((hstored hiT).symm.trans hi))
      · exact h.inj i j ref ((hstored hiT).symm.trans hi) ((hstored hjT).symm.trans hj)

/-! ## A request leaves -/

/-- A request is taken out of the queue and its timer no longer runs. -/
theorem Inv.remove (h : Inv L s t) {x : Nat × Request TransId Pid Term}
    {Q' : PQueue4 (Nat × Request TransId Pid Term)} (hQ' : Q'.Coherent)
    (hplaced : ∀ P, ∀ y ∈ Q'.contents P, y ∈ s.queued.contents P) (hperm : s.held.Perm (x :: Q'.contents.toList))
    {L' : Ledger TransId} (hL : L'.accepted = L.accepted)
    (hL' : (L'.started ++ L'.timedOut).Perm (x.2.transId :: (L.started ++ L.timedOut)))
    (hnext : t'.next = t.next) (hmailbox : ∀ m ∈ t'.mailbox, m ∈ t.mailbox)
    (hruns : ∀ ref m, t'.Runs ref m → t.Runs ref m ∧ m.transId ≠ x.2.transId)
    (hpending : ∀ ref (y : Nat × Request TransId Pid Term), s.recvTimeouts y.2.transId = some ref →
      y.2.transId ≠ x.2.transId → t.Pending ref (timeoutOf y) → t'.Pending ref (timeoutOf y)) :
    Inv L' { recvTimeouts := s.recvTimeouts.erase x.2.transId
             queued := Q'
             queuedSize := s.queuedSize - x.1 } t' := by
  have hidperm : s.ids.Perm (x.2.transId :: Q'.contents.toList.map fun x => x.2.transId) := hperm.map _
  have hnot : ∀ {y}, y ∈ Q'.contents.toList → y.2.transId ≠ x.2.transId := fun {y} hy he =>
    (List.nodup_cons.mp (hidperm.nodup_iff.mp h.nodup_ids)).1 (he ▸ List.mem_map_of_mem hy)
  have hold : ∀ {y}, y ∈ Q'.contents.toList → y ∈ s.held := fun hy =>
    hperm.mem_iff.mpr (List.mem_cons_of_mem _ hy)
  have hnew : ∀ {y}, y ∈ s.held → y.2.transId ≠ x.2.transId → y ∈ Q'.contents.toList := fun hy he =>
    (List.mem_cons.mp (hperm.mem_iff.mp hy)).resolve_left fun hxy => he (hxy ▸ rfl)
  have herase : ∀ {i}, i ≠ x.2.transId → s.recvTimeouts.erase x.2.transId i = s.recvTimeouts i :=
    fun hi => Function.update_of_ne hi _ _
  have hself : s.recvTimeouts.erase x.2.transId x.2.transId = none := Function.update_self ..
  have hsome : ∀ {i ref}, s.recvTimeouts.erase x.2.transId i = some ref → s.recvTimeouts i = some ref := by
    intro i ref hi
    by_cases he : i = x.2.transId
    · rw [he, hself] at hi
      cases hi
    · exact (herase he).symm.trans hi
  constructor
  case coherent => exact hQ'
  case placed => exact fun P y hy => h.placed P y (hplaced P y hy)
  case keys =>
    intro i
    show s.recvTimeouts.erase x.2.transId i ≠ none ↔ i ∈ Q'.contents.toList.map fun x => x.2.transId
    have hnodup := List.nodup_cons.mp (hidperm.nodup_iff.mp h.nodup_ids)
    by_cases hi : i = x.2.transId
    · rw [hi, hself]
      exact iff_of_false (fun hc => hc rfl) hnodup.1
    · rw [herase hi, h.keys, hidperm.mem_iff, List.mem_cons, or_iff_right hi]
  case size =>
    show s.queuedSize - x.1 = ((Q'.contents.toList.map Prod.fst).sum : Nat)
    rw [h.size, (hperm.map Prod.fst).sum_eq, List.map_cons, List.sum_cons]
    omega
  case nodup => exact hL ▸ h.nodup
  case ledger =>
    rw [hL]
    calc L.accepted
        _ ~ s.ids ++ (L.started ++ L.timedOut) := h.ledger
        _ ~ (x.2.transId :: Q'.contents.toList.map fun x => x.2.transId) ++ (L.started ++ L.timedOut) :=
          hidperm.append_right _
        _ ~ (Q'.contents.toList.map fun x => x.2.transId) ++ x.2.transId :: (L.started ++ L.timedOut) :=
          List.perm_middle.symm
        _ ~ (Q'.contents.toList.map fun x => x.2.transId) ++ (L'.started ++ L'.timedOut) := hL'.symm.append_left _
  case timer =>
    intro y hy
    obtain ⟨ref, href, hp⟩ := h.timer y (hold hy)
    exact ⟨ref, (herase (hnot hy)).trans href, hpending ref y href (hnot hy) hp⟩
  case runs =>
    intro ref m hrun
    obtain ⟨hrun, hne⟩ := hruns ref m hrun
    obtain ⟨href, y, hy, rfl⟩ := h.runs ref m hrun
    exact ⟨(herase hne).trans href, y, hnew hy hne, rfl⟩
  case mailbox =>
    intro m hm
    obtain ⟨hacc, hheld, hfired⟩ := h.mailbox m (hmailbox m hm)
    exact ⟨hL ▸ hacc, fun y hy => hheld y (hold hy), fun ref m' hrun => hfired ref m' (hruns ref m' hrun).1⟩
  case refs => exact fun i ref hi => hnext ▸ h.refs i ref (hsome hi)
  case inj => exact fun i j ref hi hj => h.inj i j ref (hsome hi) (hsome hj)

/-- The timeout of a request that waits removes it. -/
theorem recvTimeout_hit (h : Inv L s t) {m : RecvTimeout TransId} (hm : Timers.Receive m t t')
    (hi : m.transId ∈ s.ids) :
    ∃ s', recvTimeout true m s = .ok (true, s') ∧ Inv { L with timedOut := m.transId :: L.timedOut } s' t' ∧
      s.ids.Perm (m.transId :: s'.ids) := by
  obtain ⟨-, hheld, hfired⟩ := h.mailbox m hm.mem
  obtain ⟨x, hx, hxi⟩ := mem_ids.mp hi
  obtain rfl := hheld x hx hxi
  have hF : ∀ y ∈ s.held, decide (y.2.transId = x.2.transId) = true → y = x := fun y hy he =>
    h.eq_of_transId hy hx (of_decide_eq_true he)
  have hone : AtMostOne (fun y => decide (y.2.transId = x.2.transId)) s.queued.contents := by
    refine atMostOne_iff.mpr ?_
    have hnodup : (s.held.filter fun y => decide (y.2.transId = x.2.transId)).Nodup :=
      (List.Nodup.of_map _ h.nodup_ids).filter _
    refine (hnodup.subperm fun y hy => ?_ : _ <+~ [x]).length_le
    obtain ⟨hy, he⟩ := List.mem_filter.mp hy
    exact List.mem_singleton.mpr (hF y hy he)
  obtain ⟨v, Q', hr, hv, hQ'⟩ := PQueue4.removeUnique3_spec h.coherent x.2.priority hone
  have hxp : x ∈ s.queued.contents x.2.priority := by
    obtain ⟨P, hP⟩ := mem_toList.mp hx
    rwa [h.placed P x hP]
  obtain ⟨htrue, hperm⟩ := removeAt_perm hone hxp (decide_eq_true rfl)
  rw [← hv] at htrue hperm
  obtain rfl : v = true := htrue
  refine ⟨{ recvTimeouts := s.recvTimeouts.erase x.2.transId, queued := Q', queuedSize := s.queuedSize - x.1 },
    by rw [recvTimeout, if_pos rfl]; exact bind_ok hr _, ?_, hperm.map _⟩
  refine h.remove hQ' (fun P y hy => ?_) hperm rfl List.perm_middle hm.next_eq (fun m' => hm.mem_mailbox)
    (fun ref m' hrun => ⟨hm.runs.mp hrun, hfired ref m' (hm.runs.mp hrun)⟩) fun ref y _ hne => hm.pending fun he =>
      hne (congrArg RecvTimeout.transId he)
  rw [show Q'.contents = _ from (Prod.ext_iff.mp hv).2] at hy
  exact mem_of_mem_removeAt hy

omit [DecidableEq TransId] in
/-- Only the contents of the queue matter. -/
theorem Inv.setQueue (h : Inv L s t) {Q' : PQueue4 (Nat × Request TransId Pid Term)} (hQ' : Q'.Coherent)
    (hc : Q'.contents = s.queued.contents) : Inv L { s with queued := Q' } t := by
  have hheld : ({ s with queued := Q' } : Incoming TransId Pid Term).held = s.held := congrArg toList hc
  have hids : ({ s with queued := Q' } : Incoming TransId Pid Term).ids = s.ids := congrArg (List.map _) hheld
  constructor
  case coherent => exact hQ'
  case placed =>
    intro P x hx
    exact h.placed P x (hc ▸ hx)
  case keys => exact fun i => hids ▸ h.keys i
  case size => exact hheld ▸ h.size
  case nodup => exact h.nodup
  case ledger => exact hids ▸ h.ledger
  case timer => exact hheld ▸ h.timer
  case runs => exact hheld ▸ h.runs
  case mailbox => exact hheld ▸ h.mailbox
  case refs => exact h.refs
  case inj => exact h.inj

omit [DecidableEq TransId] in
theorem Inv.receive (h : Inv L s t) {m : RecvTimeout TransId} (hm : Timers.Receive m t t') (hi : m.transId ∉ s.ids) :
    Inv L s t' where
  coherent := h.coherent
  placed := h.placed
  keys := h.keys
  size := h.size
  nodup := h.nodup
  ledger := h.ledger
  timer x hx := by
    obtain ⟨ref, href, hp⟩ := h.timer x hx
    refine ⟨ref, href, hm.pending (fun he => hi ?_) hp⟩
    exact mem_ids.mpr ⟨x, hx, congrArg RecvTimeout.transId he⟩
  runs ref m' hrun := h.runs ref m' (hm.runs.mp hrun)
  mailbox m' hm' := by
    obtain ⟨hacc, hheld, hfired⟩ := h.mailbox m' (hm.mem_mailbox hm')
    exact ⟨hacc, hheld, fun ref m'' hrun => hfired ref m'' (hm.runs.mp hrun)⟩
  refs i ref hi := hm.next_eq ▸ h.refs i ref hi
  inj := h.inj

/-- A timeout that comes too late finds nothing, whether the dispatcher is busy or not. -/
theorem recvTimeout_miss (h : Inv L s t) {m : RecvTimeout TransId} (hm : Timers.Receive m t t')
    (hi : m.transId ∉ s.ids) (QueueRequests : Bool) :
    ∃ s', recvTimeout QueueRequests m s = .ok (false, s') ∧ Inv L s' t' ∧ s'.held = s.held := by
  have herase : s.recvTimeouts.erase m.transId = s.recvTimeouts := by
    refine Function.update_eq_self_iff.mpr ?_
    by_contra hne
    exact hi ((h.keys _).mp fun hn => hne hn.symm)
  cases QueueRequests with
  | false =>
    refine ⟨s, ?_, h.receive hm hi, rfl⟩
    rw [recvTimeout, if_neg Bool.false_ne_true, herase]
    rfl
  | true =>
    have hmiss : ∀ x ∈ s.held, decide (x.2.transId = m.transId) = false := fun x hx =>
      decide_eq_false fun he => hi (mem_ids.mpr ⟨x, hx, he⟩)
    have hone : AtMostOne (fun x => decide (x.2.transId = m.transId)) s.queued.contents := by
      have hnil : s.held.filter (fun x => decide (x.2.transId = m.transId)) = [] :=
        List.filter_eq_nil_iff.mpr fun x hx => Bool.eq_false_iff.mp (hmiss x hx)
      exact atMostOne_iff.mpr (hnil ▸ Nat.zero_le 1)
    obtain ⟨v, Q', hr, hv, hQ'⟩ := PQueue4.removeUnique3_spec h.coherent m.priority hone
    rw [removeAt_miss (List.any_eq_false.mpr fun x hx =>
      Bool.eq_false_iff.mp (hmiss x (mem_toList.mpr ⟨m.priority, hx⟩)))] at hv
    obtain ⟨rfl, hc⟩ := Prod.mk.inj hv
    refine ⟨{ s with queued := Q' }, ?_, (h.receive hm hi).setQueue hQ' hc, congrArg toList hc⟩
    rw [recvTimeout, if_pos rfl, herase]
    exact bind_ok hr _

/-- Starting the first request of the queue cancels its timer. -/
theorem start_spec (h : Inv L s t) {Size : Nat} {T : Request TransId Pid Term}
    {NewQueue : PQueue4 (Nat × Request TransId Pid Term)} (hout : s.queued.out1 = (some (Size, T), NewQueue)) :
    ∃ Timeout s' t', start Size T.transId NewQueue s t = .ok (Timeout, s', t') ∧
      Inv { L with started := T.transId :: L.started } s' t' ∧ s.held = (Size, T) :: s'.held := by
  rw [PQueue4.out1_eq, Prod.mk.injEq, Option.map_eq_some_iff] at hout
  obtain ⟨⟨⟨_, P⟩, hP, rfl⟩, hNewQueue⟩ := hout
  obtain ⟨l, hl, hb, hc, hQ'⟩ := PQueue4.pout_some h.coherent (Prod.ext hP hNewQueue)
  have hheld : s.held = (Size, T) :: NewQueue.contents.toList := by
    rw [hc]
    exact toList_deq hl hb
  obtain ⟨ref, href, -⟩ := h.timer (Size, T) (hheld ▸ List.mem_cons_self)
  have hne : ∀ {ref' i}, s.recvTimeouts i = some ref' → i ≠ T.transId → ref' ≠ ref := fun hi hiT he =>
    hiT (h.inj _ _ ref (he ▸ hi) href)
  refine ⟨((t.cancelTimer ref).1).getD 0,
    { recvTimeouts := s.recvTimeouts.erase T.transId, queued := NewQueue, queuedSize := s.queuedSize - Size },
    (t.cancelTimer ref).2, by rw [start, href], ?_, hheld⟩
  refine @Inv.remove _ _ _ _ _ _ _ _ h (Size, T) _ hQ' (fun P' y hy => ?_) (List.Perm.of_eq hheld) _ rfl
    (List.Perm.refl _) rfl (fun m => id) (fun ref' m hrun => ?_)
    fun ref' y hy hyT => Timers.pending_cancelTimer (hne hy hyT)
  · rw [hc] at hy
    by_cases hP' : P' = P
    · rw [hP', set_self] at hy
      rw [hP', hl]
      exact List.mem_cons_of_mem _ hy
    · rwa [set_of_ne _ _ hP'] at hy
  · obtain ⟨hne', hrun⟩ := Timers.runs_cancelTimer.mp hrun
    refine ⟨hrun, fun he => hne' ?_⟩
    have := (h.runs ref' m hrun).1
    rw [he] at this
    exact Option.some.inj (this.symm.trans href)

omit [DecidableEq TransId] in
/-- With nothing to take from the queue, no request waits. -/
theorem held_of_out_none (h : Inv L s t) {NewQueue : PQueue4 (Nat × Request TransId Pid Term)}
    (hout : s.queued.out1 = (none, NewQueue)) :
    ({ s with queued := NewQueue } : Incoming TransId Pid Term).held = [] ∧ Inv L { s with queued := NewQueue } t := by
  rw [PQueue4.out1_eq, Prod.mk.injEq, Option.map_eq_none_iff] at hout
  obtain ⟨hP, rfl⟩ := hout
  have hempty := PQueue4.pout_none h.coherent (Prod.ext hP rfl)
  obtain ⟨-, hc, hQ'⟩ := PQueue4.pout_spec h.coherent
  rw [deq_of_empty hempty] at hc
  exact ⟨toList_of_empty fun P => hc ▸ hempty P, h.setQueue hQ' hc⟩

/-! ## The rest -/

omit [DecidableEq TransId] in
/-- A request that does not wait is started when it is accepted. -/
theorem Inv.startNow (h : Inv L s t) {i : TransId} (hi : i ∉ L.accepted) :
    Inv { L with accepted := i :: L.accepted, started := i :: L.started } s t where
  coherent := h.coherent
  placed := h.placed
  keys := h.keys
  size := h.size
  nodup := List.nodup_cons.mpr ⟨hi, h.nodup⟩
  ledger := (h.ledger.cons i).trans List.perm_middle.symm
  timer := h.timer
  runs := h.runs
  mailbox m hm := by
    obtain ⟨hacc, hrest⟩ := h.mailbox m hm
    exact ⟨List.mem_cons_of_mem _ hacc, hrest⟩
  refs := h.refs
  inj := h.inj

omit [DecidableEq TransId] in
theorem Inv.elapse (h : Inv L s t) (ht : Timers.Elapse t t') : Inv L s t' where
  coherent := h.coherent
  placed := h.placed
  keys := h.keys
  size := h.size
  nodup := h.nodup
  ledger := h.ledger
  timer x hx := by
    obtain ⟨ref, href, hp⟩ := h.timer x hx
    exact ⟨ref, href, ht.pending hp⟩
  runs ref m hrun := h.runs ref m (ht.runs hrun)
  mailbox m hm := by
    cases ht with
    | pass ms =>
      obtain ⟨hacc, hheld, hfired⟩ := h.mailbox m hm
      exact ⟨hacc, hheld, fun ref m' hrun => hfired ref m' ((Timers.Elapse.pass ms).runs hrun)⟩
    | @fire ref₀ m₀ h₀ =>
      have hfire : Timers.Elapse t _ := .fire h₀
      rcases List.mem_append.mp hm with hm | hm
      · obtain ⟨hacc, hheld, hfired⟩ := h.mailbox m hm
        exact ⟨hacc, hheld, fun ref m' hrun => hfired ref m' (hfire.runs hrun)⟩
      · obtain rfl := List.mem_singleton.mp hm
        obtain ⟨href, x, hx, rfl⟩ := h.runs ref₀ m ⟨0, h₀⟩
        refine ⟨h.ids_accepted (mem_ids.mpr ⟨x, hx, rfl⟩), fun y hy he => ?_, fun ref m' hrun he => ?_⟩
        · rw [h.eq_of_transId hy hx he]
        · -- the timer that ended is gone, and the request has no other one
          obtain ⟨href', -⟩ := h.runs ref m' (hfire.runs hrun)
          rw [he, href] at href'
          obtain rfl := Option.some.inj href'
          obtain ⟨left, hrun⟩ := hrun
          have hrun : Function.update t.running ref₀ none ref₀ = some (left, m') := hrun
          rw [Function.update_self] at hrun
          cases hrun
  refs i ref hi := ht.next_eq ▸ h.refs i ref hi
  inj := h.inj

end

end Incoming

end CloudI.Services
