import CloudI.Framework.Lists
import Mathlib.Data.List.AList

/-!
# The map-reduce service

A service that asks a module what to send next and gives it each response. The
requests that were sent and not answered are kept by their transaction ids.

`handleInfo` is what the service does with a message, with what it asks of the
module and sends (`Effect`). `History` is what the messages and the effects
say alone: the ids that are outstanding, each for one of the sends that the
module produced, and the sends whose response was given to it. `books_handleInfo`
is that the requests of the service are these in every run, and
`map_reduce_accounted` what follows for the whole run. A response that leaves
nothing outstanding while the module has nothing more to send is where the
service goes on for ever (`Lapse`).
-/

set_option linter.unusedSectionVars false

namespace CloudI.Services.MapReduce

variable {S Args TransId Response Info World : Type}

/-! ## The module and its service -/

/-- What `send` of the module returns. -/
inductive Sending (S Args : Type) where
  | ok (sendArgs : Args) (newState : S)
  | done (newState : S)
  | error

/-- What `recv` and `info` of the module return. -/
inductive Answer (S : Type) where
  | ok (newState : S)
  | done (newState : S)
  | error

/-- What a service handles. -/
inductive Message (TransId Response Info : Type) where
  | timeoutAsyncActive (transId : TransId)
  | returnAsyncActive (response : Response) (transId : TransId)
  | info (request : Info)

/-- A map-reduce module, and how `cloudi_service:send_async_active` answers. Each call sees what else there is in the
world. The arguments of a request are those behind the dispatcher. -/
structure MapReduceModule (S Args TransId Response Info World : Type) where
  new : World → Option S
  send : World → S → Sending S Args
  resend : World → Args → S → Option (Args × S)
  recv : World → Args → Response → S → Answer S
  info : World → Message TransId Response Info → S → Answer S
  sendAsyncActive : World → Args → Option TransId

abbrev Requests (TransId Args : Type) := AList fun _ : TransId => Args

structure State (S Args TransId : Type) where
  mapReduceState : S
  mapCount : Nat
  mapRequests : Requests TransId Args

/-- What a handler returns: it goes on, stops with `shutdown`, or stops with an error. -/
inductive Outcome (S Args TransId : Type) where
  | noreply (state : State S Args TransId)
  | shutdown (state : State S Args TransId)
  | error

/-- What a handler does beside that: a request of the module is sent under an id, or sent again; a response is given to
the module; the module has nothing more to send. -/
inductive Effect (TransId : Type) where
  | sent (transId : TransId)
  | resent (transId : TransId)
  | received
  | sendDone

variable [DecidableEq TransId] (m : MapReduceModule S Args TransId Response Info World)

/-- `map_send/5`, with the world at each call. -/
def mapSend (world : Nat → World) : Nat → Requests TransId Args → S →
    List (Effect TransId) × Option (Requests TransId Args × S)
  | 0, mapRequests, mapReduceState => ([], some (mapRequests, mapReduceState))
  | count + 1, mapRequests, mapReduceState =>
    match m.send (world (count + 1)) mapReduceState with
    | .ok sendArgs newState =>
      match m.sendAsyncActive (world (count + 1)) sendArgs with
      | some transId =>
        let (effects, result) := mapSend world count (mapRequests.insert transId sendArgs) newState
        (.sent transId :: effects, result)
      | none => ([], none)
    | .done newState => ([.sendDone], some (mapRequests, newState))
    | .error => ([], none)

/-- The first message, which the service sends to itself. -/
def handleInit (world : Nat → World) (mapCount : Nat) : List (Effect TransId) × Outcome S Args TransId :=
  match m.new (world 0) with
  | none => ([], .error)
  | some mapReduceState =>
    match mapSend m world mapCount ∅ mapReduceState with
    | (effects, some (mapRequests, newState)) => (effects, .noreply ⟨newState, mapCount, mapRequests⟩)
    | (effects, none) => (effects, .error)

/-- `dict:size/1` -/
def size (mapRequests : Requests TransId Args) : Nat := mapRequests.keys.length

/-- `cloudi_service_map_reduce_info/3` -/
def mapReduceInfo (world : World) (request : Message TransId Response Info) (s : State S Args TransId) :
    Outcome S Args TransId :=
  match m.info world request s.mapReduceState with
  | .ok newState => .noreply { s with mapReduceState := newState }
  | .done newState =>
    if size s.mapRequests = 0 then .shutdown { s with mapReduceState := newState }
    else .noreply { s with mapReduceState := newState }
  | .error => .error

/-- `timeout_async_active` of a request that is there. -/
def handleTimeout (world : Nat → World) (transId : TransId) (sendArgs : Args) (s : State S Args TransId) :
    List (Effect TransId) × Outcome S Args TransId :=
  match m.resend (world 0) sendArgs s.mapReduceState with
  | some (newSendArgs, newState) =>
    match m.sendAsyncActive (world 1) newSendArgs with
    | some newTransId =>
      ([.resent newTransId], .noreply { s with
        mapReduceState := newState
        mapRequests := (s.mapRequests.erase transId).insert newTransId newSendArgs })
    | none => ([], .error)
  | none => ([], .error)

/-- `return_async_active` of a request that is there. -/
def handleReturn (world : Nat → World) (response : Response) (transId : TransId) (sendArgs : Args)
    (s : State S Args TransId) : List (Effect TransId) × Outcome S Args TransId :=
  match m.recv (world 0) sendArgs response s.mapReduceState with
  | .ok nextState =>
    match mapSend m world 1 (s.mapRequests.erase transId) nextState with
    | (effects, some (newRequests, newState)) =>
      (.received :: effects, .noreply { s with mapReduceState := newState, mapRequests := newRequests })
    | (effects, none) => (.received :: effects, .error)
  | .done newState =>
    let newRequests := s.mapRequests.erase transId
    let newS := { s with mapReduceState := newState, mapRequests := newRequests }
    ([.received], if size newRequests = 0 then .shutdown newS else .noreply newS)
  | .error => ([.received], .error)

/-- `cloudi_service_handle_info/3` -/
def handleInfo (world : Nat → World) (request : Message TransId Response Info) (s : State S Args TransId) :
    List (Effect TransId) × Outcome S Args TransId :=
  match request with
  | .timeoutAsyncActive transId =>
    match s.mapRequests.lookup transId with
    | some sendArgs => handleTimeout m world transId sendArgs s
    | none => ([], mapReduceInfo m (world 0) request s)
  | .returnAsyncActive response transId =>
    match s.mapRequests.lookup transId with
    | some sendArgs => handleReturn m world response transId sendArgs s
    | none => ([], mapReduceInfo m (world 0) request s)
  | .info _ => ([], mapReduceInfo m (world 0) request s)

/-! ## What the messages and the effects say -/

/-- The ids that are outstanding, each with the number of its send; how many sends the module produced; the numbers of
the responses that it was given (`none` for one of no send); whether it had nothing to send; and all the ids. -/
structure History (TransId : Type) where
  outstanding : List (TransId × Nat)
  produced : Nat
  received : List (Option Nat)
  sendDone : Bool
  used : List TransId

def History.start : History TransId := ⟨[], 0, [], false, []⟩

def Message.transId? : Message TransId Response Info → Option TransId
  | timeoutAsyncActive transId => some transId
  | returnAsyncActive _ transId => some transId
  | info _ => none

/-- The number of the send that a message is about, if its id is outstanding. -/
def History.number (h : History TransId) (request : Message TransId Response Info) : Option Nat :=
  request.transId?.bind fun transId => (h.outstanding.find? fun o => o.1 = transId).map Prod.snd

/-- An id is outstanding until a message comes for it. -/
def History.answered (h : History TransId) (request : Message TransId Response Info) : History TransId :=
  { h with outstanding := h.outstanding.filter fun o => request.transId? ≠ some o.1 }

/-- An effect of a handler, for a message about the send of a number. -/
def History.effect (number : Option Nat) (h : History TransId) : Effect TransId → History TransId
  | .sent transId =>
    { h with
      outstanding := (transId, h.produced) :: h.outstanding
      produced := h.produced + 1
      used := transId :: h.used }
  | .resent transId =>
    { h with
      outstanding := (number.map fun n => (transId, n)).toList ++ h.outstanding
      used := transId :: h.used }
  | .received => { h with received := number :: h.received }
  | .sendDone => { h with sendDone := true }

def History.effects (number : Option Nat) (h : History TransId) (effects : List (Effect TransId)) : History TransId :=
  effects.foldl (History.effect number) h

/-- What a message and the effects of its handler make of the history. -/
def History.handled (h : History TransId) (request : Message TransId Response Info) (effects : List (Effect TransId)) :
    History TransId :=
  (h.answered request).effects (h.number request) effects

/-- The ids of new requests, in their order. -/
def newIds : List (Effect TransId) → List TransId
  | [] => []
  | .sent transId :: effects | .resent transId :: effects => transId :: newIds effects
  | .received :: effects | .sendDone :: effects => newIds effects

/-- Transaction ids are not used twice. -/
def Fresh (used : List TransId) (effects : List (Effect TransId)) : Prop :=
  (newIds effects).Nodup ∧ ∀ transId ∈ newIds effects, transId ∉ used

/-- A response after which the module has nothing more to send, where nothing else is outstanding. -/
def Lapse (world : Nat → World) (request : Message TransId Response Info) (s : State S Args TransId) : Prop :=
  ∃ response transId sendArgs nextState newState, request = .returnAsyncActive response transId ∧
    s.mapRequests.lookup transId = some sendArgs ∧
    m.recv (world 0) sendArgs response s.mapReduceState = .ok nextState ∧
    m.send (world 1) nextState = .done newState ∧ (s.mapRequests.erase transId).keys = []

/-- The runs in which every message is handled under a condition. -/
inductive Run (mapCount : Nat) (Condition : (Nat → World) → Message TransId Response Info → State S Args TransId →
    Prop) :
    History TransId → Outcome S Args TransId → Prop
  | init (world : Nat → World) (hf : Fresh [] (handleInit m world mapCount).1) :
    Run mapCount Condition (History.start.effects none (handleInit m world mapCount).1) (handleInit m world mapCount).2
  | step {h : History TransId} {s : State S Args TransId} (hrun : Run mapCount Condition h (.noreply s))
    (world : Nat → World) (request : Message TransId Response Info) (hc : Condition world request s)
    (hf : Fresh h.used (handleInfo m world request s).1) :
    Run mapCount Condition (h.handled request (handleInfo m world request s).1) (handleInfo m world request s).2

/-! ## The requests are what is outstanding -/

/-- The requests are the ids that are outstanding, and the response of every other send was given to the module once,
but for the send that is `held` while its message is handled. -/
structure Books (held : Option Nat) (mapRequests : Requests TransId Args) (h : History TransId) : Prop where
  keys : (h.outstanding.map Prod.fst).Perm mapRequests.keys
  numbers : (h.outstanding.map Prod.snd).Nodup
  lt : ∀ o ∈ h.outstanding, o.2 < h.produced
  used : ∀ o ∈ h.outstanding, o.1 ∈ h.used
  held_lt : ∀ n, held = some n → n < h.produced ∧ n ∉ h.outstanding.map Prod.snd
  count : ∀ n < h.produced, h.received.count (some n) = if n ∈ h.outstanding.map Prod.snd ∨ held = some n then 0 else 1
  stray : ∀ x ∈ h.received, ∃ n < h.produced, x = some n

section Books

variable {held : Option Nat} {mapRequests : Requests TransId Args} {h : History TransId}

theorem books_start : Books none (∅ : Requests TransId Args) History.start where
  keys := .nil
  numbers := .nil
  lt := fun o ho => by cases ho
  used := fun o ho => by cases ho
  held_lt := fun n hn => by cases hn
  count := fun n hn => absurd hn (Nat.not_lt_zero n)
  stray := fun x hx => by cases hx

variable {transId : TransId}

theorem Books.not_mem (hb : Books held mapRequests h) (hu : transId ∉ h.used) :
    transId ∉ mapRequests.keys := by
  intro hk
  obtain ⟨o, ho, rfl⟩ := List.mem_map.mp (hb.keys.mem_iff.mpr hk)
  exact hu (hb.used o ho)

theorem Books.keys_insert (hb : Books held mapRequests h) (hu : transId ∉ h.used) (n : Nat) (sendArgs : Args) :
    (((transId, n) :: h.outstanding).map Prod.fst).Perm (mapRequests.insert transId sendArgs).keys := by
  rw [AList.keys_insert, List.erase_of_not_mem (hb.not_mem hu)]
  exact hb.keys.cons transId

theorem Books.sent (hb : Books held mapRequests h) (hu : transId ∉ h.used) (sendArgs : Args)
    (number : Option Nat) : Books held (mapRequests.insert transId sendArgs) (h.effect number (.sent transId)) := by
  have hnew : h.produced ∉ h.outstanding.map Prod.snd := by
    intro hm
    obtain ⟨o, ho, he⟩ := List.mem_map.mp hm
    exact absurd (hb.lt o ho) (by omega)
  refine ⟨hb.keys_insert hu h.produced sendArgs, List.nodup_cons.mpr ⟨hnew, hb.numbers⟩, ?_, ?_, ?_, ?_, ?_⟩
  · intro o ho
    obtain rfl | ho := List.mem_cons.mp ho
    · exact Nat.lt_succ_self _
    · exact Nat.lt_succ_of_lt (hb.lt o ho)
  · intro o ho
    obtain rfl | ho := List.mem_cons.mp ho
    · exact List.mem_cons_self
    · exact List.mem_cons_of_mem _ (hb.used o ho)
  · intro n hn
    obtain ⟨hlt, hn⟩ := hb.held_lt n hn
    refine ⟨Nat.lt_succ_of_lt hlt, fun hm => ?_⟩
    obtain rfl | hm := List.mem_cons.mp hm
    · exact absurd hlt (Nat.lt_irrefl _)
    · exact hn hm
  · intro n hn
    show h.received.count (some n) = if n ∈ h.produced :: h.outstanding.map Prod.snd ∨ held = some n then 0 else 1
    obtain rfl | hn := Nat.lt_succ_iff_lt_or_eq.mp hn |>.symm
    · rw [if_pos (.inl List.mem_cons_self), List.count_eq_zero]
      intro hm
      obtain ⟨k, hk, he⟩ := hb.stray _ hm
      exact absurd (Option.some.inj he) (by omega)
    · rw [hb.count n hn]
      simp only [List.mem_cons, Nat.ne_of_lt hn, false_or]
  · intro x hx
    obtain ⟨n, hn, he⟩ := hb.stray x hx
    exact ⟨n, Nat.lt_succ_of_lt hn, he⟩

theorem perm_answered {l : List (TransId × Nat)} (hnodup : (l.map Prod.fst).Nodup) {o : TransId × Nat} (ho : o ∈ l) :
    l.Perm (o :: l.filter fun o' => some o.1 ≠ some o'.1) := by
  have hfilter : (l.filter fun o' => some o.1 ≠ some o'.1) = l.erase o := by
    rw [List.Nodup.erase_eq_filter (List.Nodup.of_map Prod.fst hnodup)]
    refine List.filter_congr fun o' ho' => Bool.eq_iff_iff.mpr ?_
    have hiff : o'.1 = o.1 ↔ o' = o := ⟨List.inj_on_of_nodup_map hnodup ho' ho, fun he => he ▸ rfl⟩
    rw [decide_eq_true_eq, bne_iff_ne, ne_eq, ne_eq, Option.some.injEq, eq_comm, hiff]
  rw [hfilter]
  exact List.perm_cons_erase ho

/-- The send of an id is held when a message comes for it. -/
theorem Books.answered (hb : Books none mapRequests h) {request : Message TransId Response Info}
    (ht : request.transId? = some transId) (hk : transId ∈ mapRequests.keys) :
    ∃ n, h.number request = some n ∧ Books (some n) (mapRequests.erase transId) (h.answered request) ∧
      h.outstanding.length = (h.answered request).outstanding.length + 1 := by
  have hnodup : (h.outstanding.map Prod.fst).Nodup := hb.keys.nodup_iff.mpr mapRequests.nodupKeys
  obtain ⟨⟨t, n⟩, hmem, he⟩ := List.mem_map.mp (hb.keys.mem_iff.mpr hk)
  obtain rfl : t = transId := he
  have hnum : h.number request = some n := by
    cases hfind : h.outstanding.find? fun o => o.1 = t with
    | none => exact absurd (List.find?_eq_none.mp hfind _ hmem) (by simp)
    | some o =>
      have ho := List.inj_on_of_nodup_map hnodup (List.mem_of_find?_eq_some hfind) hmem
        (by simpa using List.find?_some hfind)
      rw [History.number, ht, Option.bind_some, hfind, ho, Option.map_some]
  have hperm := perm_answered hnodup hmem
  rw [← ht] at hperm
  have hfst := (hperm.map Prod.fst).symm.trans hb.keys
  have hsnd := (hperm.map Prod.snd).nodup_iff.mp hb.numbers
  have hmap : ∀ k, k ∈ h.outstanding.map Prod.snd ↔ k = n ∨ k ∈ (h.answered request).outstanding.map Prod.snd :=
    fun k => ((hperm.map Prod.snd).mem_iff).trans List.mem_cons
  refine ⟨n, hnum, ⟨?_, (List.nodup_cons.mp hsnd).2, ?_, ?_, ?_, ?_, hb.stray⟩, hperm.length_eq⟩
  · rw [AList.keys_erase]
    have := hfst.erase t
    rwa [List.map_cons, List.erase_cons_head] at this
  · exact fun o ho => hb.lt o (List.mem_of_mem_filter ho)
  · exact fun o ho => hb.used o (List.mem_of_mem_filter ho)
  · rintro k hk
    obtain rfl := Option.some.inj hk
    exact ⟨hb.lt _ hmem, (List.nodup_cons.mp hsnd).1⟩
  · intro k hk
    show h.received.count (some k) = _
    rw [hb.count k hk]
    simp only [hmap k, reduceCtorEq, or_false, Option.some.injEq, @eq_comm _ n k, or_comm (a := k = n)]

/-- A message for another id changes nothing. -/
theorem Books.unknown (hb : Books none mapRequests h) {request : Message TransId Response Info}
    (hk : ∀ transId, request.transId? = some transId → transId ∉ mapRequests.keys) : h.answered request = h := by
  have hout : (h.outstanding.filter fun o => request.transId? ≠ some o.1) = h.outstanding := by
    refine List.filter_eq_self.mpr fun o ho => decide_eq_true fun he => ?_
    exact hk o.1 he (hb.keys.mem_iff.mp (List.mem_map_of_mem ho))
  rw [History.answered, hout]

theorem Books.received {n : Nat} (hb : Books (some n) mapRequests h) :
    Books none mapRequests (h.effect (some n) .received) := by
  obtain ⟨hlt, hout⟩ := hb.held_lt n rfl
  refine ⟨hb.keys, hb.numbers, hb.lt, hb.used, (fun k hk => nomatch hk), fun k hk => ?_, fun x hx => ?_⟩
  · show (some n :: h.received).count (some k) = if k ∈ h.outstanding.map Prod.snd ∨ none = some k then 0 else 1
    rw [List.count_cons, hb.count k hk]
    by_cases hkn : k = n
    · subst hkn
      rw [if_pos (.inr rfl), if_pos (beq_self_eq_true _), if_neg (not_or.mpr ⟨hout, nofun⟩)]
    · have hbeq : (some n == some k) = false := by simpa using Ne.symm hkn
      rw [hbeq, if_neg Bool.false_ne_true, Nat.add_zero]
      simp only [Option.some.injEq, Ne.symm hkn, reduceCtorEq]
  · obtain rfl | hx := List.mem_cons.mp hx
    · exact ⟨n, hlt, rfl⟩
    · exact hb.stray x hx

theorem Books.resent {n : Nat} (hb : Books (some n) mapRequests h) (hu : transId ∉ h.used)
    (sendArgs : Args) : Books none (mapRequests.insert transId sendArgs) (h.effect (some n) (.resent transId)) := by
  obtain ⟨hlt, hout⟩ := hb.held_lt n rfl
  refine ⟨hb.keys_insert hu n sendArgs, List.nodup_cons.mpr ⟨hout, hb.numbers⟩, ?_, ?_, (fun k hk => nomatch hk), ?_,
    hb.stray⟩
  · intro o ho
    obtain rfl | ho := List.mem_cons.mp ho
    · exact hlt
    · exact hb.lt o ho
  · intro o ho
    obtain rfl | ho := List.mem_cons.mp ho
    · exact List.mem_cons_self
    · exact List.mem_cons_of_mem _ (hb.used o ho)
  · intro k hk
    show h.received.count (some k) = if k ∈ n :: h.outstanding.map Prod.snd ∨ none = some k then 0 else 1
    rw [hb.count k hk]
    simp only [List.mem_cons, Option.some.injEq, reduceCtorEq, or_false, @eq_comm _ n k, or_comm (a := k = n)]

/-- The response of a send is given to the module at most once. -/
theorem Books.once (hb : Books held mapRequests h) (n : Nat) : h.received.count (some n) ≤ 1 := by
  by_cases hn : n < h.produced
  · rw [hb.count n hn]
    split <;> omega
  · rw [List.count_eq_zero.mpr fun hm => ?_]
    · exact Nat.zero_le _
    · obtain ⟨k, hk, he⟩ := hb.stray _ hm
      exact hn (Option.some.inj he ▸ hk)

end Books

/-! ## One message -/

section Handlers

variable {m} {held : Option Nat} {mapRequests : Requests TransId Args} {h : History TransId} {world : Nat → World}

theorem fresh_cons {used : List TransId} {transId : TransId} {effects : List (Effect TransId)}
    (hf : Fresh used (.sent transId :: effects)) : transId ∉ used ∧ Fresh (transId :: used) effects := by
  obtain ⟨hnodup, hnew⟩ := hf
  obtain ⟨hnot, hnodup⟩ := List.nodup_cons.mp hnodup
  refine ⟨hnew transId List.mem_cons_self, hnodup, fun t ht hu => ?_⟩
  obtain rfl | hu := List.mem_cons.mp hu
  · exact hnot ht
  · exact hnew t (List.mem_cons_of_mem _ ht) hu

/-- Every send of the module is outstanding under its id, and nothing else changes. -/
theorem mapSend_books (number : Option Nat) (count : Nat) (hb : Books held mapRequests h) (s : S)
    (hf : Fresh h.used (mapSend m world count mapRequests s).1) :
    ∃ newRequests, Books held newRequests (h.effects number (mapSend m world count mapRequests s).1) ∧
      (∀ x, (mapSend m world count mapRequests s).2 = some x → x.1 = newRequests) ∧
      (h.effects number (mapSend m world count mapRequests s).1).outstanding.length ≤ h.outstanding.length + count ∧
      (h.effects number (mapSend m world count mapRequests s).1).received = h.received := by
  induction count generalizing mapRequests h s with
  | zero => exact ⟨mapRequests, hb, fun x hx => (Option.some.inj hx) ▸ rfl, Nat.le_refl _, rfl⟩
  | succ count ih =>
    unfold mapSend at hf ⊢
    cases hsend : m.send (world (count + 1)) s with
    | error => exact ⟨mapRequests, hb, (fun x hx => nomatch hx), Nat.le_add_right _ _, rfl⟩
    | done newState =>
      exact ⟨mapRequests, ⟨hb.keys, hb.numbers, hb.lt, hb.used, hb.held_lt, hb.count, hb.stray⟩,
        fun x hx => (Option.some.inj hx) ▸ rfl, Nat.le_add_right _ _, rfl⟩
    | ok sendArgs newState =>
      simp only [hsend] at hf ⊢
      cases hid : m.sendAsyncActive (world (count + 1)) sendArgs with
      | none => exact ⟨mapRequests, hb, (fun x hx => nomatch hx), Nat.le_add_right _ _, rfl⟩
      | some transId =>
        simp only [hid] at hf ⊢
        obtain ⟨hu, hf⟩ := fresh_cons hf
        obtain ⟨newRequests, hbooks, hres, hlen, hrec⟩ := ih (hb.sent hu sendArgs number) newState hf
        refine ⟨newRequests, hbooks, hres, Nat.le_trans hlen ?_, hrec⟩
        show h.outstanding.length + 1 + count ≤ _
        omega

/-- What holds when a handler has returned. An error only leaves that no response is given to the module twice. -/
structure Settled (mapCount : Nat) (h : History TransId) (o : Outcome S Args TransId) : Prop where
  books : ∀ s, o = .noreply s ∨ o = .shutdown s → Books none s.mapRequests h
  mapCount_eq : ∀ s, o = .noreply s → s.mapCount = mapCount
  length : h.outstanding.length ≤ mapCount
  once : ∀ n, h.received.count (some n) ≤ 1
  shutdown : ∀ s, o = .shutdown s → h.outstanding = []

/-- The service has stopped if the module has nothing more to send and the last response was received. -/
def StopsWhenDone (h : History TransId) (o : Outcome S Args TransId) : Prop :=
  ∀ s, o = .noreply s → h.sendDone = true → h.outstanding = [] → h.received = []

/-- The service runs on. -/
theorem Books.noreply {mapCount : Nat} {s : State S Args TransId} (hb : Books none s.mapRequests h)
    (hc : s.mapCount = mapCount) (hlen : h.outstanding.length ≤ mapCount) : Settled mapCount h (.noreply s) where
  books := by
    rintro s' (hs | hs) <;> cases hs
    exact hb
  mapCount_eq s' hs := by
    cases hs
    exact hc
  length := hlen
  once := hb.once
  shutdown s' hs := nomatch hs

/-- The service stops with no request. -/
theorem Books.stopped {mapCount : Nat} {s : State S Args TransId} (hb : Books none s.mapRequests h)
    (hlen : h.outstanding.length ≤ mapCount) (hnil : s.mapRequests.keys = []) :
    Settled mapCount h (.shutdown s) where
  books := by
    rintro s' (hs | hs) <;> cases hs
    exact hb
  mapCount_eq s' hs := nomatch hs
  length := hlen
  once := hb.once
  shutdown s' hs := List.map_eq_nil_iff.mp (List.Perm.eq_nil (hnil ▸ hb.keys))

theorem settled_error {mapCount : Nat} (hlen : h.outstanding.length ≤ mapCount)
    (ho : ∀ n, h.received.count (some n) ≤ 1) : Settled mapCount h (.error : Outcome S Args TransId) where
  books := by rintro s (hs | hs) <;> cases hs
  mapCount_eq s hs := nomatch hs
  length := hlen
  once := ho
  shutdown s hs := nomatch hs

theorem handleInit_settled (mapCount : Nat) (hf : Fresh [] (handleInit m world mapCount).1) :
    Settled mapCount (History.start.effects none (handleInit m world mapCount).1) (handleInit m world mapCount).2 ∧
      StopsWhenDone (History.start.effects none (handleInit m world mapCount).1) (handleInit m world mapCount).2 := by
  unfold handleInit at hf ⊢
  cases hnew : m.new (world 0) with
  | none =>
    exact ⟨settled_error (Nat.zero_le _) (show Books none (∅ : Requests TransId Args) History.start
        from books_start).once, fun s hs => nomatch hs⟩
  | some s =>
    simp only [hnew] at hf ⊢
    have hf' : Fresh (History.start : History TransId).used (mapSend m world mapCount ∅ s).1 := by
      cases hsend : mapSend m world mapCount ∅ s with
      | mk effects result =>
        rw [hsend] at hf
        cases result <;> exact hf
    obtain ⟨newRequests, hb, hres, hlen, hrec⟩ := mapSend_books none mapCount books_start s hf'
    cases hsend : mapSend m world mapCount ∅ s with
    | mk effects result =>
      rw [hsend] at hb hres hlen hrec
      have hlen := Nat.le_trans hlen (Nat.le_of_eq (Nat.zero_add mapCount))
      cases result with
      | none =>
        exact ⟨settled_error hlen hb.once, fun s hs => nomatch hs⟩
      | some x =>
        obtain rfl := hres x rfl
        exact ⟨Books.noreply hb rfl hlen, fun s hs _ _ => hrec⟩

variable {mapCount : Nat} {s : State S Args TransId} {request : Message TransId Response Info}

theorem size_eq_zero {newRequests : Requests TransId Args} : size newRequests = 0 ↔ newRequests.keys = [] :=
  List.length_eq_zero_iff

variable (m request) in
/-- A message for no request leaves what is outstanding. -/
theorem mapReduceInfo_settled (w : World) (hs : Settled mapCount h (.noreply s)) (hd : StopsWhenDone h (.noreply s)) :
    Settled mapCount h (mapReduceInfo m w request s) ∧ StopsWhenDone h (mapReduceInfo m w request s) := by
  have hb := hs.books s (.inl rfl)
  have hc := hs.mapCount_eq s rfl
  unfold mapReduceInfo
  cases m.info w request s.mapReduceState with
  | ok newState => exact ⟨Books.noreply hb hc hs.length, fun s' _ => hd s rfl⟩
  | done newState =>
    dsimp only
    split
    · rename_i hsize
      exact ⟨Books.stopped hb hs.length (size_eq_zero.mp hsize), fun s hs => nomatch hs⟩
    · exact ⟨Books.noreply hb hc hs.length, fun s' _ => hd s rfl⟩
  | error => exact ⟨settled_error hs.length hb.once, fun s hs => nomatch hs⟩

/-- A request is sent again under another id. -/
theorem handleTimeout_settled {transId : TransId} {sendArgs : Args} (hs : Settled mapCount h (.noreply s))
    (ht : request.transId? = some transId) (hk : transId ∈ s.mapRequests.keys)
    (hf : Fresh h.used (handleTimeout m world transId sendArgs s).1) :
    Settled mapCount (h.handled request (handleTimeout m world transId sendArgs s).1)
        (handleTimeout m world transId sendArgs s).2 ∧
      StopsWhenDone (h.handled request (handleTimeout m world transId sendArgs s).1)
        (handleTimeout m world transId sendArgs s).2 := by
  obtain ⟨n, hnum, hb, hlen⟩ := (hs.books s (.inl rfl)).answered ht hk
  have hle := hs.length
  have herror : Settled mapCount (h.answered request) (.error : Outcome S Args TransId) :=
    settled_error (by omega) hb.once
  unfold handleTimeout at hf ⊢
  cases hre : m.resend (world 0) sendArgs s.mapReduceState with
  | none => exact ⟨herror, fun s hs => nomatch hs⟩
  | some x =>
    simp only [hre] at hf ⊢
    cases hid : m.sendAsyncActive (world 1) x.1 with
    | none => exact ⟨herror, fun s hs => nomatch hs⟩
    | some newTransId =>
      simp only [hid] at hf ⊢
      have hnew : newTransId ∉ (h.answered request).used := hf.2 newTransId List.mem_cons_self
      have hbooks := hb.resent hnew x.1
      have hout : (h.answered request).outstanding.length + 1 ≤ mapCount := hlen ▸ hle
      rw [History.handled, hnum]
      exact ⟨Books.noreply hbooks (hs.mapCount_eq s rfl) hout, fun s' _ _ ho => by cases ho⟩

/-- A response lapses by what `recv` and `send` return for it alone. -/
theorem lapse_iff {response : Response} {transId : TransId} {sendArgs : Args}
    (hreq : request = .returnAsyncActive response transId) (hl : s.mapRequests.lookup transId = some sendArgs) :
    Lapse m world request s ↔ ∃ nextState newState,
      m.recv (world 0) sendArgs response s.mapReduceState = .ok nextState ∧
      m.send (world 1) nextState = .done newState ∧ (s.mapRequests.erase transId).keys = [] := by
  constructor
  · rintro ⟨response', transId', sendArgs', nextState, newState, he, hl', hrest⟩
    rw [hreq] at he
    cases he
    rw [hl] at hl'
    cases hl'
    exact ⟨nextState, newState, hrest⟩
  · rintro ⟨nextState, newState, hrest⟩
    exact ⟨response, transId, sendArgs, nextState, newState, hreq, hl, hrest⟩

/-- The response is given to the module, which may have one more request. Only where it has none does the service
run on with nothing outstanding. -/
theorem handleReturn_settled {response : Response} {transId : TransId} {sendArgs : Args}
    (hs : Settled mapCount h (.noreply s)) (hreq : request = .returnAsyncActive response transId)
    (hl : s.mapRequests.lookup transId = some sendArgs)
    (hf : Fresh h.used (handleReturn m world response transId sendArgs s).1) :
    Settled mapCount (h.handled request (handleReturn m world response transId sendArgs s).1)
        (handleReturn m world response transId sendArgs s).2 ∧
      (StopsWhenDone (h.handled request (handleReturn m world response transId sendArgs s).1)
        (handleReturn m world response transId sendArgs s).2 ↔ ¬Lapse m world request s) := by
  have hk : transId ∈ s.mapRequests.keys := AList.lookup_isSome.mp (Option.isSome_of_eq_some hl)
  obtain ⟨n, hnum, hheld, hlen⟩ := (hs.books s (.inl rfl)).answered
      (show request.transId? = some transId by rw [hreq]; rfl) hk
  have hb := hheld.received
  have hle := hs.length
  have hc := hs.mapCount_eq s rfl
  rw [History.handled, hnum]
  have hout : (h.answered request).outstanding.length ≤ mapCount := by omega
  rw [lapse_iff hreq hl]
  unfold handleReturn at hf ⊢
  cases hrecv : m.recv (world 0) sendArgs response s.mapReduceState with
  | error =>
    refine ⟨settled_error hout hb.once, iff_of_true (fun s hs => nomatch hs) ?_⟩
    rintro ⟨nextState, newState, he, -⟩
    cases he
  | done newState =>
    dsimp only
    have hnot : ¬∃ nextState newState', (Answer.done newState : Answer S) = .ok nextState ∧
        m.send (world 1) nextState = .done newState' ∧ (s.mapRequests.erase transId).keys = [] := by
      rintro ⟨nextState, newState', he, -⟩
      cases he
    split
    · rename_i hsize
      exact ⟨Books.stopped hb hout (size_eq_zero.mp hsize), iff_of_true (fun s hs => nomatch hs) hnot⟩
    · rename_i hsize
      refine ⟨Books.noreply hb hc hout, iff_of_true (fun s' hs' _ ho => ?_) hnot⟩
      have hnil := hb.keys
      have ho' : (h.answered request).outstanding = [] := ho
      rw [show ((h.answered request).effect (some n) .received).outstanding = [] from ho', List.map_nil] at hnil
      exact absurd (size_eq_zero.mpr hnil.symm.eq_nil) hsize
  | ok nextState =>
    simp only [hrecv] at hf ⊢
    unfold mapSend at hf ⊢
    cases hsend : m.send (world 1) nextState with
    | error =>
      refine ⟨settled_error hout hb.once, iff_of_true (fun s hs => nomatch hs) ?_⟩
      rintro ⟨_, newState, he, hd, -⟩
      cases he
      rw [hsend] at hd
      cases hd
    | done newState =>
      refine ⟨Books.noreply ⟨hb.keys, hb.numbers, hb.lt, hb.used, hb.held_lt, hb.count, hb.stray⟩ hc hout,
        fun hstops => ?_, fun hnot s' _ _ ho => ?_⟩
      · rintro ⟨_, _, -, -, hnil⟩
        have ho : (h.answered request).outstanding = [] :=
          List.map_eq_nil_iff.mp (List.Perm.eq_nil (hnil ▸ hheld.keys))
        exact absurd (hstops _ rfl rfl ho) (List.cons_ne_nil _ _)
      · have hkeys := hheld.keys
        rw [show (h.answered request).outstanding = [] from ho] at hkeys
        exact absurd ⟨nextState, newState, rfl, hsend, hkeys.symm.eq_nil⟩ hnot
    | ok newArgs newState =>
      simp only [hsend] at hf ⊢
      have hnot : ¬∃ nextState' newState', (Answer.ok nextState : Answer S) = .ok nextState' ∧
          m.send (world 1) nextState' = .done newState' ∧ (s.mapRequests.erase transId).keys = [] := by
        rintro ⟨_, newState', he, hd, -⟩
        cases he
        rw [hsend] at hd
        cases hd
      cases hid : m.sendAsyncActive (world 1) newArgs with
      | none => exact ⟨settled_error hout hb.once, iff_of_true (fun s hs => nomatch hs) hnot⟩
      | some newTransId =>
        simp only [hid] at hf ⊢
        have hnew : newTransId ∉ ((h.answered request).effect (some n) .received).used :=
          hf.2 newTransId List.mem_cons_self
        refine ⟨Books.noreply (hb.sent hnew newArgs (some n)) hc ?_, iff_of_true (fun s' _ _ ho => nomatch ho) hnot⟩
        show (h.answered request).outstanding.length + 1 ≤ mapCount
        omega

/-- What every message keeps. -/
theorem handleInfo_settled (hs : Settled mapCount h (.noreply s)) (hd : StopsWhenDone h (.noreply s))
    (hf : Fresh h.used (handleInfo m world request s).1) :
    Settled mapCount (h.handled request (handleInfo m world request s).1) (handleInfo m world request s).2 ∧
      (StopsWhenDone (h.handled request (handleInfo m world request s).1) (handleInfo m world request s).2 ↔
        ¬Lapse m world request s) := by
  -- A message for no request lapses never.
  have hother (ho : ∀ transId, request.transId? = some transId → s.mapRequests.lookup transId = none) :
      Settled mapCount (h.handled request []) (mapReduceInfo m (world 0) request s) ∧
        (StopsWhenDone (h.handled request []) (mapReduceInfo m (world 0) request s) ↔ ¬Lapse m world request s) := by
    have hsame : h.handled request [] = h := (hs.books s (.inl rfl)).unknown fun transId ht =>
      AList.lookup_eq_none.mp (ho transId ht)
    rw [hsame]
    obtain ⟨hinfo, hdone⟩ := mapReduceInfo_settled m request (world 0) hs hd
    refine ⟨hinfo, iff_of_true hdone ?_⟩
    rintro ⟨response, transId, sendArgs, nextState, newState, rfl, hl, -⟩
    rw [ho transId rfl] at hl
    cases hl
  cases request with
  | info request => exact hother fun transId ht => nomatch ht
  | timeoutAsyncActive transId =>
    unfold handleInfo at hf ⊢
    cases hl : s.mapRequests.lookup transId with
    | none =>
      simp only [hl]
      exact hother fun t ht => Option.some.inj ht ▸ hl
    | some sendArgs =>
      simp only [hl] at hf ⊢
      have hk : transId ∈ s.mapRequests.keys := AList.lookup_isSome.mp (Option.isSome_of_eq_some hl)
      obtain ⟨hsettled, hdone⟩ := handleTimeout_settled hs
        (show (Message.timeoutAsyncActive transId : Message TransId Response Info).transId? = some transId from rfl)
            hk hf
      refine ⟨hsettled, iff_of_true hdone ?_⟩
      rintro ⟨response, t, sendArgs, nextState, newState, he, -⟩
      cases he
  | returnAsyncActive response transId =>
    unfold handleInfo at hf ⊢
    cases hl : s.mapRequests.lookup transId with
    | none =>
      simp only [hl]
      exact hother fun t ht => Option.some.inj ht ▸ hl
    | some sendArgs =>
      simp only [hl] at hf ⊢
      exact handleReturn_settled hs rfl hl hf

end Handlers

/-! ## Every run -/

/-- What the service owes its module after a message. -/
structure Accounted (mapCount : Nat) (h : History TransId) (o : Outcome S Args TransId) : Prop where
  /-- The requests are those that are outstanding. -/
  requests : ∀ s, o = .noreply s ∨ o = .shutdown s → ∀ transId, transId ∈ s.mapRequests ↔
    transId ∈ h.outstanding.map Prod.fst
  /-- There are at most as many as the service has room for. -/
  length : h.outstanding.length ≤ mapCount
  /-- A send is outstanding under one id, or its response was given to the module once. -/
  sends : ∀ s, o = .noreply s ∨ o = .shutdown s → ∀ n < h.produced,
    ((h.outstanding.map Prod.snd).count n = 1 ∧ h.received.count (some n) = 0) ∨
      ((h.outstanding.map Prod.snd).count n = 0 ∧ h.received.count (some n) = 1)
  /-- No response is given to it twice, also where the service stops with an error. -/
  once : ∀ n, h.received.count (some n) ≤ 1
  /-- With `shutdown` the service only stops when nothing is outstanding. -/
  shutdown : ∀ s, o = .shutdown s → h.outstanding = []
  /-- It stops when the module has nothing more to send and the last response was received. -/
  stops : StopsWhenDone h o

theorem Settled.accounted {mapCount : Nat} {h : History TransId} {o : Outcome S Args TransId}
    (hs : Settled mapCount h o) : Accounted mapCount h o ↔ StopsWhenDone h o := by
  refine ⟨fun ha => ha.stops, fun hd => ⟨fun s ho transId => ?_, hs.length, fun s ho n hn => ?_, hs.once,
      hs.shutdown, hd⟩⟩
  · exact (hs.books s ho).keys.mem_iff.symm
  · have hb := hs.books s ho
    have hcount := hb.count n hn
    by_cases hm : n ∈ h.outstanding.map Prod.snd
    · exact .inl ⟨List.count_eq_one_of_mem hb.numbers hm, hcount.trans (if_pos (.inl hm))⟩
    · exact .inr ⟨List.count_eq_zero.mpr hm, hcount.trans (if_neg (not_or.mpr ⟨hm, nofun⟩))⟩

theorem Run.settled {mapCount : Nat}
    {Condition : (Nat → World) → Message TransId Response Info → State S Args TransId → Prop}
    (hcond : ∀ world request s, Condition world request s → ¬Lapse m world request s) {h : History TransId}
    {o : Outcome S Args TransId} (hrun : Run m mapCount Condition h o) : Settled mapCount h o ∧ StopsWhenDone h o := by
  induction hrun with
  | init world hf => exact handleInit_settled mapCount hf
  | step hrun world request hc hf ih =>
    obtain ⟨hs, hd⟩ := handleInfo_settled ih.1 ih.2 hf
    exact ⟨hs, hd.mpr (hcond world request _ hc)⟩

/-- In every run without a lapse the service keeps its accounts, and a message more keeps them too if and only if it is
none. -/
theorem map_reduce_accounted {mapCount : Nat} {h : History TransId} {o : Outcome S Args TransId}
    (hrun : Run m mapCount (fun world request s => ¬Lapse m world request s) h o) :
    Accounted mapCount h o ∧ ∀ s, o = .noreply s → ∀ world request,
      Fresh h.used (handleInfo m world request s).1 →
        (Accounted mapCount (h.handled request (handleInfo m world request s).1) (handleInfo m world request s).2 ↔
          ¬Lapse m world request s) := by
  obtain ⟨hs, hd⟩ := hrun.settled m fun _ _ _ hc => hc
  refine ⟨hs.accounted.mpr hd, ?_⟩
  rintro s rfl world request hf
  obtain ⟨hs, hd⟩ := handleInfo_settled hs hd hf
  exact hs.accounted.trans hd

/-- A module with one request. A request gets the id that the world has for it. -/
def oneRequest : MapReduceModule Nat Unit Nat Unit Unit Nat where
  new _ := some 1
  send _ s := if s = 0 then .done 0 else .ok () (s - 1)
  resend _ sendArgs s := some (sendArgs, s)
  recv _ _ _ s := .ok s
  info _ _ s := .ok s
  sendAsyncActive w _ := some w

theorem oneRequest_fresh : Fresh [] (handleInit oneRequest id 1).1 :=
    ⟨List.nodup_singleton _, fun _ _ => List.not_mem_nil⟩

/-- The same with two requests. -/
def twoRequests : MapReduceModule Nat Unit Nat Unit Unit Nat := { oneRequest with new _ := some 2 }

/-- One of two requests is answered and the other one is sent again. -/
theorem map_reduce_accounted_resent : ∃ h : History Nat, h.outstanding.length = 1 ∧ h.used.length = 3 ∧
    ∃ o : Outcome Nat Unit Nat, Accounted 2 h o := by
  have hinit : Run twoRequests 2 (fun world request s => ¬Lapse twoRequests world request s) _ _ :=
    .init id ⟨by decide, by decide⟩
  have hanswered := hinit.step id (.returnAsyncActive () 1) ?_ ⟨List.nodup_nil, fun _ ht => nomatch ht⟩
  · have hresent := hanswered.step (fun _ => 9) (.timeoutAsyncActive 2) ?_ ⟨by decide, by decide⟩
    · exact ⟨_, rfl, rfl, _, (map_reduce_accounted twoRequests hresent).1⟩
    · rintro ⟨response, transId, sendArgs, nextState, newState, hrequest, -⟩
      cases hrequest
  -- the second request is still outstanding
  · rintro ⟨response, transId, sendArgs, nextState, newState, hrequest, -, -, -, hkeys⟩
    cases hrequest
    exact absurd hkeys (by decide)

/-- The response leaves nothing outstanding, and the service goes on. -/
theorem response_runs_on : ∃ (h : History Nat) (o : Outcome Nat Unit Nat),
    Run oneRequest 1 (fun _ _ _ => True) h o ∧ ¬Accounted 1 h o := by
  refine ⟨_, _, .step (.init id oneRequest_fresh) id (.returnAsyncActive () 1) trivial
    ⟨List.nodup_nil, fun _ ht => nomatch ht⟩, fun ha => ?_⟩
  exact absurd (ha.stops _ rfl rfl rfl) (List.cons_ne_nil _ _)

end CloudI.Services.MapReduce
