import CloudI.Services.SendTimeouts

/-!
# The requests that wait for a response

The lists of the requests that a dispatcher keeps for each process it monitors
have exactly the requests that wait for the process (`Indexed`), and each
request has one timeout that is still to come (`Timed`). Both are kept by
every step, so that they hold in every state that can be reached
(`sent_requests`). After the death of a process its requests wait for their
timeout only.
-/

namespace CloudI.Services.SendTimeouts

set_option linter.unusedSectionVars false

variable {TransId Pid Client Term : Type}

/-! ## The timeouts -/

/-- The message is the only timeout of its request, either of the timer that runs or in the mailbox. -/
def OnePending [DecidableEq TransId] (t : SendTimers TransId) (Tref : Nat) (i : TransId) (m : TimeoutMessage TransId) :
    Prop :=
  (t.Runs Tref m ∧ (∀ ref m', m'.request = some i → t.Runs ref m' → ref = Tref) ∧
    ∀ m' ∈ t.mailbox, m'.request ≠ some i) ∨
  ((∀ ref m', m'.request = some i → ¬t.Runs ref m') ∧ t.mailbox.filter (fun m' => m'.request = some i) = [m])

section

variable [DecidableEq TransId] {t t' : SendTimers TransId} {Tref ref : Nat} {i j : TransId}
  {m m' : TimeoutMessage TransId}

theorem filter_eq_nil {l : List (TimeoutMessage TransId)} :
    l.filter (fun m => m.request = some i) = [] ↔ ∀ m ∈ l, m.request ≠ some i := by
  rw [List.filter_eq_nil_iff]
  simp only [decide_eq_true_eq, ne_eq]

/-- Nothing about the request changes. -/
theorem OnePending.congr (h : OnePending t Tref i m)
    (hr : ∀ ref m', m'.request = some i → (t'.Runs ref m' ↔ t.Runs ref m')) (hm : m.request = some i)
    (hb : t'.mailbox.filter (fun m' => m'.request = some i) = t.mailbox.filter fun m' => m'.request = some i) :
    OnePending t' Tref i m := by
  refine h.imp (fun h => ?_) fun h => ?_
  · obtain ⟨h1, h2, h3⟩ := h
    refine ⟨(hr _ _ hm).mpr h1, fun ref m' hm' hrun => h2 ref m' hm' ((hr _ _ hm').mp hrun), ?_⟩
    rw [← filter_eq_nil, hb, filter_eq_nil]
    exact h3
  · obtain ⟨h1, h2⟩ := h
    exact ⟨fun ref m' hm' hrun => h1 ref m' hm' ((hr _ _ hm').mp hrun), hb.trans h2⟩

theorem OnePending.elapse (h : OnePending t Tref i m) (hm : m.request = some i) (he : Timers.Elapse t t') :
    OnePending t' Tref i m := by
  cases he with
  | pass ms =>
    refine h.congr (fun ref m' _ => ?_) hm rfl
    constructor
    · intro hr
      exact (Timers.Elapse.pass ms).runs hr
    · rintro ⟨left, hr⟩
      exact ⟨left - ms, by simp [hr]⟩
  | @fire ref₀ m₀ h₀ =>
    have hruns : ∀ {ref m'},
        Timers.Runs ⟨t.next, Function.update t.running ref₀ none, t.mailbox ++ [m₀]⟩ ref m' ↔
          ref ≠ ref₀ ∧ t.Runs ref m' := Timers.runs_cancelTimer (t := t)
    rcases h with ⟨h1, h2, h3⟩ | ⟨h1, h2⟩
    · by_cases hi : m₀.request = some i
      · obtain rfl := h2 ref₀ m₀ hi ⟨0, h₀⟩
        obtain ⟨left, h1⟩ := h1
        cases h₀.symm.trans h1
        refine Or.inr ⟨fun ref m' hm' hr => ?_, ?_⟩
        · obtain ⟨hne, hr⟩ := hruns.mp hr
          exact hne (h2 ref m' hm' hr)
        · rw [List.filter_append, filter_eq_nil.mpr h3, List.filter_cons, if_pos (decide_eq_true hm)]
          rfl
      · refine Or.inl ⟨hruns.mpr ⟨fun he => hi ?_, h1⟩, fun ref m' hm' hr => h2 ref m' hm' (hruns.mp hr).2, ?_⟩
        · obtain ⟨left, h1⟩ := h1
          rw [he, h₀] at h1
          cases h1
          exact hm
        · intro m' hm'
          rcases List.mem_append.mp hm' with hm' | hm'
          · exact h3 m' hm'
          · rw [List.mem_singleton.mp hm']
            exact hi
    · refine Or.inr ⟨fun ref m' hm' hr => h1 ref m' hm' (hruns.mp hr).2, ?_⟩
      have hi : m₀.request ≠ some i := fun hi => h1 ref₀ m₀ hi ⟨0, h₀⟩
      rw [List.filter_append, h2, List.filter_cons, if_neg (by simpa using hi)]
      rfl

/-- Another timer is started. -/
theorem OnePending.sendAfter {Time : Nat} (h : OnePending t Tref i m) (hm : m.request = some i)
    (hn : ∀ ref m', t.Runs ref m' → ref < t.next) (hi : m'.request ≠ some i) :
    OnePending (t.sendAfter Time m').2 Tref i m := by
  refine h.congr (fun ref m₁ hm₁ => ?_) hm rfl
  rw [Timers.runs_sendAfter]
  constructor
  · rintro (⟨-, rfl⟩ | ⟨-, hr⟩)
    · exact absurd hm₁ hi
    · exact hr
  · intro hr
    exact Or.inr ⟨(hn ref m₁ hr).ne, hr⟩

/-- A timer that is not of the request is cancelled. -/
theorem OnePending.cancelTimer (h : OnePending t Tref i m) (hm : m.request = some i)
    (hr : ∀ m', t.Runs ref m' → m'.request ≠ some i) : OnePending (t.cancelTimer ref).2 Tref i m := by
  refine h.congr (fun ref' m' hm' => ?_) hm rfl
  rw [Timers.runs_cancelTimer]
  refine ⟨fun h => h.2, fun hrun => ⟨fun he => ?_, hrun⟩⟩
  rw [he] at hrun
  exact hr m' hrun hm'

/-- The message of another request comes. -/
theorem OnePending.message (h : OnePending t Tref i m) (hm : m.request = some i) (hi : m'.request ≠ some i) :
    OnePending { t with mailbox := t.mailbox ++ [m'] } Tref i m := by
  refine h.congr (fun _ _ _ => Iff.rfl) hm ?_
  rw [List.filter_append, List.filter_cons, if_neg (by simpa using hi)]
  exact List.append_nil _

/-- A message that is not about the request is received. -/
theorem OnePending.receive (h : OnePending t Tref i m) (hm : m.request = some i) (hi : m'.request ≠ some i)
    (hr : Timers.Receive m' t t') : OnePending t' Tref i m := by
  obtain ⟨hmb⟩ := hr
  refine h.congr (fun _ _ _ => Iff.rfl) hm ?_
  rw [hmb, List.filter_append, List.filter_append, List.filter_cons, if_neg (by simpa using hi)]

/-- The timer is cancelled, and its message sent in its place unless it ended. -/
theorem OnePending.replace (h : OnePending t Tref i m) (hm : m.request = some i)
    (hT : ∀ m', t.Runs Tref m' → m' = m) :
    OnePending (match (t.cancelTimer Tref).1 with
      | none => (t.cancelTimer Tref).2
      | some _ => { (t.cancelTimer Tref).2 with mailbox := (t.cancelTimer Tref).2.mailbox ++ [m] }) Tref i m := by
  rcases h with ⟨⟨left, h1⟩, h2, h3⟩ | ⟨h1, h2⟩
  · rw [show (t.cancelTimer Tref).1 = some left by rw [Timers.cancelTimer, h1]; rfl]
    refine Or.inr ⟨fun ref m' hm' hr => ?_, ?_⟩
    · obtain ⟨hne, hr⟩ := Timers.runs_cancelTimer.mp hr
      exact hne (h2 ref m' hm' hr)
    · show (t.mailbox ++ [m]).filter _ = [m]
      rw [List.filter_append, filter_eq_nil.mpr h3, List.filter_cons, if_pos (decide_eq_true hm)]
      rfl
  · have hnone : t.running Tref = none := by
      cases hx : t.running Tref with
      | none => rfl
      | some x =>
        obtain ⟨left, m'⟩ := x
        obtain rfl := hT m' ⟨left, hx⟩
        exact absurd ⟨left, hx⟩ (h1 Tref _ hm)
    rw [show (t.cancelTimer Tref).1 = none by rw [Timers.cancelTimer, hnone]; rfl]
    exact Or.inr ⟨fun ref m' hm' hr => h1 ref m' hm' (Timers.runs_cancelTimer.mp hr).2, h2⟩

end

/-- What is kept about timers: each is of a request that was sent, and those of
the requests that wait are theirs only. -/
structure Timed [DecidableEq TransId] (st : Dict TransId (Receiver Client × Option Pid × Nat)) (t : SendTimers TransId)
    (sent : List TransId) : Prop where
  next : ∀ ref m, t.Runs ref m → ref < t.next
  runs : ∀ ref m i, t.Runs ref m → m.request = some i → i ∈ sent
  mailbox : ∀ m ∈ t.mailbox, ∀ i, m.request = some i → i ∈ sent
  known : ∀ i, st i ≠ none → i ∈ sent
  ref : ∀ i r d Tref, st i = some (r, d, Tref) → Tref < t.next ∧ ∀ m, t.Runs Tref m → m = r.message i
  one : ∀ i r d Tref, st i = some (r, d, Tref) → OnePending t Tref i (r.message i)

namespace Timed

variable [DecidableEq TransId] {st st' : Dict TransId (Receiver Client × Option Pid × Nat)} {t t' : SendTimers TransId}
  {sent : List TransId} {i : TransId} {m : TimeoutMessage TransId}

/-- Requests that wait no more are forgotten. -/
theorem sub (h : Timed st t sent) (hs : ∀ i x, st' i = some x → st i = some x) : Timed st' t sent where
  next := h.next
  runs := h.runs
  mailbox := h.mailbox
  known i hi := by
    obtain ⟨x, hx⟩ := Option.ne_none_iff_exists'.mp hi
    exact h.known i (by rw [hs i x hx]; exact Option.some_ne_none _)
  ref i r d Tref hi := h.ref i r d Tref (hs i _ hi)
  one i r d Tref hi := h.one i r d Tref (hs i _ hi)

theorem elapse (h : Timed st t sent) (he : Timers.Elapse t t') : Timed st t' sent where
  next ref m hr := by
    rw [he.next_eq]
    exact h.next ref m (he.runs hr)
  runs ref m i hr hm := h.runs ref m i (he.runs hr) hm
  mailbox m hm i hi := by
    rcases he.mem_mailbox hm with hm | ⟨ref, hr⟩
    · exact h.mailbox m hm i hi
    · exact h.runs ref m i hr hi
  known := h.known
  ref i r d Tref hi := by
    rw [he.next_eq]
    obtain ⟨h1, h2⟩ := h.ref i r d Tref hi
    exact ⟨h1, fun m hr => h2 m (he.runs hr)⟩
  one i r d Tref hi := (h.one i r d Tref hi).elapse (request_message r i) he

/-- A message is received, and the request it is about waits no more. -/
theorem receive (h : Timed st t sent) (hr : Timers.Receive m t t') (hm : ∀ i, m.request = some i → st i = none) :
    Timed st t' sent where
  next ref m' hrun := by
    rw [hr.next_eq]
    exact h.next ref m' (hr.runs.mp hrun)
  runs ref m' i hrun := h.runs ref m' i (hr.runs.mp hrun)
  mailbox m' hm' := h.mailbox m' (hr.mem_mailbox hm')
  known := h.known
  ref i r d Tref hi := by
    rw [hr.next_eq]
    obtain ⟨h1, h2⟩ := h.ref i r d Tref hi
    exact ⟨h1, fun m' hrun => h2 m' (hr.runs.mp hrun)⟩
  one i r d Tref hi := by
    refine (h.one i r d Tref hi).receive (request_message r i) (fun he => ?_) hr
    rw [hm i he] at hi
    cases hi

/-- A timer is started that is not of a request. -/
theorem sendAfter (h : Timed st t sent) {Time : Nat} (hm : m.request = none) :
    Timed st (t.sendAfter Time m).2 sent where
  next ref m' hr := by
    rcases Timers.runs_sendAfter.mp hr with ⟨rfl, -⟩ | ⟨-, hr⟩
    · exact Nat.lt_succ_self _
    · exact (h.next ref m' hr).trans (Nat.lt_succ_self _)
  runs ref m' i hr hi := by
    rcases Timers.runs_sendAfter.mp hr with ⟨-, rfl⟩ | ⟨-, hr⟩
    · rw [hm] at hi
      cases hi
    · exact h.runs ref m' i hr hi
  mailbox := h.mailbox
  known := h.known
  ref i r d Tref hi := by
    obtain ⟨h1, h2⟩ := h.ref i r d Tref hi
    refine ⟨h1.trans (Nat.lt_succ_self _), fun m' hr => ?_⟩
    rcases Timers.runs_sendAfter.mp hr with ⟨rfl, -⟩ | ⟨-, hr⟩
    · exact absurd h1 (Nat.lt_irrefl _)
    · exact h2 m' hr
  one i r d Tref hi := by
    refine (h.one i r d Tref hi).sendAfter (request_message r i) h.next ?_
    rw [hm]
    exact (Option.some_ne_none i).symm

/-- The timer of a request that waits no more is cancelled. -/
theorem cancelTimer (h : Timed st t sent) {r : Receiver Client} {d : Option Pid} {Tref : Nat}
    (hi : st i = some (r, d, Tref)) (hs : ∀ j x, st' j = some x → st j = some x) (hi' : st' i = none) :
    Timed st' (t.cancelTimer Tref).2 sent where
  next ref m hr := h.next ref m (Timers.runs_cancelTimer.mp hr).2
  runs ref m j hr := h.runs ref m j (Timers.runs_cancelTimer.mp hr).2
  mailbox := h.mailbox
  known := (h.sub hs).known
  ref j r' d' Tref' hj := by
    obtain ⟨h1, h2⟩ := (h.sub hs).ref j r' d' Tref' hj
    exact ⟨h1, fun m hr => h2 m (Timers.runs_cancelTimer.mp hr).2⟩
  one j r' d' Tref' hj := by
    refine ((h.sub hs).one j r' d' Tref' hj).cancelTimer (request_message r' j) fun m hr hm => ?_
    rw [(h.ref i r d Tref hi).2 m hr, request_message] at hm
    cases hm
    rw [hi'] at hj
    cases hj

/-- A request is sent. -/
theorem start (h : Timed st t sent) {Time : Nat} {r : Receiver Client} {d : Option Pid} (hi : i ∉ sent) :
    Timed (st.store i (r, d, t.next)) (t.sendAfter Time (r.message i)).2 (i :: sent) := by
  have hstore : ∀ j x, st.store i (r, d, t.next) j = some x → (j = i ∧ x = (r, d, t.next)) ∨
      (j ≠ i ∧ st j = some x) := by
    intro j x hj
    rw [Dict.store, Function.update_apply] at hj
    split at hj
    · cases hj
      exact Or.inl ⟨‹_›, rfl⟩
    · exact Or.inr ⟨‹_›, hj⟩
  refine ⟨fun ref m hr => ?_, fun ref m j hr hm => ?_, fun m hm j hj => List.mem_cons_of_mem i (h.mailbox m hm j hj),
    fun j hj => ?_, fun j r' d' Tref hj => ?_, fun j r' d' Tref hj => ?_⟩
  · rcases Timers.runs_sendAfter.mp hr with ⟨rfl, -⟩ | ⟨-, hr⟩
    · exact Nat.lt_succ_self _
    · exact (h.next ref m hr).trans (Nat.lt_succ_self _)
  · rcases Timers.runs_sendAfter.mp hr with ⟨-, rfl⟩ | ⟨-, hr⟩
    · rw [request_message] at hm
      cases hm
      exact List.mem_cons_self
    · exact List.mem_cons_of_mem i (h.runs ref m j hr hm)
  · obtain ⟨x, hx⟩ := Option.ne_none_iff_exists'.mp hj
    rcases hstore j x hx with ⟨rfl, -⟩ | ⟨-, hx⟩
    · exact List.mem_cons_self
    · exact List.mem_cons_of_mem i (h.known j (by rw [hx]; exact Option.some_ne_none _))
  · rcases hstore j _ hj with ⟨rfl, he⟩ | ⟨-, hj⟩
    · cases he
      refine ⟨Nat.lt_succ_self _, fun m hr => ?_⟩
      rcases Timers.runs_sendAfter.mp hr with ⟨-, rfl⟩ | ⟨hne, -⟩
      · rfl
      · exact absurd rfl hne
    · obtain ⟨h1, h2⟩ := h.ref j r' d' Tref hj
      refine ⟨h1.trans (Nat.lt_succ_self _), fun m hr => ?_⟩
      rcases Timers.runs_sendAfter.mp hr with ⟨rfl, -⟩ | ⟨-, hr⟩
      · exact absurd h1 (Nat.lt_irrefl _)
      · exact h2 m hr
  · rcases hstore j _ hj with ⟨rfl, he⟩ | ⟨hji, hj⟩
    · cases he
      refine Or.inl ⟨Timers.runs_sendAfter.mpr (Or.inl ⟨rfl, rfl⟩), fun ref m hm hr => ?_, fun m hm hj => ?_⟩
      · rcases Timers.runs_sendAfter.mp hr with ⟨rfl, -⟩ | ⟨-, hr⟩
        · rfl
        · exact absurd (h.runs ref m j hr hm) hi
      · exact hi (h.mailbox m hm j hj)
    · refine (h.one j r' d' Tref hj).sendAfter (request_message r' j) h.next fun he => ?_
      rw [request_message] at he
      cases he
      exact hji rfl

/-- The destination of a request died. -/
theorem dead (h : Timed st t sent) {r : Receiver Client} {d : Option Pid} {Tref : Nat}
    (hi : st i = some (r, d, Tref)) :
    Timed (st.store i (r, none, Tref)) (match (t.cancelTimer Tref).1 with
      | none => (t.cancelTimer Tref).2
      | some _ => { (t.cancelTimer Tref).2 with mailbox := (t.cancelTimer Tref).2.mailbox ++ [r.message i] }) sent := by
  have hstore : ∀ j x, st.store i (r, none, Tref) j = some x →
      (j = i ∧ x = (r, none, Tref)) ∨ (j ≠ i ∧ st j = some x) := by
    intro j x hj
    rw [Dict.store, Function.update_apply] at hj
    split at hj
    · cases hj
      exact Or.inl ⟨‹_›, rfl⟩
    · exact Or.inr ⟨‹_›, hj⟩
  have hknown : i ∈ sent := h.known i (by rw [hi]; exact Option.some_ne_none _)
  obtain ⟨href, hown⟩ := h.ref i r d Tref hi
  have hone := (h.one i r d Tref hi).replace (request_message r i) hown
  have hother : ∀ j r' d' Tref', j ≠ i → st j = some (r', d', Tref') →
      OnePending (t.cancelTimer Tref).2 Tref' j (r'.message j) := by
    intro j r' d' Tref' hji hj
    refine (h.one j r' d' Tref' hj).cancelTimer (request_message r' j) fun m hr hm => ?_
    rw [hown m hr, request_message] at hm
    cases hm
    exact hji rfl
  -- the ids of the requests and their timers are the same, whether the timer still runs or not
  have hids : ∀ j, st.store i (r, none, Tref) j ≠ none → j ∈ sent := by
    intro j hj
    obtain ⟨x, hx⟩ := Option.ne_none_iff_exists'.mp hj
    rcases hstore j x hx with ⟨rfl, -⟩ | ⟨-, hx⟩
    · exact hknown
    · exact h.known j (by rw [hx]; exact Option.some_ne_none _)
  have hrefs : ∀ j r' d' Tref', st.store i (r, none, Tref) j = some (r', d', Tref') →
      Tref' < t.next ∧ ∀ m, (t.cancelTimer Tref).2.Runs Tref' m → m = r'.message j := by
    intro j r' d' Tref' hj
    rcases hstore j _ hj with ⟨rfl, he⟩ | ⟨-, hj⟩
    · cases he
      exact ⟨href, fun m hr => hown m (Timers.runs_cancelTimer.mp hr).2⟩
    · obtain ⟨h1, h2⟩ := h.ref j r' d' Tref' hj
      exact ⟨h1, fun m hr => h2 m (Timers.runs_cancelTimer.mp hr).2⟩
  revert hone
  cases (t.cancelTimer Tref).1 with
  | none =>
    intro hone
    refine ⟨fun ref m hr => h.next ref m (Timers.runs_cancelTimer.mp hr).2,
      fun ref m j hr => h.runs ref m j (Timers.runs_cancelTimer.mp hr).2, h.mailbox, hids, hrefs,
      fun j r' d' Tref' hj => ?_⟩
    · rcases hstore j _ hj with ⟨rfl, he⟩ | ⟨hji, hj⟩
      · cases he
        exact hone
      · exact hother j r' d' Tref' hji hj
  | some left =>
    intro hone
    refine ⟨fun ref m hr => h.next ref m (Timers.runs_cancelTimer.mp hr).2,
      fun ref m j hr => h.runs ref m j (Timers.runs_cancelTimer.mp hr).2, fun m hm j hj => ?_, hids, hrefs,
      fun j r' d' Tref' hj => ?_⟩
    · rcases List.mem_append.mp hm with hm | hm
      · exact h.mailbox m hm j hj
      · rw [List.mem_singleton.mp hm, request_message] at hj
        cases hj
        exact hknown
    · rcases hstore j _ hj with ⟨rfl, he⟩ | ⟨hji, hj⟩
      · cases he
        exact hone
      · refine (hother j r' d' Tref' hji hj).message (request_message r' j) fun he => ?_
        rw [request_message] at he
        cases he
        exact hji rfl

end Timed

/-! ## The lists of the processes that are monitored -/

/-- The request is in the list of the process. -/
def Monitored (mon : Dict Pid (Nat × List TransId)) (P : Pid) (i : TransId) : Prop :=
  ∃ MonitorRef TransIdList, mon P = some (MonitorRef, TransIdList) ∧ i ∈ TransIdList

/-- The request waits for a response of the process. -/
def Awaits (st : Dict TransId (Receiver Client × Option Pid × Nat)) (P : Pid) (i : TransId) : Prop :=
  ∃ r Tref, st i = some (r, some P, Tref)

structure Indexed [LinearOrder TransId] (st : Dict TransId (Receiver Client × Option Pid × Nat))
    (mon : Dict Pid (Nat × List TransId)) : Prop where
  lists : ∀ P MonitorRef TransIdList, mon P = some (MonitorRef, TransIdList) → TransIdList ≠ [] ∧ Sorted TransIdList
  index : ∀ P i, Monitored mon P i ↔ Awaits st P i

section

variable {st st' : Dict TransId (Receiver Client × Option Pid × Nat)} {mon mon' : Dict Pid (Nat × List TransId)}
  {i j : TransId} {P Q : Pid} {MonitorRef : Nat} {TransIdList : List TransId}

theorem monitored_of_some (h : mon P = some (MonitorRef, TransIdList)) : Monitored mon P i ↔ i ∈ TransIdList := by
  constructor
  · rintro ⟨ref, L, hL, hi⟩
    cases h.symm.trans hL
    exact hi
  · exact fun hi => ⟨_, _, h, hi⟩

theorem not_monitored_of_none (h : mon P = none) : ¬Monitored mon P i := by
  rintro ⟨ref, L, hL, -⟩
  cases h.symm.trans hL

theorem monitored_congr (h : mon' P = mon P) : Monitored mon' P i ↔ Monitored mon P i := by
  rw [Monitored, Monitored, h]

theorem awaits_congr (h : st' i = st i) : Awaits st' P i ↔ Awaits st P i := by
  rw [Awaits, Awaits, h]

variable [LinearOrder TransId] [DecidableEq Pid]

/-- The list of one process changes, and so do the requests that wait for it. -/
theorem Indexed.update (h : Indexed st mon) {y : Option (Nat × List TransId)}
    (hy : ∀ ref L, y = some (ref, L) → L ≠ [] ∧ Sorted L)
    (hi : ∀ i, Monitored (Function.update mon P y) P i ↔ Awaits st' P i)
    (hst : ∀ Q i, Q ≠ P → (Awaits st' Q i ↔ Awaits st Q i)) : Indexed st' (Function.update mon P y) where
  lists Q ref L hL := by
    by_cases hQ : Q = P
    · subst hQ
      rw [Function.update_self] at hL
      exact hy ref L hL
    · rw [Function.update_of_ne hQ] at hL
      exact h.lists Q ref L hL
  index Q i := by
    by_cases hQ : Q = P
    · subst hQ
      exact hi i
    · rw [monitored_congr (Function.update_of_ne hQ y mon), hst Q i hQ]
      exact h.index Q i

theorem awaits_store {r : Receiver Client} {d : Option Pid} {Tref : Nat} :
    Awaits (st.store i (r, d, Tref)) P j ↔ (j = i ∧ d = some P) ∨ (j ≠ i ∧ Awaits st P j) := by
  by_cases hj : j = i
  · subst hj
    rw [Awaits, Dict.store, Function.update_self]
    constructor
    · rintro ⟨r', Tref', he⟩
      cases he
      exact Or.inl ⟨rfl, rfl⟩
    · rintro (⟨-, rfl⟩ | ⟨hne, -⟩)
      · exact ⟨r, Tref, rfl⟩
      · exact absurd rfl hne
  · have he : st.store i (r, d, Tref) j = st j := Function.update_of_ne hj _ st
    rw [awaits_congr he]
    exact ⟨fun h => Or.inr ⟨hj, h⟩, fun h => (h.resolve_left fun he => hj he.1).2⟩

theorem awaits_erase : Awaits (st.erase i) P j ↔ j ≠ i ∧ Awaits st P j := by
  by_cases hj : j = i
  · subst hj
    rw [Awaits, Dict.erase, Function.update_self]
    constructor
    · rintro ⟨r', Tref', he⟩
      cases he
    · exact fun h => absurd rfl h.1
  · have he : st.erase i j = st j := by rw [Dict.erase, Function.update_of_ne hj]
    rw [awaits_congr he]
    exact ⟨fun h => ⟨hj, h⟩, fun h => h.2⟩

/-- A request that is not monitored is sent, or waits for its timeout only. -/
theorem Indexed.store_none (h : Indexed st mon) {r : Receiver Client} {Tref : Nat} (hi : ∀ P, ¬Awaits st P i) :
    Indexed (st.store i (r, none, Tref)) mon where
  lists := h.lists
  index P j := by
    rw [h.index, awaits_store]
    refine ⟨fun hj => Or.inr ⟨fun he => hi P (he ▸ hj), hj⟩, fun ho => ?_⟩
    rcases ho with ⟨-, he⟩ | ⟨-, hj⟩
    · cases he
    · exact hj

/-- A request is sent to a process, which is monitored. -/
theorem Indexed.start (h : Indexed st mon) {r : Receiver Client} {Tref : Nat} (hi : ∀ P, ¬Awaits st P i)
    (σ : System TransId Pid Client Term) (hσ : σ.state.sendTimeoutMonitors = mon) :
    Indexed (st.store i (r, some P, Tref)) (monitorRequest i P σ).state.sendTimeoutMonitors := by
  have hother : ∀ Q j, Q ≠ P → (Awaits (st.store i (r, some P, Tref)) Q j ↔ Awaits st Q j) := by
    intro Q j hQ
    rw [awaits_store]
    refine ⟨fun ho => ?_, fun hj => Or.inr ⟨fun he => hi Q (he ▸ hj), hj⟩⟩
    rcases ho with ⟨-, he⟩ | ⟨-, hj⟩
    · cases he
      exact absurd rfl hQ
    · exact hj
  have hself : ∀ j, Awaits (st.store i (r, some P, Tref)) P j ↔ j = i ∨ Awaits st P j := by
    intro j
    rw [awaits_store]
    constructor
    · exact fun ho => ho.imp (fun h => h.1) fun h => h.2
    · rintro (rfl | hj)
      · exact Or.inl ⟨rfl, rfl⟩
      · exact Or.inr ⟨fun he => hi P (he ▸ hj), hj⟩
  unfold monitorRequest
  rw [hσ]
  cases hP : mon P with
  | some x =>
    obtain ⟨ref, L⟩ := x
    obtain ⟨-, hsorted⟩ := h.lists P ref L hP
    refine h.update (fun ref' L' he => ?_) (fun j => ?_) hother
    · cases he
      refine ⟨fun hnil => ?_, umerge_sorted hsorted (sorted_singleton i)⟩
      have hmem : i ∈ umerge L [i] := mem_umerge.mpr (Or.inr List.mem_cons_self)
      rw [hnil] at hmem
      cases hmem
    · rw [monitored_of_some (Function.update_self _ _ _), hself, mem_umerge, List.mem_singleton, ← h.index,
        monitored_of_some hP, or_comm]
  | none =>
    refine h.update (fun ref' L' he => ?_) (fun j => ?_) hother
    · cases he
      exact ⟨List.cons_ne_nil _ _, sorted_singleton i⟩
    · rw [monitored_of_some (Function.update_self _ _ _), hself, List.mem_singleton]
      exact ⟨Or.inl, fun ho => ho.resolve_right fun hj => not_monitored_of_none hP ((h.index P j).mpr hj)⟩

/-- A request ends. -/
theorem Indexed.done (h : Indexed st mon) {r : Receiver Client} {d : Option Pid} {Tref : Nat}
    (hi : st i = some (r, d, Tref)) :
    Indexed (st.erase i) (endMonitor i d mon) := by
  cases d with
  | none =>
    refine ⟨h.lists, fun P j => ?_⟩
    rw [endMonitor, h.index, awaits_erase]
    refine ⟨fun hj => ⟨fun he => ?_, hj⟩, fun hj => hj.2⟩
    obtain ⟨r', Tref', hj⟩ := hj
    rw [he, hi] at hj
    cases hj
  | some P =>
    have hother : ∀ Q j, Q ≠ P → (Awaits (st.erase i) Q j ↔ Awaits st Q j) := by
      intro Q j hQ
      rw [awaits_erase]
      refine ⟨fun hj => hj.2, fun hj => ⟨fun he => ?_, hj⟩⟩
      obtain ⟨r', Tref', hj⟩ := hj
      rw [he, hi] at hj
      cases hj
      exact hQ rfl
    obtain ⟨ref, L, hP, hmem⟩ := (h.index P i).mpr ⟨r, Tref, hi⟩
    obtain ⟨-, hsorted⟩ := h.lists P ref L hP
    show Indexed (st.erase i) (demonitorRequest i P mon)
    unfold demonitorRequest
    rw [hP]
    simp only
    split
    · rename_i hL
      refine h.update (fun ref' L' he => ?_) (fun j => ?_) hother
      · cases he
      · rw [awaits_erase, ← h.index, monitored_of_some hP, hL, List.mem_singleton]
        exact ⟨fun hj => absurd hj (not_monitored_of_none (Function.update_self _ _ _)), fun hj => absurd hj.2 hj.1⟩
    · rename_i hL
      refine h.update (fun ref' L' he => ?_) (fun j => ?_) hother
      · cases he
        refine ⟨fun hnil => hL ?_, hsorted.delete i⟩
        rcases List.erase_eq_nil_iff.mp hnil with rfl | he
        · cases hmem
        · exact he
      · rw [monitored_of_some (Function.update_self _ _ _), awaits_erase, mem_delete hsorted, ← h.index,
          monitored_of_some hP]

end

/-! ## Every step -/

variable [LinearOrder TransId] [DecidableEq Pid] {rt : Runtime Term} {k : Kind}
  {σ σ' σ₁ : System TransId Pid Client Term} {i : TransId}

structure System.Inv (σ : System TransId Pid Client Term) : Prop where
  timed : Timed σ.state.sendTimeouts σ.timers σ.sent
  indexed : Indexed σ.state.sendTimeouts σ.state.sendTimeoutMonitors

theorem inv_init (D : Pid) (Max : Nat) (Adjustment : Bool) :
    (System.init D Max Adjustment : System TransId Pid Client Term).Inv where
  timed :=
    { next := fun ref m hr => absurd hr Timers.not_runs_new
      runs := fun ref m i hr => absurd hr Timers.not_runs_new
      mailbox := fun m hm => absurd hm List.not_mem_nil
      known := fun i hi => absurd rfl hi
      ref := fun i r d Tref hi => absurd hi (Option.some_ne_none _).symm
      one := fun i r d Tref hi => absurd hi (Option.some_ne_none _).symm }
  indexed :=
    { lists := fun P ref L hL => absurd hL (Option.some_ne_none _).symm
      index := fun P i => by
        refine ⟨fun hm => absurd hm (not_monitored_of_none rfl), fun ha => ?_⟩
        obtain ⟨r, Tref, ha⟩ := ha
        cases ha }

theorem System.Inv.timeoutStart (h : σ.Inv) (r : Receiver Client) (Timeout : Nat) {P : Pid} (hi : i ∉ σ.sent) :
    (timeoutStart r Timeout i P σ).Inv := by
  have hnone : ∀ Q, ¬Awaits σ.state.sendTimeouts Q i := by
    rintro Q ⟨r', Tref, ha⟩
    exact hi (h.timed.known i (by rw [ha]; exact Option.some_ne_none _))
  unfold SendTimeouts.timeoutStart
  split
  · have hm : (monitorRequest i P σ).state.sendTimeouts = σ.state.sendTimeouts ∧
        (monitorRequest i P σ).timers = σ.timers ∧ (monitorRequest i P σ).sent = σ.sent := by
      unfold monitorRequest
      split <;> exact ⟨rfl, rfl, rfl⟩
    obtain ⟨hst, htimers, hsent⟩ := hm
    refine ⟨?_, ?_⟩
    · show Timed ((monitorRequest i P σ).state.sendTimeouts.store i (r, some P, (monitorRequest i P σ).timers.next))
        ((monitorRequest i P σ).timers.sendAfter Timeout (r.message i)).2 (i :: (monitorRequest i P σ).sent)
      rw [hst, htimers, hsent]
      exact h.timed.start hi
    · show Indexed ((monitorRequest i P σ).state.sendTimeouts.store i (r, some P, (monitorRequest i P σ).timers.next)) _
      rw [hst]
      exact h.indexed.start hnone σ rfl
  · exact ⟨h.timed.start hi, h.indexed.store_none hnone⟩

/-- A request ends, after something that only touches its timer. -/
theorem System.Inv.done (h : σ.Inv) {r : Receiver Client} {d : Option Pid} {Tref : Nat}
    (hi : σ.state.sendTimeouts i = some (r, d, Tref)) (hst : σ₁.state.sendTimeouts = σ.state.sendTimeouts)
    (hmon : σ₁.state.sendTimeoutMonitors = σ.state.sendTimeoutMonitors)
    (ht : Timed (σ.state.sendTimeouts.erase i) σ₁.timers σ₁.sent) : (sendTimeoutEnd i d σ₁).Inv where
  timed := by
    show Timed (σ₁.state.sendTimeouts.erase i) σ₁.timers σ₁.sent
    rw [hst]
    exact ht
  indexed := by
    show Indexed (σ₁.state.sendTimeouts.erase i) (endMonitor i d σ₁.state.sendTimeoutMonitors)
    rw [hst, hmon]
    exact h.indexed.done hi

theorem erase_sub (st : Dict TransId (Receiver Client × Option Pid × Nat)) (i : TransId) (j : TransId)
    (x : Receiver Client × Option Pid × Nat) (hx : st.erase i j = some x) : st j = some x := by
  rw [Dict.erase, Function.update_apply] at hx
  split at hx
  · cases hx
  · exact hx

theorem erase_self (st : Dict TransId (Receiver Client × Option Pid × Nat)) (i : TransId) : st.erase i i = none :=
  Function.update_self _ _ _

/-- What the handlers of a response do before the request ends. -/
structure Ending (i : TransId) (σ σ₁ : System TransId Pid Client Term) : Prop where
  sendTimeouts : σ₁.state.sendTimeouts = σ.state.sendTimeouts
  sendTimeoutMonitors : σ₁.state.sendTimeoutMonitors = σ.state.sendTimeoutMonitors
  timed : Timed (σ.state.sendTimeouts.erase i) σ₁.timers σ₁.sent

theorem ending_cancelTimerAsync (h : σ.Inv) {r : Receiver Client} {d : Option Pid} {Tref : Nat}
    (hi : σ.state.sendTimeouts i = some (r, d, Tref)) (OldTimeout : Nat) :
    Ending i σ (cancelTimerAsync OldTimeout Tref σ) := by
  unfold cancelTimerAsync
  split
  · exact ⟨rfl, rfl, h.timed.cancelTimer hi (erase_sub _ i) (erase_self _ i)⟩
  · exact ⟨rfl, rfl, h.timed.sub (erase_sub _ i)⟩

theorem ending_responseTimeout (h : σ.Inv) {r : Receiver Client} {d : Option Pid} {Tref : Nat}
    (hi : σ.state.sendTimeouts i = some (r, d, Tref)) (OldTimeout : Nat) :
    Ending i σ (responseTimeout OldTimeout Tref σ).2 := by
  unfold responseTimeout
  split
  · exact ⟨rfl, rfl, h.timed.cancelTimer hi (erase_sub _ i) (erase_self _ i)⟩
  · exact ⟨rfl, rfl, h.timed.sub (erase_sub _ i)⟩

theorem Ending.asyncResponseTimeoutStart (h : Ending i σ σ₁) (ResponseInfo Response : Term) (Timeout : Nat)
    (j : TransId) : Ending i σ (asyncResponseTimeoutStart ResponseInfo Response Timeout j σ₁) := by
  unfold SendTimeouts.asyncResponseTimeoutStart
  split
  · exact h
  · exact ⟨h.sendTimeouts, h.sendTimeoutMonitors, h.timed.sendAfter rfl⟩

theorem Ending.inv (h : Ending i σ σ₁) (hσ : σ.Inv) {r : Receiver Client} {d : Option Pid} {Tref : Nat}
    (hi : σ.state.sendTimeouts i = some (r, d, Tref)) : (sendTimeoutEnd i d σ₁).Inv :=
  hσ.done hi h.sendTimeouts h.sendTimeoutMonitors h.timed

theorem Ending.out (h : Ending i σ σ₁) (o : Output TransId Pid Client Term) : Ending i σ (σ₁.out o) :=
  ⟨h.sendTimeouts, h.sendTimeoutMonitors, h.timed⟩

variable {r : Response TransId Pid Term}

theorem inv_returnAsync_internal (h : σ.Inv) (hr : Internal.returnAsync rt r σ = .ok σ') : σ'.Inv := by
  unfold Internal.returnAsync at hr
  split at hr
  · cases hr
  · split at hr
    · cases hr
      exact h
    · rename_i d Tref hi
      split at hr
      · cases hr
        exact ((ending_cancelTimerAsync h hi r.timeout).out _).inv h hi
      · cases hr
        exact ((ending_responseTimeout h hi r.timeout).out _).inv h hi
    · rename_i d Tref hi
      split at hr
      · cases hr
        exact (ending_cancelTimerAsync h hi r.timeout).inv h hi
      · cases hr
        exact ((ending_responseTimeout h hi r.timeout).asyncResponseTimeoutStart _ _ _ _).inv h hi
    · cases hr

theorem inv_returnAsync_external (h : σ.Inv) (hr : External.returnAsync rt r σ = .ok σ') : σ'.Inv := by
  unfold External.returnAsync at hr
  split at hr
  · cases hr
  · split at hr
    · cases hr
      exact h
    · rename_i d Tref hi
      split at hr
      · cases hr
        exact (ending_cancelTimerAsync h hi r.timeout).inv h hi
      · cases hr
        refine Ending.inv ?_ h hi
        split
        · exact (ending_responseTimeout h hi r.timeout).asyncResponseTimeoutStart _ _ _ _
        · exact ending_responseTimeout h hi r.timeout
    · cases hr

theorem inv_returnSync_internal (h : σ.Inv) (hr : Internal.returnSync rt r σ = .ok σ') : σ'.Inv := by
  unfold Internal.returnSync at hr
  split at hr
  · cases hr
  · split at hr
    · cases hr
      exact h
    · rename_i c d Tref hi
      cases hr
      exact ((ending_cancelTimerAsync h hi r.timeout).out _).inv h hi
    · cases hr

theorem inv_returnSync_external (h : σ.Inv) (hr : External.returnSync rt r σ = .ok σ') : σ'.Inv := by
  unfold External.returnSync at hr
  split at hr
  · cases hr
  · split at hr
    · cases hr
      exact h
    · rename_i r' d Tref hi
      cases hr
      exact ((ending_cancelTimerAsync h hi r.timeout).out _).inv h hi

/-! ## The death of a destination -/

/-- What `send_timeout_dead/2` does with the requests of a list. -/
theorem foldl_timeoutDead (h : Timed σ.state.sendTimeouts σ.timers σ.sent) (L : List TransId) :
    Timed (L.foldl timeoutDead σ).state.sendTimeouts (L.foldl timeoutDead σ).timers (L.foldl timeoutDead σ).sent ∧
      (L.foldl timeoutDead σ).state.sendTimeoutMonitors = σ.state.sendTimeoutMonitors ∧
      ∀ j, (L.foldl timeoutDead σ).state.sendTimeouts j =
        if j ∈ L then (σ.state.sendTimeouts j).map fun x => (x.1, none, x.2.2) else σ.state.sendTimeouts j := by
  induction L generalizing σ with
  | nil => exact ⟨h, rfl, fun j => rfl⟩
  | cons i L ih =>
    cases hi : σ.state.sendTimeouts i with
    | none =>
      have hstep : timeoutDead σ i = σ := by rw [timeoutDead, hi]
      rw [List.foldl_cons, hstep]
      obtain ⟨h1, h2, h3⟩ := ih h
      refine ⟨h1, h2, fun j => ?_⟩
      rw [h3]
      by_cases hj : j = i
      · subst hj
        rw [hi]
        split <;> split <;> rfl
      · rw [if_congr (P := j ∈ L) (Q := j ∈ i :: L) (by rw [List.mem_cons]; exact
            ⟨Or.inr, fun ho => ho.resolve_left hj⟩)
          rfl rfl]
    | some x =>
      obtain ⟨r, d, Tref⟩ := x
      have hstep : (timeoutDead σ i).state.sendTimeouts = σ.state.sendTimeouts.store i (r, none, Tref) ∧
          (timeoutDead σ i).state.sendTimeoutMonitors = σ.state.sendTimeoutMonitors ∧
          Timed (timeoutDead σ i).state.sendTimeouts (timeoutDead σ i).timers (timeoutDead σ i).sent := by
        unfold timeoutDead
        rw [hi]
        exact ⟨rfl, rfl, h.dead hi⟩
      obtain ⟨hst, hmon, ht⟩ := hstep
      rw [List.foldl_cons]
      obtain ⟨h1, h2, h3⟩ := ih ht
      refine ⟨h1, h2.trans hmon, fun j => ?_⟩
      rw [h3, hst]
      by_cases hj : j = i
      · subst hj
        rw [if_pos List.mem_cons_self, Dict.store, Function.update_self, hi]
        split <;> rfl
      · rw [show σ.state.sendTimeouts.store i (r, none, Tref) j = σ.state.sendTimeouts j from
          Function.update_of_ne hj _ _, if_congr (P := j ∈ L) (Q := j ∈ i :: L)
          (by rw [List.mem_cons]; exact ⟨Or.inr, fun ho => ho.resolve_left hj⟩) rfl rfl]

/-- The requests of a process that died wait for their timeout, and the others are as before. -/
theorem sendTimeoutDead_spec (h : σ.Inv) (P : Pid) :
    (sendTimeoutDead P σ).2.Inv ∧ ∀ i r Tref, σ.state.sendTimeouts i = some (r, some P, Tref) →
      (sendTimeoutDead P σ).2.state.sendTimeouts i = some (r, none, Tref) := by
  unfold sendTimeoutDead
  cases hP : σ.state.sendTimeoutMonitors P with
  | none =>
    refine ⟨h, fun i r Tref hi => ?_⟩
    exact absurd ((h.indexed.index P i).mpr ⟨r, Tref, hi⟩) (not_monitored_of_none hP)
  | some x =>
    obtain ⟨ref, L⟩ := x
    obtain ⟨ht, hmon, hst⟩ := foldl_timeoutDead h.timed L
    have hL : ∀ i, i ∈ L ↔ Awaits σ.state.sendTimeouts P i := fun i => by
      rw [← h.indexed.index, monitored_of_some hP]
    have hno : ∀ Q i, i ∈ L → ¬Awaits (L.foldl timeoutDead σ).state.sendTimeouts Q i := by
      rintro Q i hi ⟨r, Tref, ha⟩
      rw [hst, if_pos hi] at ha
      obtain ⟨x, -, he⟩ := Option.map_eq_some_iff.mp ha
      cases he
    have hsame : ∀ Q i, i ∉ L → (Awaits (L.foldl timeoutDead σ).state.sendTimeouts Q i ↔
        Awaits σ.state.sendTimeouts Q i) :=
      fun Q i hi => awaits_congr (by rw [hst, if_neg hi])
    refine ⟨⟨ht, ?_⟩, fun i r Tref hi => ?_⟩
    · show Indexed (L.foldl timeoutDead σ).state.sendTimeouts
        ((L.foldl timeoutDead σ).state.sendTimeoutMonitors.erase P)
      rw [hmon]
      refine h.indexed.update (fun ref L he => ?_) (fun i => ?_) fun Q i hQ => ?_
      · cases he
      · refine ⟨fun hm => absurd hm (not_monitored_of_none (Function.update_self _ _ _)), fun ha => ?_⟩
        by_cases hi : i ∈ L
        · exact absurd ha (hno P i hi)
        · exact absurd ((hL i).mpr ((hsame P i hi).mp ha)) hi
      · by_cases hi : i ∈ L
        · refine ⟨fun ha => absurd ha (hno Q i hi), fun ha => ?_⟩
          obtain ⟨r, Tref, ha⟩ := ha
          obtain ⟨r', Tref', ha'⟩ := (hL i).mp hi
          cases ha.symm.trans ha'
          exact absurd rfl hQ
        · exact hsame Q i hi
    · show (L.foldl timeoutDead σ).state.sendTimeouts i = _
      rw [hst, if_pos ((hL i).mpr ⟨r, Tref, hi⟩), hi]
      rfl

/-! ## Every run -/

theorem Event.inv (h : σ.Inv) {e : Event TransId Pid Client Term} (he : e.Enabled k σ)
    (hr : e.apply rt k σ = .ok σ') : σ'.Inv := by
  cases e with
  | sendAsync Timeout i P =>
    cases hr
    exact h.timeoutStart _ _ he
  | sendAsyncActive Timeout i P =>
    cases hr
    exact h.timeoutStart _ _ he.1
  | sendSync Timeout i P c =>
    cases hr
    exact h.timeoutStart _ _ he
  | returnAsync r =>
    cases k with
    | internal => exact inv_returnAsync_internal h hr
    | external => exact inv_returnAsync_external h hr
  | returnSync r =>
    cases k with
    | internal => exact inv_returnSync_internal h hr
    | external => exact inv_returnSync_external h hr
  | down P =>
    cases hr
    exact (sendTimeoutDead_spec h P).1

/-- A timeout is received: the request that it is about ends. -/
theorem TimeoutMessage.inv (h : σ.Inv) {m : TimeoutMessage TransId} {t : SendTimers TransId}
    (hm : Timers.Receive m σ.timers t) (hr : m.apply k { σ with timers := t } = .ok σ') : σ'.Inv := by
  have hnone : (∀ i, m.request = some i → σ.state.sendTimeouts i = none) →
      System.Inv { σ with timers := t } := fun hn => ⟨h.timed.receive hm hn, h.indexed⟩
  have hend : ∀ {i r d Tref}, m.request = some i → σ.state.sendTimeouts i = some (r, d, Tref) →
      Ending i σ { σ with timers := t } := by
    intro i r d Tref hi hx
    refine ⟨rfl, rfl, (h.timed.sub (erase_sub _ i)).receive hm fun j hj => ?_⟩
    rw [hi] at hj
    cases hj
    exact erase_self _ i
  cases m with
  | recvAsync i =>
    cases hr
    obtain ⟨ht, hx⟩ := hnone fun i hi => absurd hi (Option.some_ne_none i).symm
    exact ⟨ht, hx⟩
  | sendAsync i =>
    cases hx : σ.state.sendTimeouts i with
    | none =>
      have hn := hnone fun j hj => by
        cases hj
        exact hx
      cases k <;>
      · simp only [TimeoutMessage.apply, Internal.sendAsyncTimeout, External.sendAsyncTimeout, hx] at hr
        cases hr
        exact hn
    | some x =>
      obtain ⟨r, d, Tref⟩ := x
      have he := hend rfl hx
      cases k <;> cases r <;>
        simp only [TimeoutMessage.apply, Internal.sendAsyncTimeout, External.sendAsyncTimeout, hx] at hr <;>
        cases hr
      · exact (he.out _).inv h hx
      · exact he.inv h hx
      · exact he.inv h hx
      · exact he.inv h hx
      · exact he.inv h hx
  | sendSync i =>
    cases hx : σ.state.sendTimeouts i with
    | none =>
      have hn := hnone fun j hj => by
        cases hj
        exact hx
      cases k <;>
      · simp only [TimeoutMessage.apply, Internal.sendSyncTimeout, External.sendSyncTimeout, hx] at hr
        cases hr
        exact hn
    | some x =>
      obtain ⟨r, d, Tref⟩ := x
      have he := hend rfl hx
      cases k <;> cases r <;>
        simp only [TimeoutMessage.apply, Internal.sendSyncTimeout, External.sendSyncTimeout, hx] at hr <;>
        cases hr
      · exact (he.out _).inv h hx
      · exact (he.out _).inv h hx
      · exact (he.out _).inv h hx
      · exact (he.out _).inv h hx

theorem Reachable.inv (h : Reachable rt k σ) : σ.Inv := by
  induction h with
  | init D Max Adjustment => exact inv_init D Max Adjustment
  | step _ hs ih =>
    cases hs with
    | event e he hr => exact e.inv ih he hr
    | timeout m hm hr => exact TimeoutMessage.inv ih hm hr
    | elapse ht => exact ⟨ih.timed.elapse ht, ih.indexed⟩
    | options Max Adjustment => exact ⟨ih.timed, ih.indexed⟩

/-- In every state that can be reached, the list of a process has the requests
that wait for it, is not empty and sorted without duplicates, and each request
that waits has one timeout still to come. After `send_timeout_dead/2` the
requests that waited for the process are kept without a destination, each with
one timeout still to come. -/
theorem sent_requests (h : Reachable rt k σ) :
    (∀ P i, Monitored σ.state.sendTimeoutMonitors P i ↔ Awaits σ.state.sendTimeouts P i) ∧
    (∀ P MonitorRef TransIdList, σ.state.sendTimeoutMonitors P = some (MonitorRef, TransIdList) →
      TransIdList ≠ [] ∧ Sorted TransIdList) ∧
    (∀ i r d Tref, σ.state.sendTimeouts i = some (r, d, Tref) → OnePending σ.timers Tref i (r.message i)) ∧
    ∀ P i r Tref, σ.state.sendTimeouts i = some (r, some P, Tref) →
      (sendTimeoutDead P σ).2.state.sendTimeouts i = some (r, none, Tref) ∧
        OnePending (sendTimeoutDead P σ).2.timers Tref i (r.message i) := by
  have hinv := h.inv
  refine ⟨hinv.indexed.index, hinv.indexed.lists, hinv.timed.one, fun P i r Tref hi => ?_⟩
  obtain ⟨hdead, hkept⟩ := sendTimeoutDead_spec hinv P
  exact ⟨hkept i r Tref hi, hdead.timed.one i r none Tref (hkept i r Tref hi)⟩

theorem sent_requests_dead :
    ∃ σ : System Nat Nat Nat Nat, Awaits σ.state.sendTimeouts 9 1 ∧
      (sendTimeoutDead 9 σ).2.state.sendTimeouts 1 = some (.passive, none, 0) ∧
      OnePending (sendTimeoutDead 9 σ).2.timers 0 1 (.sendAsync 1) := by
  let rt : Runtime Nat := ⟨fun x => x = 0, fun _ => true⟩
  have h : Reachable rt .internal (sendAsyncTimeoutStart 5000 1 9 (.init 2 20 true) : System Nat Nat Nat Nat) :=
    .step (.init 2 20 true) (.event (.sendAsync 5000 1 9) List.not_mem_nil rfl)
  obtain ⟨h1, h2⟩ := (sent_requests h).2.2.2 9 1 .passive 0 rfl
  exact ⟨_, ⟨_, _, rfl⟩, h1, h2⟩

end CloudI.Services.SendTimeouts
