import CloudI.Monitor.Update

/-!
# The two phases of an update

`Inv` says where each process of the plan is (`At`): what it did, what is on
the way to it and from it, and how far the monitor is with it. Every step of
the monitor and of a process keeps it (`inv_step`).
-/

namespace CloudI.Monitor.Update

open CloudI.Services (UpdateError)

set_option linter.unusedSectionVars false

variable {Pid P : Type} [DecidableEq Pid] {M : Machine P} {Ready Good : P → Prop} {view : P → Local} {plan : List Pid}
  {c c' : Conf Pid P}

/-- How far the monitor is with a process: it waits for its answer, it has
received it, the process is undefined, it was told, the monitor is done, the
process has a port and waits, or it was told to go on. -/
inductive Stage where
  | wait
  | acked
  | undefined
  | told (b : Bool)
  | finished
  | after
  | resumed

/-- For each stage: whether the process lives, what the monitor can see of it,
the messages to and from it, how many times it was told, and whether it
answered and whether it refused. -/
inductive At : Stage → Bool → Local → List Order → List Report → Nat → Bool → Bool → Prop
  | asked : At .wait true .idle [.update] [] 0 false false
  | pending : At .wait true .pending [] [] 0 false false
  | ready : At .wait true .ready [] [.update none] 0 true false
  | refused (e : UpdateError) : At .wait true .idle [] [.update (some e)] 0 false true
  | died (v : Local) (i : List Order) : At .wait false v i [.down] 0 false false
  | readyDied (v : Local) (i : List Order) : At .wait false v i [.update none, .down] 0 true false
  | refusedDied (v : Local) (i : List Order) (e : UpdateError) :
      At .wait false v i [.update (some e), .down] 0 false true
  | acked : At .acked true .ready [] [] 0 true false
  | ackedDied (v : Local) (i : List Order) : At .acked false v i [.down] 0 true false
  | out : At .undefined true .idle [] [] 0 false true
  | outDied (v : Local) (i : List Order) (ref : Bool) : At .undefined false v i [.down] 0 false ref
  | told (b : Bool) : At (.told b) true .ready [.updateNow b] [] 0 true false
  | going (b : Bool) : At (.told b) true (.going b) [] [] 1 true false
  | result (b : Bool) (error : Option UpdateError) : At (.told b) true .idle [] [.updateNow error] 1 true false
  | port : At (.told true) true .after [] [.updateNowPort] 1 true false
  | toldDied (b : Bool) (v : Local) (i : List Order) (n : Nat) : At (.told b) false v i [.down] n true false
  | resultDied (b : Bool) (v : Local) (i : List Order) (error : Option UpdateError) (n : Nat) :
      At (.told b) false v i [.updateNow error, .down] n true false
  | portDied (b : Bool) (v : Local) (i : List Order) (n : Nat) :
      At (.told b) false v i [.updateNowPort, .down] n true false
  | finished : At .finished true .idle [] [] 1 true false
  | finishedDied (v : Local) (i : List Order) (n : Nat) : At .finished false v i [.down] n true false
  | after : At .after true .after [] [] 1 true false
  | afterDied (v : Local) (i : List Order) (n : Nat) : At .after false v i [.down] n true false
  | goOn (r : Bool) : At .resumed true .after [.updateAfter r] [] 1 true false
  | resumed : At .resumed true .idle [] [] 1 true false
  | resumedDied (v : Local) (i : List Order) (n : Nat) : At .resumed false v i [.down] n true false

/-- The messages of a process in the mailbox. -/
def messages (pid : Pid) (l : List (Pid × Report)) : List Report := (l.filter fun x => x.1 = pid).map Prod.snd

/-- Where a process of the plan is. -/
abbrev Conf.At (c : Conf Pid P) (view : P → Local) (st : Stage) (pid : Pid) : Prop :=
  Update.At st (c.alive pid) (view (c.process pid)) (c.inbox pid) (messages pid c.mailbox) (c.told.count pid)
    (decide (pid ∈ c.acked)) (decide (pid ∈ c.refused))

/-- How far the monitor is with the processes of the plan. -/
inductive InPhase (plan : List Pid) (st : Pid → Stage) : Phase Pid → Prop
  | start {PidList : List Pid} {NewPidList : List (Option Pid)} {UpdateResults : List Reason} :
      PidList.Nodup → (∀ p ∈ PidList, p ∈ plan ∧ st p = .wait ∧ some p ∉ NewPidList) →
      (NewPidList.filterMap id).Nodup →
      (∀ p ∈ plan, p ∉ PidList →
        st p = .acked ∧ some p ∈ NewPidList ∨ st p = .undefined ∧ some p ∉ NewPidList ∧ UpdateResults ≠ []) →
      InPhase plan st (.start PidList NewPidList UpdateResults)
  | now {PidList : List (Option Pid)} {Results0 UpdateResults : List Result} :
      (PidList.filterMap id).Nodup → (∀ p ∈ plan, some p ∈ PidList → ∃ b, st p = .told b) →
      (∀ p ∈ plan, some p ∉ PidList → st p = .finished ∧ (∃ r ∈ UpdateResults, r ≠ .port) ∨
        st p = .after ∧ .port ∈ UpdateResults ∨ st p = .undefined ∧ Results0.any Result.isError = true) →
      InPhase plan st (.now PidList Results0 UpdateResults)
  | done {Results : List Result} :
      (∀ p ∈ plan, st p = .finished ∨ st p = .after ∧ Results.any Result.isError = true ∨ st p = .undefined ∨
        st p = .resumed) → InPhase plan st (.done Results)

/-- A process that was told to update, or that the monitor is done with. -/
def Stage.Committed (st : Stage) : Prop := st = .told true ∨ st = .finished ∨ st = .after ∨ st = .resumed

structure Inv (Good : P → Prop) (view : P → Local) (plan : List Pid) (st : Pid → Stage) (c : Conf Pid P) : Prop where
  at_ : ∀ pid ∈ plan, c.At view (st pid) pid
  good : ∀ pid ∈ plan, c.alive pid = true → Good (c.process pid)
  phase : InPhase plan st c.phase
  commit : ∀ p ∈ plan, st p = .told true → ∀ q ∈ plan, (st q).Committed
  applied : c.applied ≠ [] → ∀ q ∈ plan, (st q).Committed

/-! ## The messages of one process -/

theorem messages_append (pid : Pid) (l l' : List (Pid × Report)) :
    messages pid (l ++ l') = messages pid l ++ messages pid l' := by
  rw [messages, List.filter_append, List.map_append]
  rfl

theorem messages_self (pid : Pid) (l : List Report) : messages pid (l.map fun r => (pid, r)) = l := by
  induction l with
  | nil => rfl
  | cons r l ih => simpa [messages] using ih

theorem messages_of_ne {pid pid' : Pid} (h : pid ≠ pid') (l : List Report) :
    messages pid' (l.map fun r => (pid, r)) = [] := by
  simp [messages, h]

theorem messages_cons (pid pid' : Pid) (r : Report) (l : List (Pid × Report)) :
    messages pid ((pid', r) :: l) = if pid' = pid then r :: messages pid l else messages pid l := by
  rw [messages, List.filter_cons]
  by_cases h : pid' = pid
  · simp [h, messages]
  · simp [h, messages]

variable {pid : Pid}

/-- What is received is the first message of the process that matches, and the rest is as it was. -/
theorem Receive.messages {sel : Report → Bool} {r : Report} {l l' : List (Pid × Report)}
    (h : Receive pid sel r l l') :
    (∃ pre post, messages pid l = pre ++ r :: post ∧ messages pid l' = pre ++ post ∧ (∀ x ∈ pre, sel x = false) ∧
      sel r = true) ∧
    ∀ q, q ≠ pid → messages q l' = messages q l := by
  obtain ⟨hpre, hsel⟩ := h
  rename_i l₁ l₂
  refine ⟨⟨Update.messages pid l₁, Update.messages pid l₂, ?_, messages_append .., fun x hx => ?_, hsel⟩,
      fun q hq => ?_⟩
  · rw [messages_append, messages_cons, if_pos rfl]
  · obtain ⟨y, hy, rfl⟩ := List.mem_map.mp hx
    obtain ⟨hy, he⟩ := List.mem_filter.mp hy
    exact hpre y hy (of_decide_eq_true he)
  · rw [messages_append, messages_append, messages_cons, if_neg fun he => hq he.symm]

/-! ## The steps of a process -/

variable {i : List Order} {ack ref : Bool} {m : List Report} {reports : List Report} {n : Nat}

/-- What a process does on its own keeps its place, and it applies the update only if it was told to. -/
theorem At.act {st : Stage} {v v' : Local}
    {applies : Bool} (h : At st true v i m n ack ref) (hs : v.Step none v' reports applies) :
    At st true v' i (m ++ reports) n (ack || reports.any Report.acks) (ref || reports.any Report.refuses) ∧
      (applies = true → st = .told true) := by
  cases h <;> cases hs
  case asked.stay => exact ⟨.asked, fun h => absurd h Bool.false_ne_true⟩
  case pending.stay => exact ⟨.pending, fun h => absurd h Bool.false_ne_true⟩
  case pending.answer => exact ⟨.ready, fun h => absurd h Bool.false_ne_true⟩
  case ready.stay => exact ⟨.ready, fun h => absurd h Bool.false_ne_true⟩
  case refused.stay e => exact ⟨.refused e, fun h => absurd h Bool.false_ne_true⟩
  case acked.stay => exact ⟨.acked, fun h => absurd h Bool.false_ne_true⟩
  case out.stay => exact ⟨.out, fun h => absurd h Bool.false_ne_true⟩
  case told.stay b => exact ⟨.told b, fun h => absurd h Bool.false_ne_true⟩
  case going.stay b => exact ⟨.going b, fun h => absurd h Bool.false_ne_true⟩
  case going.finish b error hb => exact ⟨.result b error, fun h => by rw [hb h]⟩
  case result.stay b error => exact ⟨.result b error, fun h => absurd h Bool.false_ne_true⟩
  case going.finishPort => exact ⟨.port, fun _ => rfl⟩
  case port.stay => exact ⟨.port, fun h => absurd h Bool.false_ne_true⟩
  case finished.stay => exact ⟨.finished, fun h => absurd h Bool.false_ne_true⟩
  case after.stay => exact ⟨.after, fun h => absurd h Bool.false_ne_true⟩
  case goOn.stay r => exact ⟨.goOn r, fun h => absurd h Bool.false_ne_true⟩
  case resumed.stay => exact ⟨.resumed, fun h => absurd h Bool.false_ne_true⟩

variable {v : Local}

/-- The order that is first in line can be taken. -/
theorem At.takes {st : Stage} {order : Order}
    (h : At st true v (order :: i) m n ack ref) : v.Takes (some order) := by
  cases h <;> trivial

/-- How many more times a process was told. -/
def tells : Order → Nat
  | .updateNow _ => 1
  | _ => 0

/-- An order that is received keeps the place of a process too. -/
theorem At.order {st : Stage} {v v' : Local} {order : Order}
    {applies : Bool} (h : At st true v (order :: i) m n ack ref) (hs : v.Step (some order) v' reports applies) :
    At st true v' i (m ++ reports) (n + tells order) (ack || reports.any Report.acks)
        (ref || reports.any Report.refuses) ∧
      (applies = true → st = .told true) := by
  cases h <;> cases hs
  case asked.updateReady => exact ⟨.ready, fun h => absurd h Bool.false_ne_true⟩
  case asked.updatePending => exact ⟨.pending, fun h => absurd h Bool.false_ne_true⟩
  case asked.updateRefuse e => exact ⟨.refused e, fun h => absurd h Bool.false_ne_true⟩
  case told.nowGoing b => exact ⟨.going b, fun h => absurd h Bool.false_ne_true⟩
  case told.nowFinish b error hb => exact ⟨.result b error, fun h => by rw [hb h]⟩
  case told.nowPort => exact ⟨.port, fun _ => rfl⟩
  case goOn.goOn => exact ⟨.resumed, fun h => absurd h Bool.false_ne_true⟩

/-- A process may die wherever it is. -/
theorem At.die {st : Stage} (h : At st true v i m n ack ref) : At st false v i (m ++ [.down]) n ack ref := by
  cases h
  case asked => exact .died _ _
  case pending => exact .died _ _
  case ready => exact .readyDied _ _
  case refused e => exact .refusedDied _ _ e
  case acked => exact .ackedDied _ _
  case out => exact .outDied _ _ _
  case told b => exact .toldDied b _ _ _
  case going b => exact .toldDied b _ _ _
  case result b error => exact .resultDied b _ _ error _
  case port => exact .portDied true _ _ _
  case finished => exact .finishedDied _ _ _
  case after => exact .afterDied _ _ _
  case goOn r => exact .resumedDied _ _ _
  case resumed => exact .resumedDied _ _ _

/-! ## The steps of the monitor -/

/-- A message that was received is sent again if it is a `'DOWN'`. -/
def again : Report → List Report
  | .down => [.down]
  | _ => []

/-- The stage after the monitor received the message in `update_start_recv/3`. -/
def startStage : Report → Stage
  | .update none => .acked
  | _ => .undefined

/-- The stage after the monitor received the message in `update_now_recv/2`. -/
def nowStage : Report → Stage
  | .updateNowPort => .after
  | _ => .finished

/-- If the first message matches, it is the one received. -/
theorem first_match {sel : Report → Bool} {x r : Report} {rest pre post : List Report}
    (hm : x :: rest = pre ++ r :: post) (hx : sel x = true) (hpre : ∀ y ∈ pre, sel y = false) :
    pre = [] ∧ r = x ∧ post = rest := by
  cases pre with
  | nil =>
    obtain ⟨rfl, rfl⟩ := List.cons.inj hm
    exact ⟨rfl, rfl, rfl⟩
  | cons y pre =>
    obtain ⟨rfl, -⟩ := List.cons.inj hm
    exact absurd (hx.symm.trans (hpre x List.mem_cons_self)) Bool.false_ne_true.symm

theorem At.startRecv {alive : Bool} {m pre post : List Report} {r : Report}
    (h : At .wait alive v i m n ack ref) (hm : m = pre ++ r :: post) (hpre : ∀ x ∈ pre, startMatches x = false) :
    At (startStage r) alive v i (pre ++ post ++ again r) n ack ref := by
  have hnil : ∀ {l : List Report}, l = pre ++ r :: post → l ≠ [] := fun hl => by
    rw [hl]
    exact List.append_ne_nil_of_right_ne_nil pre (List.cons_ne_nil r post)
  cases h
  case asked => exact absurd rfl (hnil hm)
  case pending => exact absurd rfl (hnil hm)
  case ready =>
    obtain ⟨rfl, rfl, rfl⟩ := first_match hm rfl hpre
    exact .acked
  case refused e =>
    obtain ⟨rfl, rfl, rfl⟩ := first_match hm rfl hpre
    exact .out
  case died =>
    obtain ⟨rfl, rfl, rfl⟩ := first_match hm rfl hpre
    exact .outDied _ _ _
  case readyDied =>
    obtain ⟨rfl, rfl, rfl⟩ := first_match hm rfl hpre
    exact .ackedDied _ _
  case refusedDied e =>
    obtain ⟨rfl, rfl, rfl⟩ := first_match hm rfl hpre
    exact .outDied _ _ _

theorem At.nowRecv {b alive : Bool} {m pre post : List Report} {r : Report}
    (h : At (.told b) alive v i m n ack ref) (hm : m = pre ++ r :: post) (hpre : ∀ x ∈ pre, nowMatches x = false) :
    At (nowStage r) alive v i (pre ++ post ++ again r) n ack ref := by
  have hnil : ∀ {l : List Report}, l = pre ++ r :: post → l ≠ [] := fun hl => by
    rw [hl]
    exact List.append_ne_nil_of_right_ne_nil pre (List.cons_ne_nil r post)
  cases h
  case told => exact absurd rfl (hnil hm)
  case going => exact absurd rfl (hnil hm)
  case result error =>
    obtain ⟨rfl, rfl, rfl⟩ := first_match hm rfl hpre
    exact .finished
  case port =>
    obtain ⟨rfl, rfl, rfl⟩ := first_match hm rfl hpre
    exact .after
  case toldDied =>
    obtain ⟨rfl, rfl, rfl⟩ := first_match hm rfl hpre
    exact .finishedDied _ _ _
  case resultDied error =>
    obtain ⟨rfl, rfl, rfl⟩ := first_match hm rfl hpre
    exact .finishedDied _ _ _
  case portDied =>
    obtain ⟨rfl, rfl, rfl⟩ := first_match hm rfl hpre
    exact .afterDied _ _ _

/-- A process that answered is told. -/
theorem At.tell {alive : Bool}
    (h : At .acked alive v i m n ack ref) (b : Bool) : At (.told b) alive v (i ++ [.updateNow b]) m n ack ref := by
  cases h
  case acked => exact .told b
  case ackedDied => exact .toldDied b _ _ _

/-- A process that waits for its OS process goes on. -/
theorem At.goOn_of_after {alive : Bool} (h : At .after alive v i m n ack ref) (b : Bool) :
    At .resumed alive v (i ++ [.updateAfter b]) m n ack ref := by
  cases h
  case after => exact .goOn b
  case afterDied => exact .resumedDied _ _ _

/-- A list of errors has one. -/
theorem any_error {UpdateResults : List Reason} (h : UpdateResults ≠ []) :
    (UpdateResults.map Result.error).any Result.isError = true := by
  cases UpdateResults with
  | nil => exact absurd rfl h
  | cons e l => rfl

/-! ## Every step -/

theorem messages_sendDown (pid q : Pid) (r : Report) (l : List (Pid × Report)) :
    messages q (sendDown pid r l) = messages q l ++ if pid = q then again r else [] := by
  cases r with
  | down =>
    rw [sendDown, messages_append, messages_cons]
    by_cases h : pid = q
    · rw [if_pos h, if_pos h]
      rfl
    · rw [if_neg h, if_neg h]
      rfl
  | update e =>
    show messages q l = messages q l ++ if pid = q then [] else []
    rw [ite_self, List.append_nil]
  | updateNow e =>
    show messages q l = messages q l ++ if pid = q then [] else []
    rw [ite_self, List.append_nil]
  | updateNowPort =>
    show messages q l = messages q l ++ if pid = q then [] else []
    rw [ite_self, List.append_nil]

/-- A list of processes to which one is added or not. -/
theorem mem_ite_cons (pid q : Pid) (b : Bool) (l : List Pid) :
    decide (q ∈ if b then pid :: l else l) = if q = pid then decide (q ∈ l) || b else decide (q ∈ l) := by
  cases b <;> by_cases h : q = pid <;> simp [h]

/-- What a process does is seen at its place only. -/
theorem Conf.at_act {st : Stage} {pid q : Pid} {p : P} {applies : Bool} (hq : q ≠ pid → c.At view st q)
    (hpid : q = pid → Update.At st (c.alive pid) (view p) (c.inbox pid) (messages pid c.mailbox ++ reports)
      (c.told.count pid) (decide (pid ∈ c.acked) || reports.any Report.acks)
      (decide (pid ∈ c.refused) || reports.any Report.refuses)) :
    (c.act pid p reports applies).At view st q := by
  have hmail : messages q (c.act pid p reports applies).mailbox =
      messages q c.mailbox ++ messages q (reports.map fun r => (pid, r)) := messages_append ..
  have hack : decide (q ∈ (c.act pid p reports applies).acked) = _ := mem_ite_cons pid q _ c.acked
  have href : decide (q ∈ (c.act pid p reports applies).refused) = _ := mem_ite_cons pid q _ c.refused
  rw [Conf.At, hmail, hack, href]
  by_cases h : q = pid
  · rw [if_pos h, if_pos h, h, messages_self, show (c.act pid p reports applies).process pid = p from
      Function.update_self ..]
    exact hpid h
  · rw [if_neg h, if_neg h, messages_of_ne (Ne.symm h), List.append_nil,
      show (c.act pid p reports applies).process q = c.process q from Function.update_of_ne h ..]
    exact hq h

theorem applied_act {p : P} {applies : Bool}
    (h : (c.act pid p reports applies).applied ≠ []) : c.applied ≠ [] ∨ applies = true := by
  cases applies with
  | false => exact .inl h
  | true => exact .inr rfl

variable {st : Pid → Stage}

theorem Inv.act (h : Inv Good view plan st c) {p : P} {applies : Bool} (hpid : pid ∈ plan) (hgood : Good p)
    (hat : Update.At (st pid) (c.alive pid) (view p) (c.inbox pid) (messages pid c.mailbox ++ reports)
      (c.told.count pid) (decide (pid ∈ c.acked) || reports.any Report.acks)
      (decide (pid ∈ c.refused) || reports.any Report.refuses))
    (happlies : applies = true → st pid = .told true) : Inv Good view plan st (c.act pid p reports applies) where
  at_ q hq := c.at_act (fun _ => h.at_ q hq) fun he => he ▸ hat
  good q hq ha := by
    by_cases he : q = pid
    · rw [he, show (c.act pid p reports applies).process pid = p from Function.update_self ..]
      exact hgood
    · rw [show (c.act pid p reports applies).process q = c.process q from Function.update_of_ne he ..]
      exact h.good q hq ha
  phase := h.phase
  commit := h.commit
  applied ha := (applied_act ha).elim h.applied fun ht => h.commit pid hpid (happlies ht)

theorem Local.takes_none (v : Local) : v.Takes none := by
  cases v <;> trivial

theorem Inv.process (hM : Spec M Ready Good view) (h : Inv Good view plan st c) {p : P}
    {applies : Bool} (hpid : pid ∈ plan) (halive : c.alive pid = true)
    (hs : M.Step (c.process pid) none p reports applies) :
    Inv Good view plan st (c.act pid p reports applies) ∧ (applies = true → st pid = .told true) := by
  obtain ⟨hgood, hstep⟩ := hM.step (h.good pid hpid halive) (Local.takes_none _) hs
  have hat := h.at_ pid hpid
  rw [Conf.At, halive] at hat
  obtain ⟨hat', happlies⟩ := hat.act hstep
  exact ⟨h.act hpid hgood (halive ▸ hat') happlies, happlies⟩

theorem Inv.order (hM : Spec M Ready Good view) (h : Inv Good view plan st c) {p : P}
    {applies : Bool} {order : Order} {rest : List Order} (hpid : pid ∈ plan)
    (halive : c.alive pid = true) (hin : c.inbox pid = order :: rest)
    (hs : M.Step (c.process pid) (some order) p reports applies) :
    Inv Good view plan st ((c.receive pid order rest).act pid p reports applies) ∧
      (applies = true → st pid = .told true) := by
  have hat := h.at_ pid hpid
  rw [Conf.At, halive, hin] at hat
  obtain ⟨hgood, hstep⟩ := hM.step (h.good pid hpid halive) hat.takes hs
  obtain ⟨hat', happlies⟩ := hat.order hstep
  have hcount : (c.receive pid order rest).told.count pid = c.told.count pid + tells order := by
    cases order with
    | update => rfl
    | updateNow b => exact List.count_cons_self
    | updateAfter r => rfl
  have hinv : ∀ q ∈ plan, q ≠ pid → (c.receive pid order rest).At view (st q) q := by
    intro q hq he
    have hcountq : (c.receive pid order rest).told.count q = c.told.count q := by
      cases order with
      | update => rfl
      | updateNow b => exact List.count_cons_of_ne (Ne.symm he)
      | updateAfter r => rfl
    rw [Conf.At, hcountq, show (c.receive pid order rest).inbox q = c.inbox q from Function.update_of_ne he ..]
    exact h.at_ q hq
  have hself : Update.At (st pid) ((c.receive pid order rest).alive pid) (view p) ((c.receive pid order rest).inbox pid)
      (messages pid c.mailbox ++ reports) ((c.receive pid order rest).told.count pid)
      (decide (pid ∈ c.acked) || reports.any Report.acks) (decide (pid ∈ c.refused) || reports.any Report.refuses) := by
    rw [hcount, show (c.receive pid order rest).inbox pid = rest from Function.update_self ..,
      show (c.receive pid order rest).alive pid = true from halive]
    exact hat'
  refine ⟨⟨fun q hq => Conf.at_act (fun he => hinv q hq he) fun he => he ▸ hself, fun q hq ha => ?_, h.phase, h.commit,
    fun ha => (applied_act ha).elim h.applied fun ht => h.commit pid hpid (happlies ht)⟩, happlies⟩
  by_cases he : q = pid
  · rw [he, show ((c.receive pid order rest).act pid p reports applies).process pid = p from Function.update_self ..]
    exact hgood
  · rw [show ((c.receive pid order rest).act pid p reports applies).process q = c.process q from
      Function.update_of_ne he ..]
    exact h.good q hq ha

theorem Inv.die (h : Inv Good view plan st c) (halive : c.alive pid = true) :
    Inv Good view plan st (c.die pid) where
  at_ q hq := by
    have hat := h.at_ q hq
    have hmail : messages q (c.die pid).mailbox = messages q c.mailbox ++ messages q [(pid, .down)] :=
      messages_append ..
    rw [Conf.At, hmail, messages_cons]
    by_cases he : q = pid
    · rw [he] at hat ⊢
      rw [Conf.At, halive] at hat
      rw [if_pos rfl, show (c.die pid).alive pid = false from Function.update_self ..]
      exact hat.die
    · rw [if_neg (Ne.symm he), show (c.die pid).alive q = c.alive q from Function.update_of_ne he ..]
      exact (List.append_nil (messages q c.mailbox)).symm ▸ hat
  good q hq ha := by
    by_cases he : q = pid
    · rw [he, show (c.die pid).alive pid = false from Function.update_self ..] at ha
      cases ha
    · rw [show (c.die pid).alive q = c.alive q from Function.update_of_ne he ..] at ha
      exact h.good q hq ha
  phase := h.phase
  commit := h.commit
  applied := h.applied

/-- While a process is not told to update, none is. -/
theorem Inv.not_committed (h : Inv Good view plan st c) (hpid : pid ∈ plan)
    (hst : ¬ (st pid).Committed) : (∀ p ∈ plan, st p ≠ .told true) ∧ c.applied = [] := by
  refine ⟨fun p hp he => hst (h.commit p hp he pid hpid), ?_⟩
  by_contra ha
  exact hst (h.applied ha pid hpid)

/-- The stage of one process changes with the message that is received. -/
theorem Conf.at_receive {s : Stage} {sel : Report → Bool} {r : Report}
    {mailbox : List (Pid × Report)} (hr : Receive pid sel r c.mailbox mailbox) (phase : Phase Pid) {q : Pid}
    (hq : q ≠ pid → c.At view (st q) q)
    (hpid : q = pid → ∀ pre post, messages pid c.mailbox = pre ++ r :: post → (∀ x ∈ pre, sel x = false) →
      Update.At s (c.alive pid) (view (c.process pid)) (c.inbox pid) (pre ++ post ++ again r) (c.told.count pid)
        (decide (pid ∈ c.acked)) (decide (pid ∈ c.refused))) :
    Conf.At { c with phase := phase, mailbox := sendDown pid r mailbox } view (Function.update st pid s q) q := by
  obtain ⟨⟨pre, post, hm, hm', hpre, -⟩, hother⟩ := hr.messages
  rw [Conf.At, messages_sendDown]
  by_cases he : q = pid
  · rw [he, Function.update_self, if_pos rfl, hm']
    exact hpid he pre post hm hpre
  · rw [Function.update_of_ne he, if_neg (Ne.symm he), List.append_nil, hother q he]
    exact hq he

theorem Inv.startRecv (h : Inv Good view plan st c) {PidList : List Pid}
    {NewPidList : List (Option Pid)} {UpdateResults : List Reason} {r : Report} {mailbox : List (Pid × Report)}
    (hphase : c.phase = .start (pid :: PidList) NewPidList UpdateResults)
    (hr : Receive pid startMatches r c.mailbox mailbox) :
    Inv Good view plan (Function.update st pid (startStage r)) { c with
      phase := .start PidList (Update.startRecv pid r NewPidList UpdateResults).1
        (Update.startRecv pid r NewPidList UpdateResults).2
      mailbox := sendDown pid r mailbox } := by
  have hin := h.phase
  rw [hphase] at hin
  obtain ⟨hnodup, hwait, hacc, hrest⟩ := hin
  obtain ⟨hpid, hst, hnot⟩ := hwait pid List.mem_cons_self
  obtain ⟨hno, happ⟩ := h.not_committed hpid (by rw [hst]; exact fun hc => by rcases hc with hc | hc | hc | hc <;>
      cases hc)
  obtain ⟨hnotin, hnodup⟩ := List.nodup_cons.mp hnodup
  have hsome : ∀ q, q ≠ pid → ∀ l : List (Option Pid), some q ∈ some pid :: l ↔ some q ∈ l := fun q hq l => by
    rw [List.mem_cons, or_iff_right fun he => hq (Option.some.inj he)]
  have hnone : ∀ (q : Pid) (l : List (Option Pid)), some q ∈ none :: l ↔ some q ∈ l := fun q l => by
    rw [List.mem_cons, or_iff_right (Option.some_ne_none q)]
  have hstage : ∀ q, q ≠ pid → Function.update st pid (startStage r) q = st q := fun q hq => Function.update_of_ne hq ..
  have hself : Function.update st pid (startStage r) pid = startStage r := Function.update_self ..
  have hne : ∀ q ∈ PidList, q ≠ pid := fun q hq he => hnotin (he ▸ hq)
  -- the process is undefined, and the results are not empty
  have hundefined : ∀ reason, startStage r = .undefined →
      InPhase plan (Function.update st pid (startStage r))
        (.start PidList (none :: NewPidList) (reason :: UpdateResults)) := by
    intro reason hs
    refine .start hnodup (fun q hq => ?_) hacc fun q hq hq' => ?_
    · rw [hstage q (hne q hq), hnone]
      exact hwait q (List.mem_cons_of_mem _ hq)
    · rw [hnone]
      by_cases he : q = pid
      · rw [he, hself]
        exact .inr ⟨hs, hnot, List.cons_ne_nil _ _⟩
      · rw [hstage q he]
        refine (hrest q hq fun hc => ?_).imp id fun hu => ⟨hu.1, hu.2.1, List.cons_ne_nil _ _⟩
        exact (List.mem_cons.mp hc).elim he hq'
  have hacked : startStage r = .acked →
      InPhase plan (Function.update st pid (startStage r)) (.start PidList (some pid :: NewPidList) UpdateResults) := by
    intro hs
    refine .start hnodup (fun q hq => ?_) ?_ fun q hq hq' => ?_
    · rw [hstage q (hne q hq), hsome q (hne q hq)]
      exact hwait q (List.mem_cons_of_mem _ hq)
    · refine List.nodup_cons.mpr ⟨fun hc => hnot ?_, hacc⟩
      obtain ⟨x, hx, he⟩ := List.mem_filterMap.mp hc
      exact (show x = some pid from he) ▸ hx
    · by_cases he : q = pid
      · rw [he, hself]
        exact .inl ⟨hs, List.mem_cons_self⟩
      · rw [hstage q he, hsome q he]
        exact hrest q hq fun hc => (List.mem_cons.mp hc).elim he hq'
  refine ⟨fun q hq => Conf.at_receive hr _ (fun _ => h.at_ q hq) fun _ pre post hm hpre => ?_, h.good, ?_,
    fun p hp he => ?_, fun ha => absurd happ ha⟩
  · have hat := h.at_ pid hpid
    rw [hst] at hat
    exact At.startRecv hat hm hpre
  · obtain ⟨⟨-, -, -, -, -, hsel⟩, -⟩ := hr.messages
    rcases r with _ | (_ | e) | e | _
    · exact hundefined _ rfl
    · exact hacked rfl
    · exact hundefined _ rfl
    · cases hsel
    · cases hsel
  · by_cases hpp : p = pid
    · rw [hpp, hself] at he
      rcases r with _ | (_ | e) | e | _ <;> cases he
    · rw [hstage p hpp] at he
      exact absurd he (hno p hp)

/-- `update_now/3` tells those that answered. -/
theorem Inv.sendNow {st st' : Pid → Stage} (h : Inv Good view plan st c) {NewPidList : List (Option Pid)} {b : Bool}
    {Results0 : List Result} (hst : ∀ q ∈ plan, st q = .acked ∧ st' q = .told b ∧ some q ∈ NewPidList ∨
      st q = .undefined ∧ st' q = .undefined ∧ some q ∉ NewPidList ∧ Results0.any Result.isError = true)
    (hnodup : (NewPidList.filterMap id).Nodup) (hb : b = true → ∀ q ∈ plan, st' q = .told true) :
    Inv Good view plan st' (c.sendNow NewPidList.reverse b Results0) := by
  refine ⟨fun q hq => ?_, h.good, .now ?_ (fun q hq hin => ?_) fun q hq hin => ?_, fun p hp he => ?_, fun ha => ?_⟩
  · have hat := h.at_ q hq
    rcases hst q hq with ⟨hs, hs', hin⟩ | ⟨hs, hs', hin, -⟩
    · rw [hs] at hat
      rw [Conf.At, hs', show (c.sendNow NewPidList.reverse b Results0).inbox q = c.inbox q ++ [.updateNow b] from
        if_pos (List.mem_reverse.mpr hin)]
      exact hat.tell b
    · rw [Conf.At, hs', show (c.sendNow NewPidList.reverse b Results0).inbox q = c.inbox q from
        if_neg fun hc => hin (List.mem_reverse.mp hc)]
      exact hs ▸ hat
  · rw [List.filterMap_reverse]
    exact List.nodup_reverse.mpr hnodup
  · rcases hst q hq with ⟨-, hs', -⟩ | ⟨-, -, hnot, -⟩
    · exact ⟨b, hs'⟩
    · exact absurd (List.mem_reverse.mp hin) hnot
  · rcases hst q hq with ⟨-, -, hin'⟩ | ⟨-, hs', -, herror⟩
    · exact absurd (List.mem_reverse.mpr hin') hin
    · exact .inr (.inr ⟨hs', herror⟩)
  · rcases hst p hp with ⟨-, hs', -⟩ | ⟨-, hs', -, -⟩
    · rw [hs'] at he
      exact fun q hq => .inl (hb (Stage.told.inj he) q hq)
    · rw [hs'] at he
      cases he
  · intro q hq
    have hc := h.applied ha q hq
    rcases hst q hq with ⟨hs, -, -⟩ | ⟨hs, -, -, -⟩
    · rw [hs] at hc
      rcases hc with hc | hc | hc | hc <;> cases hc
    · rw [hs] at hc
      rcases hc with hc | hc | hc | hc <;> cases hc

/-- The stage that a process has after its result, and the result. -/
theorem nowStage_result {r : Report} (hr : nowMatches r = true) :
    nowStage r = .finished ∧ nowResult r ≠ .port ∨ nowStage r = .after ∧ nowResult r = .port := by
  rcases r with _ | _ | (_ | e) | _
  · exact .inl ⟨rfl, Result.noConfusion⟩
  · cases hr
  · exact .inl ⟨rfl, Result.noConfusion⟩
  · exact .inl ⟨rfl, Result.noConfusion⟩
  · exact .inr ⟨rfl, rfl⟩

theorem nowStage_committed (r : Report) : (nowStage r).Committed := by
  cases r
  case updateNowPort => exact .inr (.inr (.inl rfl))
  all_goals exact .inr (.inl rfl)

theorem Inv.nowRecv (h : Inv Good view plan st c) {PidList : List (Option Pid)}
    {Results0 UpdateResults : List Result} {r : Report} {mailbox : List (Pid × Report)}
    (hphase : c.phase = .now (some pid :: PidList) Results0 UpdateResults)
    (hr : Receive pid nowMatches r c.mailbox mailbox) :
    Inv Good view plan (Function.update st pid (nowStage r)) { c with
      phase := .now PidList Results0 (nowResult r :: UpdateResults), mailbox := sendDown pid r mailbox } := by
  have hin := h.phase
  rw [hphase] at hin
  obtain _ | ⟨hnodup, htold, hrest⟩ := hin
  have hstage : ∀ q, q ≠ pid → Function.update st pid (nowStage r) q = st q := fun q hq =>
    Function.update_of_ne hq ..
  have hself : Function.update st pid (nowStage r) pid = nowStage r := Function.update_self ..
  have hnot : some pid ∉ PidList := fun hc =>
    (List.nodup_cons.mp hnodup).1 (List.mem_filterMap.mpr ⟨some pid, hc, rfl⟩)
  have hcommitted : ∀ q, (st q).Committed → (Function.update st pid (nowStage r) q).Committed := fun q hq => by
    by_cases he : q = pid
    · rw [he, hself]
      exact nowStage_committed r
    · rwa [hstage q he]
  refine ⟨fun q hq => Conf.at_receive hr _ (fun _ => h.at_ q hq) fun he pre post hm hpre => ?_, h.good,
    .now (List.nodup_cons.mp hnodup).2 (fun q hq hq' => ?_) fun q hq hq' => ?_, fun p hp he q hq => ?_,
    fun ha q hq => hcommitted q (h.applied ha q hq)⟩
  · have hpid : pid ∈ plan := he ▸ hq
    obtain ⟨b, hst⟩ := htold pid hpid List.mem_cons_self
    have hat := h.at_ pid hpid
    rw [hst] at hat
    exact At.nowRecv hat hm hpre
  · have hqp : q ≠ pid := fun he => hnot (he ▸ hq')
    rw [hstage q hqp]
    exact htold q hq (List.mem_cons_of_mem _ hq')
  · by_cases he : q = pid
    · obtain ⟨⟨-, -, -, -, -, hsel⟩, -⟩ := hr.messages
      rw [he, hself]
      refine (nowStage_result hsel).imp (fun hs => ⟨hs.1, _, List.mem_cons_self, hs.2⟩) fun hs => .inl ⟨hs.1, ?_⟩
      exact hs.2 ▸ List.mem_cons_self
    · rw [hstage q he]
      have hq'' := hrest q hq fun hc => (List.mem_cons.mp hc).elim (fun hc => he (Option.some.inj hc)) hq'
      refine hq''.imp (fun hs => ?_) fun hs => hs.imp_left fun hs => ⟨hs.1, List.mem_cons_of_mem _ hs.2⟩
      obtain ⟨hs, x, hx, hne⟩ := hs
      exact ⟨hs, x, List.mem_cons_of_mem _ hx, hne⟩
  · by_cases hpp : p = pid
    · rw [hpp, hself] at he
      have hc := nowStage_committed r
      cases r <;> cases he
    · rw [hstage p hpp] at he
      exact hcommitted q (h.commit p hp he q hq)

/-- `update_after/5` tells the processes that have a port. -/
theorem Inv.sendAfter (h : Inv Good view plan st c) {Results : List Result} {b : Bool}
    (hst : ∀ q ∈ plan, st q = .after) :
    Inv Good view plan (fun _ => .resumed) ({ c with phase := .done Results }.sendAfter plan b) := by
  refine ⟨fun q hq => ?_, h.good, .done fun q _ => .inr (.inr (.inr rfl)), fun p _ he => (by cases he), fun _ q _ =>
    .inr (.inr (.inr rfl))⟩
  have hat := h.at_ q hq
  rw [hst q hq] at hat
  have hinbox : ({ c with phase := .done Results }.sendAfter plan b : Conf Pid P).inbox q =
      c.inbox q ++ [.updateAfter b] := if_pos hq
  rw [Conf.At, hinbox]
  exact hat.goOn_of_after b

/-- The results that a call can return: the processes' own, after those from before. -/
theorem any_isError_right {Results0 UpdateResults : List Result} (h : Results0.any Result.isError = true) :
    (UpdateResults ++ Results0).any Result.isError = true := by
  rw [List.any_append, h, Bool.or_true]

/-- What a step does to the stages and to the lists of the configuration. -/
structure Effect (plan : List Pid) (st st' : Pid → Stage) (c c' : Conf Pid P) : Prop where
  alive : ∀ pid, c'.alive pid = true → c.alive pid = true
  died : c'.diedBefore = c.diedBefore ∨
    plan ≠ [] ∧ ∃ PidList NewPidList UpdateResults, c.phase = .start PidList NewPidList UpdateResults
  applied : c'.applied ≠ [] → c.applied ≠ [] ∨ ∃ pid ∈ plan, c.alive pid = true ∧ st pid = .told true
  told : (∀ pid ∈ plan, st' pid = .told true → st pid = .told true) ∨ c'.diedBefore = c.diedBefore ∧
    ∃ NewPidList Results0, c.phase = .start [] NewPidList [] ∧ c'.phase = .now NewPidList.reverse Results0 []
  returned : ∀ Results, c.phase = .done Results → c'.phase = .done Results ∧ st' = st
  done : ∀ Results, c'.phase = .done Results → c.phase = .done Results ∧ st' = st ∨
    ∃ Results0 UpdateResults, c.phase = .now [] Results0 UpdateResults ∧
      Results = (UpdateResults ++ Results0).reverse ∧ (st' = st ∨ ∀ pid ∈ plan, st pid = .after)

theorem startStage_ne (r : Report) (b : Bool) : startStage r ≠ .told b := by
  rcases r with _ | (_ | e) | e | _ <;> exact Stage.noConfusion

theorem nowStage_ne (r : Report) (b : Bool) : nowStage r ≠ .told b := by
  cases r <;> exact Stage.noConfusion

/-- A process is told when the second phase begins only. -/
theorem told_of_update {pid q : Pid} {s : Stage} (hs : s ≠ .told true)
    (h : Function.update st pid s q = .told true) : st q = .told true := by
  by_cases he : q = pid
  · rw [he, Function.update_self] at h
    exact absurd h hs
  · rwa [Function.update_of_ne he] at h

theorem inv_step (hM : Spec M Ready Good view) (h : Inv Good view plan st c) (hs : Step M plan c c') :
    ∃ st', Inv Good view plan st' c' ∧ Effect plan st st' c c' := by
  have hin := h.phase
  cases hs with
  | process hpid halive hs =>
    obtain ⟨hinv, happlies⟩ := h.process hM hpid halive hs
    exact ⟨st, hinv, fun _ ha => ha, .inl rfl, fun ha => (applied_act ha).imp_right fun ht =>
      ⟨_, hpid, halive, happlies ht⟩, .inl fun _ _ he => he, fun _ hd => ⟨hd, rfl⟩, fun _ hd => .inl ⟨hd, rfl⟩⟩
  | order hpid halive hi hs =>
    obtain ⟨hinv, happlies⟩ := h.order hM hpid halive hi hs
    exact ⟨st, hinv, fun _ ha => ha, .inl rfl, fun ha => (applied_act ha).imp_right fun ht =>
      ⟨_, hpid, halive, happlies ht⟩, .inl fun _ _ he => he, fun _ hd => ⟨hd, rfl⟩, fun _ hd => .inl ⟨hd, rfl⟩⟩
  | @die pid hpid halive =>
    refine ⟨st, h.die halive, fun q ha => ?_, ?_, .inl, .inl fun _ _ he => he, fun _ hd => ⟨hd, rfl⟩,
      fun _ hd => .inl ⟨hd, rfl⟩⟩
    · by_cases he : q = pid
      · rw [he, show (c.die pid).alive pid = false from Function.update_self ..] at ha
        cases ha
      · rwa [show (c.die pid).alive q = c.alive q from Function.update_of_ne he ..] at ha
    · cases hphase : c.phase with
      | start PidList NewPidList UpdateResults => exact .inr ⟨List.ne_nil_of_mem hpid, _, _, _, rfl⟩
      | now PidList Results0 UpdateResults => exact .inl (by rw [Conf.die, hphase])
      | done Results => exact .inl (by rw [Conf.die, hphase])
  | startRecv hphase hr =>
    exact ⟨_, h.startRecv hphase hr, fun _ ha => ha, .inl rfl, .inl,
      .inl fun _ _ he => told_of_update (startStage_ne _ _) he,
      fun _ hd => (by cases hphase.symm.trans hd), fun _ hd => (by cases hd)⟩
  | @updateNow NewPidList before hphase =>
    rw [hphase] at hin
    obtain ⟨-, -, hacc, hrest⟩ := hin
    refine ⟨fun _ => .told true, h.sendNow (fun q hq => .inl ?_) hacc fun _ _ _ => rfl, fun _ ha => ha, .inl rfl, .inl,
      .inr ⟨rfl, _, _, hphase, rfl⟩,
      fun _ hd => (by cases hphase.symm.trans hd), fun _ hd => (by cases hd)⟩
    rcases hrest q hq List.not_mem_nil with ⟨hs, hin⟩ | ⟨-, -, hne⟩
    · exact ⟨hs, rfl, hin⟩
    · exact absurd rfl hne
  | @updateNot NewPidList UpdateResults hphase hne =>
    rw [hphase] at hin
    obtain ⟨-, -, hacc, hrest⟩ := hin
    refine ⟨fun q => if some q ∈ NewPidList then .told false else st q, h.sendNow (fun q hq => ?_) hacc fun hb =>
      absurd hb Bool.false_ne_true, fun _ ha => ha, .inl rfl, .inl, .inl fun q _ he => ?_,
      fun _ hd => (by cases hphase.symm.trans hd), fun _ hd => (by cases hd)⟩
    · rcases hrest q hq List.not_mem_nil with ⟨hs, hin⟩ | ⟨hs, hin, -⟩
      · exact .inl ⟨hs, if_pos hin, hin⟩
      · exact .inr ⟨hs, (if_neg hin).trans hs, hin, any_error hne⟩
    · split at he
      · cases he
      · exact he
  | nowSkip hphase =>
    rw [hphase] at hin
    obtain _ | ⟨hnodup, htold, hrest⟩ := hin
    refine ⟨st, ⟨h.at_, h.good, .now hnodup (fun q hq hq' => htold q hq (List.mem_cons_of_mem _ hq')) fun q hq
        hq' => ?_,
      h.commit, h.applied⟩, fun _ ha => ha, .inl rfl, .inl, .inl fun _ _ he => he,
      fun _ hd => (by cases hphase.symm.trans hd), fun _ hd => (by cases hd)⟩
    exact hrest q hq fun hc => (List.mem_cons.mp hc).elim (fun hc => Option.some_ne_none q hc) hq'
  | nowRecv hphase hr =>
    exact ⟨_, h.nowRecv hphase hr, fun _ ha => ha, .inl rfl, .inl,
      .inl fun _ _ he => told_of_update (nowStage_ne _ _) he,
      fun _ hd => (by cases hphase.symm.trans hd), fun _ hd => (by cases hd)⟩
  | failed hphase herror =>
    rw [hphase] at hin
    obtain _ | ⟨-, -, hrest⟩ := hin
    refine ⟨st, ⟨h.at_, h.good, .done fun q hq => ?_, h.commit, h.applied⟩, fun _ ha => ha, .inl rfl, .inl,
      .inl fun _ _ he => he, fun _ hd => (by cases hphase.symm.trans hd), fun _ hd =>
        .inr ⟨_, _, hphase, (Phase.done.inj hd).symm, .inl rfl⟩⟩
    rcases hrest q hq List.not_mem_nil with hs | hs | hs
    · exact .inl hs.1
    · exact .inr (.inl ⟨hs.1, List.any_reverse.trans herror⟩)
    · exact .inr (.inr (.inl hs.1))
  | done hphase hnone hport =>
    rw [hphase] at hin
    obtain _ | ⟨-, -, hrest⟩ := hin
    refine ⟨st, ⟨h.at_, h.good, .done fun q hq => ?_, h.commit, h.applied⟩, fun _ ha => ha, .inl rfl, .inl,
      .inl fun _ _ he => he, fun _ hd => (by cases hphase.symm.trans hd), fun _ hd =>
        .inr ⟨_, _, hphase, (Phase.done.inj hd).symm, .inl rfl⟩⟩
    rcases hrest q hq List.not_mem_nil with hs | hs | hs
    · exact .inl hs.1
    · exact absurd hs.2 hport
    · exact .inr (.inr (.inl hs.1))
  | after b hphase hnone hne hports =>
    rw [hphase] at hin
    obtain _ | ⟨-, -, hrest⟩ := hin
    have hafter : ∀ q ∈ plan, st q = .after := fun q hq => by
      rcases hrest q hq List.not_mem_nil with ⟨-, x, hx, hx'⟩ | hs | hs
      · exact absurd (hports x hx) hx'
      · exact hs.1
      · rw [any_isError_right hs.2] at hnone
        cases hnone
    exact ⟨_, h.sendAfter hafter, fun _ ha => ha, .inl rfl, .inl, .inl fun _ _ he => (by cases he), fun _ hd =>
      (by cases hphase.symm.trans hd), fun _ hd => .inr ⟨_, _, hphase, (Phase.done.inj hd).symm, .inr hafter⟩⟩

/-! ## Every run -/

theorem messages_dead {plan : List Pid} (hplan : plan.Nodup) (f : Pid → Bool) (hpid : pid ∈ plan) :
    messages pid ((plan.filter f).map fun p => (p, .down)) = if f pid then [.down] else [] := by
  have hfilter : ((plan.filter f).map fun p => (p, Report.down)).filter (fun x => x.1 = pid) =
      ((plan.filter f).filter fun p => p = pid).map fun p => (p, .down) := by
    rw [List.filter_map]
    rfl
  have hone : (plan.filter f).filter (fun p => p = pid) = if f pid then [pid] else [] := by
    rw [List.filter_filter]
    by_cases hf : f pid
    · have h : ∀ p, (decide (p = pid) && f p) = decide (p = pid) := fun p => by
        by_cases hp : p = pid <;> simp [hp, hf]
      simp only [h, hf, if_true]
      rw [List.filter_eq, List.count_eq_one_of_mem hplan hpid]
      rfl
    · have h : ∀ p, (decide (p = pid) && f p) = false := fun p => by
        by_cases hp : p = pid <;> simp [hp, hf]
      simp [h, hf]
  rw [messages, hfilter, hone]
  split <;> rfl

theorem Inv.init {process : Pid → P} {alive : Pid → Bool} (hplan : plan.Nodup)
    (h : ∀ pid ∈ plan, alive pid = true → Good (process pid) ∧ view (process pid) = .idle) :
    Inv Good view plan (fun _ => .wait) (Conf.init plan process alive) := by
  refine ⟨fun pid hpid => ?_, fun pid hpid ha => (h pid hpid ha).1,
      .start hplan (fun q hq => ⟨hq, rfl, List.not_mem_nil⟩)
    List.nodup_nil fun q hq hn => absurd hq hn, fun p _ he => (by cases he), fun ha => absurd rfl ha⟩
  have hmail : messages pid (Conf.init plan process alive).mailbox = if alive pid then [] else [.down] := by
    rw [Conf.init, messages_dead hplan _ hpid]
    cases alive pid <;> rfl
  rw [Conf.At, hmail]
  cases ha : alive pid with
  | true =>
    rw [show view ((Conf.init plan process alive).process pid) = .idle from (h pid hpid ha).2,
      show (Conf.init plan process alive).inbox pid = [.update] from if_pos ha,
      show (Conf.init plan process alive).alive pid = true from ha]
    exact .asked
  | false =>
    rw [show (Conf.init plan process alive).alive pid = false from ha]
    exact .died _ _

theorem Reachable.inv (hM : Spec M Ready Good view) (h : Reachable M Ready plan c) :
    ∃ st, Inv Good view plan st c := by
  induction h with
  | init process alive hplan h => exact ⟨_, .init hplan fun pid hpid ha => hM.ready (h pid hpid ha)⟩
  | step _ hs ih =>
    obtain ⟨st, h⟩ := ih
    obtain ⟨st', h', -⟩ := inv_step hM h hs
    exact ⟨st', h'⟩

/-! ## Runs in which each step meets the condition -/

/-- The condition on a step of the monitor: when it starts the second phase for an update, no process died since the
first began, or none is left; and when the call returns, no process that lives has refused, or waits for a new OS
process. -/
structure Conf.Meets (Waits : P → Prop) (plan : List Pid) (c c' : Conf Pid P) : Prop where
  start : ∀ NewPidList Results0, c.phase = .start [] NewPidList [] → c'.phase = .now NewPidList.reverse Results0 [] →
    c.diedBefore = [] ∨ ∀ pid ∈ plan, c.alive pid = false
  return_ : ∀ Results0 UpdateResults, c.phase = .now [] Results0 UpdateResults →
    c'.phase = .done (UpdateResults ++ Results0).reverse →
    ∀ pid ∈ plan, c.alive pid = true → pid ∉ c.refused ∧ ¬ Waits (c.process pid)

/-- The states of the runs in which each step meets the condition. -/
inductive Met (M : Machine P) (Ready Waits : P → Prop) (plan : List Pid) : Conf Pid P → Prop
  | init (process : Pid → P) (alive : Pid → Bool) : plan.Nodup →
      (∀ pid ∈ plan, alive pid = true → Ready (process pid)) → Met M Ready Waits plan (Conf.init plan process alive)
  | step {c c' : Conf Pid P} : Met M Ready Waits plan c → Step M plan c c' → c.Meets Waits plan c' →
      Met M Ready Waits plan c'

variable {Waits : P → Prop}

theorem Met.reachable (h : Met M Ready Waits plan c) : Reachable M Ready plan c := by
  induction h with
  | init process alive hplan h => exact .init process alive hplan h
  | step _ hs _ ih => exact ih.step hs

/-- If a process died before the second phase, none applied the update, and none that lives will; and when the call
returned, those that live are done. -/
structure MetInv (plan : List Pid) (st : Pid → Stage) (c : Conf Pid P) : Prop where
  died : c.diedBefore ≠ [] →
    c.applied = [] ∧ ((∀ pid ∈ plan, c.alive pid = false) ∨ ∀ pid ∈ plan, st pid ≠ .told true)
  done : ∀ Results, c.phase = .done Results → ∀ pid ∈ plan, c.alive pid = true → st pid = .finished

/-- In the first phase no process is told yet. -/
theorem Inv.first (h : Inv Good view plan st c) {PidList : List Pid} {NewPidList : List (Option Pid)}
    {UpdateResults : List Reason} (hphase : c.phase = .start PidList NewPidList UpdateResults)
    (hpid : pid ∈ plan) : ¬ (st pid).Committed := by
  have hin := h.phase
  rw [hphase] at hin
  obtain ⟨-, hwait, -, hrest⟩ := hin
  have hst : st pid = .wait ∨ st pid = .acked ∨ st pid = .undefined := by
    by_cases hin : pid ∈ PidList
    · exact .inl (hwait pid hin).2.1
    · exact .inr ((hrest pid hpid hin).imp And.left And.left)
  rintro (hc | hc | hc | hc) <;> rw [hc] at hst <;> rcases hst with hs | hs | hs <;> cases hs

theorem MetInv.died_step {st st' : Pid → Stage} (h : Inv Good view plan st c) (hmet : MetInv plan st c)
    (heffect : Effect plan st st' c c') (hc : c.Meets Waits plan c') (hdied : c'.diedBefore ≠ []) :
    c'.applied = [] ∧ ((∀ pid ∈ plan, c'.alive pid = false) ∨ ∀ pid ∈ plan, st' pid ≠ .told true) := by
  -- what was so before the step, whether or not a process died in it
  have hbefore : c.applied = [] ∧ ((∀ pid ∈ plan, c.alive pid = false) ∨ ∀ pid ∈ plan, st pid ≠ .told true) := by
    rcases heffect.died with hd | ⟨hplan, _, _, _, hphase⟩
    · exact hmet.died (hd ▸ hdied)
    · obtain ⟨pid, hpid⟩ := List.exists_mem_of_ne_nil plan hplan
      exact ⟨(h.not_committed hpid (h.first hphase hpid)).2, .inr (h.not_committed hpid (h.first hphase hpid)).1⟩
  have hdead : (∀ pid ∈ plan, c.alive pid = false) → ∀ pid ∈ plan, c'.alive pid = false := fun hd pid hpid =>
    Bool.eq_false_iff.mpr fun ha => Bool.eq_false_iff.mp (hd pid hpid) (heffect.alive pid ha)
  obtain ⟨happ, hnone⟩ := hbefore
  refine ⟨?_, ?_⟩
  · by_contra ha
    rcases heffect.applied ha with ha | ⟨pid, hpid, halive, hst⟩
    · exact ha happ
    · rcases hnone with hd | hnot
      · exact Bool.eq_false_iff.mp (hd pid hpid) halive
      · exact hnot pid hpid hst
  · rcases heffect.told with htold | ⟨hd, N, R, hphase, hphase'⟩
    · exact hnone.imp hdead fun hnot pid hpid he => hnot pid hpid (htold pid hpid he)
    · rcases hc.start N R hphase hphase' with hnil | hd
      · exact absurd (‹c'.diedBefore = c.diedBefore›.trans hnil) hdied
      · exact .inl (hdead hd)

/-- A process that lives at the end of the second phase is done, or it has a port, or it refused. -/
theorem At.of_last {st : Stage}
    (h : At st true v i m n ack ref) (hst : st = .finished ∨ st = .after ∨ st = .undefined) :
    st = .finished ∨ st = .after ∧ v = .after ∨ ref = true := by
  rcases hst with rfl | rfl | rfl
  · exact .inl rfl
  · cases h
    exact .inr (.inl ⟨rfl, rfl⟩)
  · cases h
    exact .inr (.inr rfl)

theorem MetInv.done_step {st st' : Pid → Stage} (hW : ∀ p, view p = .after → Waits p) (h : Inv Good view plan st c)
    (hmet : MetInv plan st c) (heffect : Effect plan st st' c c') (hc : c.Meets Waits plan c') {Results : List Result}
    (hdone : c'.phase = .done Results) (hpid : pid ∈ plan) (halive : c'.alive pid = true) :
    st' pid = .finished := by
  have halive := heffect.alive pid halive
  rcases heffect.done Results hdone with ⟨hphase, rfl⟩ | ⟨Results0, UpdateResults, hphase, rfl, hst⟩
  · exact hmet.done Results hphase pid hpid halive
  · obtain ⟨href, hwaits⟩ := hc.return_ Results0 UpdateResults hphase hdone pid hpid halive
    have hin := h.phase
    rw [hphase] at hin
    obtain _ | ⟨-, -, hrest⟩ := hin
    have hat := h.at_ pid hpid
    rw [Conf.At, halive] at hat
    have hfinished : st pid = .finished := by
      rcases hat.of_last ((hrest pid hpid List.not_mem_nil).imp And.left (Or.imp And.left And.left)) with
        hs | ⟨-, hv⟩ | hr
      · exact hs
      · exact absurd (hW _ hv) hwaits
      · exact absurd (of_decide_eq_true hr) href
    rcases hst with rfl | hall
    · exact hfinished
    · cases hfinished.symm.trans (hall pid hpid)

theorem Met.inv (hM : Spec M Ready Good view) (hW : ∀ p, view p = .after → Waits p) (h : Met M Ready Waits plan c) :
    ∃ st, Inv Good view plan st c ∧ MetInv plan st c := by
  induction h with
  | init process alive hplan h =>
    exact ⟨_, .init hplan fun pid hpid ha => hM.ready (h pid hpid ha), fun _ =>
        ⟨rfl, .inr fun _ _ => Stage.noConfusion⟩,
      fun _ hd => (by cases hd)⟩
  | step _ hs hc ih =>
    obtain ⟨st, h, hmet⟩ := ih
    obtain ⟨st', h', heffect⟩ := inv_step hM h hs
    exact ⟨st', h', hmet.died_step h heffect hc, fun _ hd _ hpid ha => hmet.done_step hW h heffect hc hd hpid ha⟩

/-! ## What the phases are for -/

/-- A process that was told to update, or that the monitor is done with, answered and did not refuse. -/
theorem At.of_committed {st : Stage} {alive : Bool}
    (h : At st alive v i m n ack ref) (hst : st.Committed) : ack = true ∧ ref = false := by
  rcases hst with rfl | rfl | rfl | rfl <;> cases h <;> exact ⟨rfl, rfl⟩

/-- A process that answered and was not told yet waits. -/
theorem At.of_ready {st : Stage} {ref : Bool} (h : At st true v i m 0 true ref) : v = .ready := by
  cases h <;> rfl

/-- When the call returned with `Results`, a process that lives has no plan, or it waits for its OS process: then
there was an error, or it is told to go on. -/
theorem At.of_done {st : Stage} {error : Prop} (h : At st true v i m n ack ref)
    (hst : st = .finished ∨ st = .after ∧ error ∨ st = .undefined ∨ st = .resumed) :
    (n = if ref then 0 else 1) ∧ (v = .idle ∨ v = .after ∧ (error ∨ ∃ b, i = [.updateAfter b])) := by
  rcases hst with rfl | ⟨rfl, he⟩ | rfl | rfl
  · cases h
    exact ⟨rfl, .inl rfl⟩
  · cases h
    exact ⟨rfl, .inr ⟨rfl, .inl he⟩⟩
  · cases h
    exact ⟨rfl, .inl rfl⟩
  · cases h
    case goOn b => exact ⟨rfl, .inr ⟨rfl, .inr ⟨b, rfl⟩⟩⟩
    case resumed => exact ⟨rfl, .inl rfl⟩

theorem At.of_finished (h : At .finished true v i m n ack ref) : v = .idle ∧ n = 1 := by
  cases h
  exact ⟨rfl, rfl⟩

theorem At.of_after (h : At .after true v i m n ack ref) : v = .after := by
  cases h
  rfl

theorem At.waits {st : Stage} {error : Prop} (h : At st true .after [] m n ack ref)
    (hst : st = .finished ∨ st = .after ∧ error ∨ st = .undefined ∨ st = .resumed) : st = .after := by
  rcases hst with rfl | ⟨rfl, -⟩ | rfl | rfl
  · cases h
  · rfl
  · cases h
  · cases h

/-- No process applies the update before all answered and none refused. -/
theorem applied_acked (hM : Spec M Ready Good view) (h : Reachable M Ready plan c) (ha : c.applied ≠ []) :
    ∀ pid ∈ plan, pid ∈ c.acked ∧ pid ∉ c.refused := by
  obtain ⟨st, hinv⟩ := h.inv hM
  intro pid hpid
  obtain ⟨hack, href⟩ := (hinv.at_ pid hpid).of_committed (hinv.applied ha pid hpid)
  exact ⟨of_decide_eq_true hack, of_decide_eq_false href⟩

/-- A process that answered and that was not told yet waits. -/
theorem acked_ready (hM : Spec M Ready Good view) (h : Reachable M Ready plan c) (hpid : pid ∈ plan)
    (halive : c.alive pid = true) (hack : pid ∈ c.acked) (htold : c.told.count pid = 0) :
    Good (c.process pid) ∧ view (c.process pid) = .ready := by
  obtain ⟨st, hinv⟩ := h.inv hM
  have hat := hinv.at_ pid hpid
  rw [Conf.At, halive, htold, decide_eq_true hack] at hat
  exact ⟨hinv.good pid hpid halive, hat.of_ready⟩

/-- When the call returned, a process that lives was told once, or never if it refused, and it has no plan, or it waits
for its OS process. -/
theorem done_told (hM : Spec M Ready Good view) (h : Reachable M Ready plan c) {Results : List Result}
    (hdone : c.phase = .done Results) (hpid : pid ∈ plan) (halive : c.alive pid = true) :
    (c.told.count pid = if pid ∈ c.refused then 0 else 1) ∧ (view (c.process pid) = .idle ∨
      view (c.process pid) = .after ∧ (Results.any Result.isError = true ∨ ∃ b, c.inbox pid = [.updateAfter b])) := by
  obtain ⟨st, hinv⟩ := h.inv hM
  have hat := hinv.at_ pid hpid
  have hphase := hinv.phase
  rw [hdone] at hphase
  obtain _ | _ | ⟨hst⟩ := hphase
  rw [Conf.At, halive] at hat
  obtain ⟨htold, hview⟩ := hat.of_done (hst pid hpid)
  refine ⟨htold.trans ?_, hview⟩
  by_cases href : pid ∈ c.refused <;> simp [href]

/-- A process that waits after the call returned, and that is not told to go on, waits for ever. -/
theorem after_for_ever (hM : Spec M Ready Good view) (h : Reachable M Ready plan c) {Results : List Result}
    (hdone : c.phase = .done Results) (hpid : pid ∈ plan) (halive : c.alive pid = true)
    (hview : view (c.process pid) = .after) (hinbox : c.inbox pid = [])
    (hrun : Relation.ReflTransGen (Step M plan) c c')
    (halive' : c'.alive pid = true) : view (c'.process pid) = .after := by
  obtain ⟨st, hinv⟩ := h.inv hM
  have hat := hinv.at_ pid hpid
  have hphase := hinv.phase
  rw [hdone] at hphase
  obtain _ | _ | ⟨hst⟩ := hphase
  rw [Conf.At, halive, hview, hinbox] at hat
  have hafter : ∃ st, Inv Good view plan st c' ∧ c'.phase = .done Results ∧ st pid = .after := by
    clear halive'
    induction hrun with
    | refl => exact ⟨st, hinv, hdone, hat.waits (hst pid hpid)⟩
    | tail _ hs ih =>
      obtain ⟨st₁, h₁, hd₁, hst₁⟩ := ih
      obtain ⟨st₂, h₂, heffect⟩ := inv_step hM h₁ hs
      obtain ⟨hd₂, rfl⟩ := heffect.returned Results hd₁
      exact ⟨st₂, h₂, hd₂, hst₁⟩
  obtain ⟨st', hinv', -, hst'⟩ := hafter
  have hat' := hinv'.at_ pid hpid
  rw [Conf.At, halive', hst'] at hat'
  exact hat'.of_after

/-- If each step meets the condition and a process died before the second phase, none applies the update. -/
theorem Met.applied (hM : Spec M Ready Good view) (hW : ∀ p, view p = .after → Waits p) (h : Met M Ready Waits plan c)
    (hdied : c.diedBefore ≠ []) : c.applied = [] := by
  obtain ⟨st, -, hmet⟩ := h.inv hM hW
  exact (hmet.died hdied).1

/-- If each step meets the condition and the call returned, each process that lives was told once, and has no plan. -/
theorem Met.done_told (hM : Spec M Ready Good view) (hW : ∀ p, view p = .after → Waits p)
    (h : Met M Ready Waits plan c) {Results : List Result} (hdone : c.phase = .done Results)
    (hpid : pid ∈ plan) (halive : c.alive pid = true) : view (c.process pid) = .idle ∧ c.told.count pid = 1 := by
  obtain ⟨st, hinv, hmet⟩ := h.inv hM hW
  have hat := hinv.at_ pid hpid
  rw [Conf.At, halive, hmet.done Results hdone pid hpid halive] at hat
  exact hat.of_finished

end CloudI.Monitor.Update
