import CloudI.Monitor.Processes

/-!
# An update of service processes

`service_spec`: the service processes answer the monitor once, when they
handle no request, and apply the update only when told to. `update_phases` is
what follows for every update.
-/

namespace CloudI.Monitor.Update

open CloudI.Services

set_option linter.unusedSectionVars false

variable {TransId Pid Term Rate S : Type} [DecidableEq TransId] [DecidableEq Pid]
  {rt : Services.Runtime TransId Pid Term Rate} {monitor : Pid}

/-! ## Plans -/

/-- A plan is only known to the monitor, and a process that answered handles no
request if the plan is `sync`. -/
structure PlanGood (monitor : Pid) (p : UpdatePlan Pid Rate S) : Prop where
  pending : p.updatePending = none ∨ p.updatePending = some monitor ∧ p.updateNow = none
  now : p.updateNow = none ∨ p.updateNow = some monitor
  answered : p.sync = true → p.updatePending = none → p.queueRequests = false

/-- An update that goes on is of the monitor, and it was answered. -/
theorem PlanGood.going {p : UpdatePlan Pid Rate S} (h : PlanGood monitor p) (hnow : p.updateNow.isSome = true) :
    p.updateNow = some monitor ∧ p.updatePending = none := by
  refine ⟨h.now.resolve_left fun hn => ?_, h.pending.resolve_right fun hp => ?_⟩
  · rw [hn] at hnow
    cases hnow
  · rw [hp.2] at hnow
    cases hnow

theorem PlanGood.planReady {p : UpdatePlan Pid Rate S} (h : PlanGood monitor p) (hpending : p.updatePending = none) :
    PlanGood monitor (@Services.planReady TransId _ _ _ p).1 := by
  rw [Services.planReady, hpending]
  exact ⟨.inl rfl, h.now, fun _ _ => rfl⟩

/-- A process that is ready has answered. -/
theorem answered_of_ready {p : UpdatePlan Pid Rate S} (h : optView (some p) = .ready) : p.updatePending = none := by
  rw [optView, Option.elim_some, planView] at h
  split at h
  · cases h
  · split at h
    · cases h
    · rename_i hnot
      exact Option.not_isSome_iff_eq_none.mp hnot

/-- What is done to the plan, and what is sent and applied, is what the monitor expects. -/
def Does (monitor : Pid) (o o' : Option (UpdatePlan Pid Rate S)) (order : Option Order)
    (sent sent' : List (Pid × Message TransId)) (applies : Bool) : Prop :=
  (optView o).Step order (optView o') (reports monitor sent sent') applies ∧ ∀ p, o' = some p → PlanGood monitor p

theorem reports_append (sent l : List (Pid × Message TransId)) :
    reports monitor sent (sent ++ l) = l.filterMap (report monitor) := by
  rw [reports, List.drop_left]

theorem reports_refusal (o : Options Rate) (T : Request TransId Pid Term) :
    (refusal o T).filterMap (report monitor) = [] := by
  rw [refusal]
  split <;> rfl

/-- Nothing that the monitor can see is done. -/
theorem Does.stay {o : Option (UpdatePlan Pid Rate S)} (h : ∀ p, o = some p → PlanGood monitor p)
    {sent l : List (Pid × Message TransId)} (hl : l.filterMap (report monitor) = []) :
    Does monitor o o none sent (sent ++ l) false := by
  refine ⟨?_, h⟩
  rw [reports_append, hl]
  exact .stay _

theorem planUpdate_does (p : UpdatePlan Pid Rate S) (b : Bool) (sent : List (Pid × Message TransId)) :
    Does monitor none (some (planUpdate monitor (newPlan p) b : _ × List (Pid × Message TransId)).1) (some .update) sent
      (sent ++ (planUpdate monitor (newPlan p) b).2) false := by
  rw [Does, reports_append, planUpdate]
  split
  · rename_i hsync
    refine ⟨.updatePending, fun q hq => ?_⟩
    rw [← Option.some.inj hq]
    exact ⟨.inr ⟨rfl, rfl⟩, .inl rfl, fun _ hp => absurd hp (Option.some_ne_none monitor)⟩
  · rename_i hsync
    have hreport : [((monitor, .update none) : Pid × Message TransId)].filterMap (report monitor) = [.update none] := by
      simp [report]
    rw [hreport]
    refine ⟨.updateReady, fun q hq => ?_⟩
    rw [← Option.some.inj hq]
    refine ⟨.inl rfl, .inl rfl, fun hs _ => ?_⟩
    exact Bool.eq_false_iff.mpr fun hb => hsync ⟨hs, hb⟩

theorem planReady_does {p : UpdatePlan Pid Rate S} (hp : PlanGood monitor p) (hnow : p.updateNow = none)
    (sent : List (Pid × Message TransId)) :
    Does monitor (some p) (some (planReady p : _ × List (Pid × Message TransId)).1) none sent
      (sent ++ (planReady p).2) false := by
  have hview : planView p = if p.updatePending.isSome then .pending else .ready := by
    rw [planView, hnow]
    rfl
  rw [Does, reports_append, planReady]
  split
  · rename_i P hpending
    rcases hp.pending with hnone | ⟨hsome, -⟩
    · rw [hnone] at hpending
      cases hpending
    · obtain rfl : monitor = P := Option.some.inj (hsome.symm.trans hpending)
      have hreport : [((monitor, .update none) : Pid × Message TransId)].filterMap (report monitor) =
          [.update none] := by
        simp [report]
      rw [hreport, show optView (some p) = .pending by
        rw [optView, Option.elim_some, hview, hpending]
        rfl]
      refine ⟨?_, fun q hq => ?_⟩
      · have hready : optView (some { p with updatePending := none, queueRequests := false }) = .ready := by
          rw [optView, Option.elim_some, planView, show ({ p with updatePending := none, queueRequests := false } :
            UpdatePlan Pid Rate S).updateNow = none from hnow]
          rfl
        rw [hready]
        exact .answer
      · rw [← Option.some.inj hq]
        exact ⟨.inl rfl, .inl hnow, fun _ _ => rfl⟩
  · rename_i hpending
    refine ⟨.stay _, fun q hq => ?_⟩
    rw [← Option.some.inj hq]
    exact ⟨.inl hpending, .inl hnow, fun _ _ => rfl⟩

/-- A process that was told to update, or not to, has no plan any more. -/
theorem Does.finish {o : Option (UpdatePlan Pid Rate S)} {order : Option Order} {b applies : Bool}
    (ho : order = none ∧ optView o = .going b ∨ order = some (.updateNow b) ∧ optView o = .ready)
    (happlies : applies = true → b = true) (sent : List (Pid × Message TransId)) (error : Option UpdateError) :
    Does monitor o none order sent (sent ++ [(monitor, .updateNow error)]) applies := by
  have hreport : [((monitor, .updateNow error) : Pid × Message TransId)].filterMap (report monitor) =
      [.updateNow error] := by
    simp [report]
  refine ⟨?_, fun p hp => absurd hp (Option.some_ne_none p).symm⟩
  rw [reports_append, hreport]
  rcases ho with ⟨rfl, ho⟩ | ⟨rfl, ho⟩
  · rw [ho]
    exact .finish _ _ _ happlies
  · rw [ho]
    exact .nowFinish _ _ _ happlies

/-! ## Internal services -/

section Internal

open Internal

variable {mode : Mode} {out : Outside Term S} {σ σ' σ₁ : Internal.System TransId Pid Term Rate S}

/-- The plan of the process. -/
def internalPlanOf (σ : Internal.System TransId Pid Term Rate S) : Option (UpdatePlan Pid Rate S) :=
  σ.state.updatePlan.map Plan.toUpdatePlan

/-- Nothing that the monitor can see is changed. -/
structure Frame (σ σ' : Internal.System TransId Pid Term Rate S) : Prop where
  plan : σ'.state.updatePlan = σ.state.updatePlan
  sent : σ'.sent = σ.sent
  updates : σ'.workers.updates = σ.workers.updates

theorem Frame.trans (h : Frame σ σ₁) (h' : Frame σ₁ σ') : Frame σ σ' :=
  ⟨h'.plan.trans h.plan, h'.sent.trans h.sent, h'.updates.trans h.updates⟩

theorem loopPid_updates (pid Uses : Option Nat) (c : Callback TransId Pid Term) (s : S)
    (W : Workers TransId Pid Term S) : (W.loopPid pid Uses c s).2.updates = W.updates := by
  cases pid with
  | none => rfl
  | some p =>
    rw [Workers.loopPid]
    split <;> rfl

theorem duoProcessQueueInfo_frame {l : List Term} (hr : duoProcessQueueInfo out l σ = .ok σ') : Frame σ σ' := by
  induction l generalizing σ with
  | nil =>
    rw [← Except.ok.inj hr]
    exact ⟨rfl, rfl, rfl⟩
  | cons Request l ih =>
    rw [duoProcessQueueInfo] at hr
    split at hr
    · have h := ih hr
      exact ⟨h.plan, h.sent, h.updates⟩
    · cases hr

theorem processInfos_frame (hr : processInfos mode out σ = .ok σ') : Frame σ σ' := by
  unfold processInfos at hr
  split at hr
  · rw [processQueueInfo] at hr
    split at hr
    · split at hr
      · rw [← Except.ok.inj hr]
        exact ⟨rfl, rfl, rfl⟩
      · rw [← Except.ok.inj hr]
        exact ⟨rfl, rfl, loopPid_updates ..⟩
    · cases hr
  · split at hr
    · exact duoProcessQueueInfo_frame hr
    · cases hr

theorem processQueue_frame (hr : Internal.processQueue σ = .ok σ') : Frame σ σ' := by
  rw [Internal.processQueue] at hr
  split at hr
  · split at hr
    · rw [← Except.ok.inj hr]
      exact ⟨rfl, rfl, rfl⟩
    · obtain ⟨⟨Timeout, s', t'⟩, -, hr⟩ := bind_eq_ok hr
      rw [← Except.ok.inj hr]
      exact ⟨rfl, rfl, loopPid_updates ..⟩
  · cases hr

theorem processQueuesNoPlan_frame (hr : processQueuesNoPlan mode out σ = .ok σ') : Frame σ σ' := by
  obtain ⟨σ₁, h₁, hr⟩ := bind_eq_ok hr
  have hinfo : Frame σ σ₁ := processInfos_frame h₁
  simp only at hr
  split at hr
  · rw [← Except.ok.inj hr]
    exact hinfo
  · have h := processQueue_frame hr
    exact hinfo.trans ⟨h.plan, h.sent, h.updates⟩

/-- An update that is applied was told to start. -/
theorem update_updates (p : Plan Pid Rate S) (σ : Internal.System TransId Pid Term Rate S) :
    (Internal.update rt mode p σ).2.sent = σ.sent ∧
      (σ.workers.updates.length < (Internal.update rt mode p σ).2.workers.updates.length → p.updateStart = true) := by
  rw [Internal.update]
  split
  · exact ⟨rfl, fun h => absurd h (Nat.lt_irrefl _)⟩
  · split
    · exact ⟨rfl, fun h => absurd h (Nat.lt_irrefl _)⟩
    · rename_i hstart
      have hstart : p.updateStart = true := not_not.mp hstart
      split
      · exact ⟨rfl, fun _ => hstart⟩
      · split
        · exact ⟨rfl, fun _ => hstart⟩
        · exact ⟨rfl, fun _ => hstart⟩

theorem processUpdate_spec {p : Plan Pid Rate S} (hr : Internal.processUpdate rt mode out p σ = .ok σ') :
    ∃ UpdateNow error, p.updateNow = some UpdateNow ∧ σ'.sent = σ.sent ++ [(UpdateNow, .updateNow error)] ∧
      σ'.state.updatePlan = none ∧ (σ.workers.updates.length < σ'.workers.updates.length → p.updateStart = true) := by
  rw [Internal.processUpdate] at hr
  split at hr
  · cases hr
  · rename_i UpdateNow hnow
    split at hr
    · cases hr
    · have hupdate : (Internal.update rt mode p σ).2.sent = _ ∧ (_ → _) := update_updates p σ
      obtain ⟨hsent, hupdates⟩ := hupdate
      have hframe := processQueuesNoPlan_frame hr
      refine ⟨UpdateNow, _, hnow, hframe.sent.trans (congrArg (fun l => l ++ _) hsent), hframe.plan, fun h => ?_⟩
      rw [hframe.updates] at h
      exact hupdates h

/-- What the monitor can see of a step of an internal service. -/
def InternalDoes (monitor : Pid) (order : Option Order) (σ σ' : Internal.System TransId Pid Term Rate S) : Prop :=
  Does monitor (internalPlanOf σ) (internalPlanOf σ') order σ.sent σ'.sent
    (decide (σ.workers.updates.length < σ'.workers.updates.length))

/-- A step that leaves the plan, that sends no report, and that updates nothing. -/
theorem InternalDoes.stay (hp : ∀ p, internalPlanOf σ = some p → PlanGood monitor p)
    (hplan : σ'.state.updatePlan = σ.state.updatePlan) {l : List (Pid × Message TransId)}
    (hsent : σ'.sent = σ.sent ++ l) (hl : l.filterMap (report monitor) = [])
    (hupdates : σ'.workers.updates = σ.workers.updates) : InternalDoes monitor none σ σ' := by
  rw [InternalDoes, hsent, hupdates, decide_eq_false (Nat.lt_irrefl _), internalPlanOf, internalPlanOf, hplan]
  exact .stay hp hl

theorem Frame.does (h : Frame σ σ') (hp : ∀ p, internalPlanOf σ = some p → PlanGood monitor p) :
    InternalDoes monitor none σ σ' :=
  .stay hp h.plan (h.sent.trans (List.append_nil _).symm) rfl h.updates

/-- The result of an update is sent once the plan is done with. -/
theorem processUpdate_does {p : Plan Pid Rate S} {order : Option Order} (hnow : p.updateNow = some monitor)
    (hsent : σ₁.sent = σ.sent) (hupdates : σ₁.workers.updates = σ.workers.updates)
    (ho : order = none ∧ optView (internalPlanOf σ) = .going p.updateStart ∨
      order = some (.updateNow p.updateStart) ∧ optView (internalPlanOf σ) = .ready)
    (hr : Internal.processUpdate rt mode out p σ₁ = .ok σ') : InternalDoes monitor order σ σ' := by
  obtain ⟨P, error, hP, hsent', hplan, happlies⟩ := processUpdate_spec hr
  obtain rfl : monitor = P := Option.some.inj (hnow.symm.trans hP)
  rw [InternalDoes, hsent', hsent, show internalPlanOf σ' = none by rw [internalPlanOf, hplan]; rfl]
  exact .finish ho (fun h => happlies (hupdates ▸ of_decide_eq_true h)) _ _

theorem processQueues_does (hsent : σ₁.sent = σ.sent) (hupdates : σ₁.workers.updates = σ.workers.updates)
    (hplan : σ₁.state.updatePlan = σ.state.updatePlan) (hp : ∀ p, internalPlanOf σ = some p → PlanGood monitor p)
    (hr : Internal.processQueues rt mode out σ₁ = .ok σ') : InternalDoes monitor none σ σ' := by
  rw [Internal.processQueues] at hr
  split at hr
  · rename_i p hsome
    have hσ : internalPlanOf σ = some p.toUpdatePlan := by
      rw [internalPlanOf, ← hplan, hsome]
      rfl
    have hgood : PlanGood monitor p.toUpdatePlan := hp _ hσ
    simp only at hr
    split at hr
    · -- the update goes on, and it was answered before
      rename_i hnow
      obtain ⟨hmonitor, hpending⟩ := hgood.going hnow
      have hanswer : (@planReady TransId _ _ _ p.toUpdatePlan).2 = [] := by rw [planReady, hpending]
      have hstart : (@planReady TransId _ _ _ p.toUpdatePlan).1.updateStart = p.updateStart := by
        rw [planReady, hpending]
      refine processUpdate_does ?_ ?_ ?_ (.inl ⟨rfl, ?_⟩) hr
      · exact (planReady_updateNow p.toUpdatePlan).trans hmonitor
      · show σ₁.sent ++ (planReady p.toUpdatePlan).2 = σ.sent
        rw [hanswer, List.append_nil, hsent]
      · exact hupdates
      · rw [hσ, optView, Option.elim_some, planView, if_pos hnow, hstart]
    · rename_i hnow
      have hnone : p.updateNow = none := Option.not_isSome_iff_eq_none.mp hnow
      rw [← Except.ok.inj hr]
      show Does monitor (internalPlanOf σ) (some (planReady p.toUpdatePlan).1) none σ.sent
        (σ₁.sent ++ (planReady p.toUpdatePlan).2)
        (decide (σ.workers.updates.length < σ₁.workers.updates.length))
      rw [hσ, hsent, hupdates, decide_eq_false (Nat.lt_irrefl _)]
      exact planReady_does hgood hnone σ.sent
  · have h := processQueuesNoPlan_frame hr
    exact Frame.does ⟨h.plan.trans hplan, h.sent.trans hsent, h.updates.trans hupdates⟩ hp

theorem handleInfoMessage_frame {Request : Term} (hr : handleInfoMessage mode out Request σ = .ok σ') :
    Frame σ σ' := by
  simp only [handleInfoMessage] at hr
  split at hr
  · rw [← Except.ok.inj hr]
    exact ⟨rfl, rfl, rfl⟩
  · split at hr
    · rw [← Except.ok.inj hr]
      exact ⟨rfl, rfl, loopPid_updates ..⟩
    · split at hr
      · rw [← Except.ok.inj hr]
        exact ⟨rfl, rfl, rfl⟩
      · cases hr

theorem sendRequest_does {T : Request TransId Pid Term} (hp : ∀ p, internalPlanOf σ = some p → PlanGood monitor p)
    (hr : Internal.sendRequest rt T σ = .ok σ') : InternalDoes monitor none σ σ' := by
  have hrefuse : ∀ o, InternalDoes monitor none σ (Internal.refuse o T σ) := fun o =>
    .stay hp rfl rfl (reports_refusal ..) rfl
  rw [Internal.sendRequest] at hr
  split at hr
  · split at hr
    · rw [← Except.ok.inj hr]
      exact hrefuse _
    · simp only at hr
      split at hr
      · obtain ⟨⟨s', t'⟩, -, hr⟩ := bind_eq_ok hr
        rw [← Except.ok.inj hr]
        exact Frame.does ⟨rfl, rfl, rfl⟩ hp
      · rw [← Except.ok.inj hr]
        exact hrefuse _
  · simp only at hr
    split at hr
    · rw [← Except.ok.inj hr]
      exact Frame.does ⟨rfl, rfl, loopPid_updates ..⟩ hp
    · rw [← Except.ok.inj hr]
      exact hrefuse _

theorem internalEvent_does {e : Internal.Event TransId Pid Term Rate S} (he : e.isUpdate = false)
    (hp : ∀ p, internalPlanOf σ = some p → PlanGood monitor p) (hr : e.apply rt mode out σ = .ok σ') :
    InternalDoes monitor none σ σ' := by
  cases e with
  | initExecute => exact processQueues_does (by rfl) (by rfl) (by rfl) hp hr
  | request T => exact sendRequest_does hp hr
  | info Request => exact (handleInfoMessage_frame hr).does hp
  | update P p Request => cases he
  | updateNow P b => cases he
  | exit => cases hr

theorem internalBackground_does (hp : ∀ p, internalPlanOf σ = some p → PlanGood monitor p)
    (hs : Background rt mode σ σ') : InternalDoes monitor none σ σ' := by
  cases hs with
  | work success s hl huses => exact Frame.does ⟨rfl, rfl, rfl⟩ hp
  | result out hl hr =>
    rw [Internal.result] at hr
    split at hr
    · cases hr
    · rename_i st hst
      have hplan : st.updatePlan = σ.state.updatePlan := by
        split at hst
        · unfold resultExit at hst
          split at hst
          · split at hst
            · rw [← Option.some.inj hst]
            · cases hst
          · split at hst
            · cases hst
            · split at hst
              · rw [← Option.some.inj hst]
              · cases hst
        · rw [← Option.some.inj hst]
      split at hr
      · exact processQueues_does (by rfl) (by rfl) (by exact hplan) hp hr
      · cases hr
  | recvTimeout hm hr =>
    obtain ⟨⟨b, s'⟩, -, hr⟩ := bind_eq_ok hr
    rw [← Except.ok.inj hr]
    exact Frame.does ⟨rfl, rfl, rfl⟩ hp
  | elapse ht => exact Frame.does ⟨rfl, rfl, rfl⟩ hp

theorem planned_does {p : Plan Pid Rate S} {Request : Term} (hnone : internalPlanOf σ = none)
    (hr : planned mode out monitor (internalPlan p) Request σ = .ok σ') : InternalDoes monitor (some .update) σ σ' := by
  have hplan : σ.state.updatePlan = none := Option.map_eq_none_iff.mp hnone
  rw [planned, hplan] at hr
  rw [← Except.ok.inj hr, InternalDoes, hnone, decide_eq_false (Nat.lt_irrefl _)]
  exact planUpdate_does p.toUpdatePlan σ.state.queueRequests σ.sent

theorem updateNow_does {b : Bool} (hp : ∀ p, internalPlanOf σ = some p → PlanGood monitor p)
    (hready : optView (internalPlanOf σ) = .ready) (hr : Internal.updateNow rt mode out monitor b σ = .ok σ') :
    InternalDoes monitor (some (.updateNow b)) σ σ' := by
  rw [Internal.updateNow] at hr
  split at hr
  · cases hr
  · rename_i p hsome
    have hσ : internalPlanOf σ = some p.toUpdatePlan := by
      rw [internalPlanOf, hsome]
      rfl
    have hgood : PlanGood monitor p.toUpdatePlan := hp _ hσ
    have hpending : p.updatePending = none := answered_of_ready (hσ ▸ hready)
    simp only at hr
    split at hr
    · rename_i hq
      rw [← Except.ok.inj hr]
      show Does monitor (internalPlanOf σ)
        (some { p.toUpdatePlan with updateNow := some monitor, updateStart := b }) (some (.updateNow b)) σ.sent σ.sent
        (decide (σ.workers.updates.length < σ.workers.updates.length))
      have hreports : reports monitor σ.sent σ.sent = [] := by
        rw [reports, List.drop_length]
        rfl
      rw [decide_eq_false (Nat.lt_irrefl _), Does, hready, hreports]
      refine ⟨.nowGoing b, fun q hq => ?_⟩
      rw [← Option.some.inj hq]
      exact ⟨.inl hpending, .inr rfl, hgood.answered⟩
    · exact processUpdate_does (by rfl) (by rfl) (by rfl) (.inr ⟨rfl, hready⟩) hr

end Internal

/-! ## External services -/

section External

open External

variable {out : External.Outside S} {σ σ' σ₁ : External.System TransId Pid Term Rate S}

/-- What the monitor can see of a step of an external service. -/
def ExternalDoes (monitor : Pid) (order : Option Order) (σ σ' : External.System TransId Pid Term Rate S) : Prop :=
  (externalView σ).Step order (externalView σ') (reports monitor σ.sent σ'.sent)
      ((reports monitor σ.sent σ'.sent).any Report.updates) ∧
    ∀ p, σ'.state.updatePlan = some p → PlanGood monitor p

theorem externalView_free (hwait : σ.waiting = false) : externalView σ = optView σ.state.updatePlan :=
  if_neg (Bool.eq_false_iff.mp hwait)

theorem ExternalDoes.of_does {order : Option Order} (hwait : σ.waiting = false) (hwait' : σ'.waiting = false)
    (h : Does monitor σ.state.updatePlan σ'.state.updatePlan order σ.sent σ'.sent
      ((reports monitor σ.sent σ'.sent).any Report.updates)) : ExternalDoes monitor order σ σ' := by
  rw [ExternalDoes, externalView_free hwait, externalView_free hwait']
  exact h

theorem ExternalDoes.stay (hp : ∀ p, σ.state.updatePlan = some p → PlanGood monitor p)
    (hplan : σ'.state.updatePlan = σ.state.updatePlan) (hwait : σ'.waiting = σ.waiting)
    {l : List (Pid × Message TransId)} (hsent : σ'.sent = σ.sent ++ l) (hl : l.filterMap (report monitor) = []) :
    ExternalDoes monitor none σ σ' := by
  have hreports : reports monitor σ.sent (σ.sent ++ l) = [] := (reports_append ..).trans hl
  have hview : externalView σ' = externalView σ := by rw [externalView, hwait, hplan, externalView]
  rw [ExternalDoes, hsent, hplan, hview, hreports]
  exact ⟨.stay _, hp⟩

/-- Nothing that the monitor can see is changed. -/
structure ExternalFrame (σ σ' : External.System TransId Pid Term Rate S) : Prop where
  plan : σ'.state.updatePlan = σ.state.updatePlan
  sent : σ'.sent = σ.sent
  waiting : σ'.waiting = σ.waiting

theorem external_processQueue_frame (hr : External.processQueue out σ = .ok σ') : ExternalFrame σ σ' := by
  rw [External.processQueue] at hr
  split at hr
  · split at hr
    · rw [← Except.ok.inj hr]
      exact ⟨rfl, rfl, rfl⟩
    · split at hr
      · obtain ⟨⟨Timeout, s', t'⟩, -, hr⟩ := bind_eq_ok hr
        simp only at hr
        split at hr
        · rw [← Except.ok.inj hr]
          exact ⟨rfl, rfl, rfl⟩
        · cases hr
      · rw [← Except.ok.inj hr]
        exact ⟨rfl, rfl, rfl⟩
      · rw [← Except.ok.inj hr]
        exact ⟨rfl, rfl, rfl⟩
  · cases hr

/-- The process has its result and no plan any more, or it has a port and waits with its plan. -/
inductive Processed (p : UpdatePlan Pid Rate S) (σ σ' : External.System TransId Pid Term Rate S) : Prop
  | finish {UpdateNow : Pid} (error : Option UpdateError) : p.updateNow = some UpdateNow →
      σ'.sent = σ.sent ++ [(UpdateNow, .updateNow error)] → σ'.state.updatePlan = none → σ'.waiting = σ.waiting →
      (error = none → p.updateStart = true) → Processed p σ σ'
  | port {UpdateNow : Pid} : p.updateNow = some UpdateNow → σ'.sent = σ.sent ++ [(UpdateNow, .updateNowPort)] →
      σ'.state.updatePlan = some p → σ'.waiting = true → p.updateStart = true → Processed p σ σ'

theorem external_processUpdate_spec {p : UpdatePlan Pid Rate S}
    (hr : External.processUpdate rt out p σ = .ok σ') : Processed p σ σ' := by
  rw [External.processUpdate] at hr
  split at hr
  · cases hr
  · rename_i UpdateNow hnow
    split at hr
    · cases hr
    · split at hr
      · have h := external_processQueue_frame hr
        exact .finish _ hnow h.sent h.plan h.waiting fun he => absurd he (Option.some_ne_none _)
      · split at hr
        · have h := external_processQueue_frame hr
          exact .finish _ hnow h.sent h.plan h.waiting fun he => absurd he (Option.some_ne_none _)
        · rename_i hstart
          have hstart : p.updateStart = true := not_not.mp hstart
          split at hr
          · split at hr
            · rw [← Except.ok.inj hr]
              exact .port hnow rfl rfl rfl hstart
            · cases hr
          · split at hr
            · have h := external_processQueue_frame hr
              exact .finish none hnow h.sent h.plan h.waiting fun _ => hstart
            · cases hr

theorem external_processUpdate_does {p : UpdatePlan Pid Rate S} {order : Option Order} (hgood : PlanGood monitor p)
    (hnow : p.updateNow = some monitor) (hsent : σ₁.sent = σ.sent) (hwait : σ.waiting = false)
    (hwait₁ : σ₁.waiting = false) (ho : order = none ∧ optView σ.state.updatePlan = .going p.updateStart ∨
      order = some (.updateNow p.updateStart) ∧ optView σ.state.updatePlan = .ready)
    (hr : External.processUpdate rt out p σ₁ = .ok σ') : ExternalDoes monitor order σ σ' := by
  obtain ⟨error, hP, hsent', hplan, hwait', happlies⟩ | ⟨hP, hsent', hplan, hwait', hstart⟩ :=
    external_processUpdate_spec hr
  · obtain rfl := Option.some.inj (hnow.symm.trans hP)
    refine .of_does hwait (hwait'.trans hwait₁) ?_
    have hreports : reports monitor σ.sent (σ.sent ++ [(monitor, .updateNow error)]) = [.updateNow error] := by
      rw [reports_append]
      simp [report]
    rw [hsent', hsent, hplan, hreports]
    refine .finish ho (fun h => happlies ?_) _ _
    cases error with
    | none => rfl
    | some e => cases h
  · obtain rfl := Option.some.inj (hnow.symm.trans hP)
    have hreports : reports monitor σ.sent (σ.sent ++ [(monitor, .updateNowPort)]) = [.updateNowPort] := by
      rw [reports_append]
      simp [report]
    rw [ExternalDoes, hsent', hsent, hreports, hplan, externalView_free hwait,
      show externalView σ' = .after from if_pos hwait']
    refine ⟨?_, fun q hq => Option.some.inj hq ▸ hgood⟩
    rcases ho with ⟨rfl, hview⟩ | ⟨rfl, hview⟩
    · rw [hview, hstart]
      exact .finishPort
    · rw [hview, hstart]
      exact .nowPort

theorem external_processQueues_does (hsent : σ₁.sent = σ.sent) (hplan : σ₁.state.updatePlan = σ.state.updatePlan)
    (hwait : σ.waiting = false) (hwait₁ : σ₁.waiting = σ.waiting)
    (hp : ∀ p, σ.state.updatePlan = some p → PlanGood monitor p)
    (hr : External.processQueues rt out σ₁ = .ok σ') : ExternalDoes monitor none σ σ' := by
  rw [External.processQueues] at hr
  split at hr
  · rename_i p hsome
    have hσ : σ.state.updatePlan = some p := hplan.symm.trans hsome
    have hgood : PlanGood monitor p := hp _ hσ
    simp only at hr
    split at hr
    · rename_i hnow
      obtain ⟨hmonitor, hpending⟩ := hgood.going hnow
      have hanswer : (@planReady TransId _ _ _ p).2 = [] := by rw [planReady, hpending]
      have hstart : (@planReady TransId _ _ _ p).1.updateStart = p.updateStart := by rw [planReady, hpending]
      refine external_processUpdate_does ?_ ?_ ?_ hwait ?_ (.inl ⟨rfl, ?_⟩) hr
      · exact hgood.planReady hpending
      · exact (planReady_updateNow p).trans hmonitor
      · show σ₁.sent ++ (planReady p).2 = σ.sent
        rw [hanswer, List.append_nil, hsent]
      · exact hwait₁.trans hwait
      · rw [hσ, optView, Option.elim_some, planView, if_pos hnow, hstart]
    · rename_i hnow
      have hnone : p.updateNow = none := Option.not_isSome_iff_eq_none.mp hnow
      have hnot : (reports monitor σ.sent (σ.sent ++ (planReady p).2)).any Report.updates = false := by
        rw [reports_append, planReady]
        split
        · rename_i P _
          by_cases hm : P = monitor <;> simp [report, hm, Report.updates]
        · rfl
      rw [← Except.ok.inj hr]
      refine .of_does hwait (hwait₁.trans hwait) ?_
      show Does monitor σ.state.updatePlan (some (planReady p).1) none σ.sent (σ₁.sent ++ (planReady p).2)
        ((reports monitor σ.sent (σ₁.sent ++ (planReady p).2)).any Report.updates)
      rw [hσ, hsent, hnot]
      exact planReady_does hgood hnone σ.sent
  · have h := external_processQueue_frame hr
    exact .stay hp (h.plan.trans hplan) (h.waiting.trans hwait₁)
        ((h.sent.trans hsent).trans (List.append_nil _).symm) rfl

theorem external_sendRequest_does {T : Request TransId Pid Term}
    (hp : ∀ p, σ.state.updatePlan = some p → PlanGood monitor p) (hr : External.sendRequest rt out T σ = .ok σ') :
    ExternalDoes monitor none σ σ' := by
  have hrefuse : ∀ o, ExternalDoes monitor none σ (External.refuse o T σ) := fun o =>
    .stay hp rfl rfl rfl (reports_refusal ..)
  have hstay : ∀ {σ₂ : External.System TransId Pid Term Rate S}, ExternalFrame σ σ₂ → ExternalDoes monitor none σ σ₂ :=
    fun h => .stay hp h.plan h.waiting (h.sent.trans (List.append_nil _).symm) rfl
  rw [External.sendRequest] at hr
  split at hr
  · rw [← Except.ok.inj hr]
    exact hrefuse _
  · simp only at hr
    split at hr
    · split at hr
      · obtain ⟨⟨s', t'⟩, -, hr⟩ := bind_eq_ok hr
        rw [← Except.ok.inj hr]
        exact hstay ⟨rfl, rfl, rfl⟩
      · rw [← Except.ok.inj hr]
        exact hrefuse _
    · split at hr
      · split at hr
        · split at hr
          · rw [← Except.ok.inj hr]
            exact hstay ⟨rfl, rfl, rfl⟩
          · cases hr
        · cases hr
      · rw [← Except.ok.inj hr]
        exact hrefuse _

theorem externalEvent_does {e : External.Event TransId Pid Term Rate S} (he : External.isUpdate e = false)
    (hwait : σ.waiting = false) (hp : ∀ p, σ.state.updatePlan = some p → PlanGood monitor p)
    (hr : e.apply rt out σ = .ok σ') :
    ExternalDoes monitor none σ σ' := by
  have hstay : ∀ {σ₂ : External.System TransId Pid Term Rate S}, ExternalFrame σ σ₂ → ExternalDoes monitor none σ σ₂ :=
    fun h => .stay hp h.plan h.waiting (h.sent.trans (List.append_nil _).symm) rfl
  cases e with
  | osInit =>
    rw [External.Event.apply, External.osInit] at hr
    split at hr
    · rw [← Except.ok.inj hr]
      exact hstay ⟨rfl, rfl, rfl⟩
    · split at hr
      · rw [← Except.ok.inj hr]
        exact hstay ⟨rfl, rfl, rfl⟩
      · cases hr
    · cases hr
  | monitorReady =>
    rw [External.Event.apply, External.monitorReady] at hr
    split at hr
    · rw [← Except.ok.inj hr]
      exact hstay ⟨rfl, rfl, rfl⟩
    · split at hr
      · rw [← Except.ok.inj hr]
        exact hstay ⟨rfl, rfl, rfl⟩
      · cases hr
    · cases hr
  | polling a =>
    rw [External.Event.apply] at hr
    unfold External.polling at hr
    split at hr
    · exact external_processQueues_does (by rfl) (by rfl) hwait (by rfl) hp hr
    · cases hr
  | request T => exact external_sendRequest_does hp hr
  | response a =>
    rw [External.Event.apply] at hr
    unfold External.response at hr
    split at hr
    · exact external_processQueues_does (by rfl) (by rfl) hwait (by rfl) hp hr
    · cases hr
  | update P p => cases he
  | updateNow P b => cases he
  | updateAfter b => cases he
  | exit => cases hr

theorem externalUpdate_does {p : UpdatePlan Pid Rate S} (hwait : σ.waiting = false)
    (hnone : σ.state.updatePlan = none) :
    ExternalDoes monitor (some .update) σ (External.update monitor (newPlan p) σ) := by
  have hnot : ∀ error, (reports monitor σ.sent (σ.sent ++ [(monitor, .update error)])).any Report.updates = false := by
    intro error
    rw [reports_append]
    simp [report, Report.updates]
  rw [External.update, hnone]
  simp only
  split
  · have hplan : (reports monitor σ.sent (σ.sent ++ (planUpdate monitor (newPlan p) σ.state.queueRequests).2)).any
        Report.updates = false := by
      rw [planUpdate]
      split
      · rw [List.append_nil, reports, List.drop_length]
        rfl
      · exact hnot none
    refine .of_does hwait hwait ?_
    show Does monitor σ.state.updatePlan (some (planUpdate monitor (newPlan p) σ.state.queueRequests).1) (some .update)
      σ.sent (σ.sent ++ (planUpdate monitor (newPlan p) σ.state.queueRequests).2)
      ((reports monitor σ.sent (σ.sent ++ (planUpdate monitor (newPlan p) σ.state.queueRequests).2)).any Report.updates)
    rw [hplan, hnone]
    exact planUpdate_does p σ.state.queueRequests σ.sent
  · have hreport : reports monitor σ.sent (σ.sent ++ [(monitor, .update (some .invalidState))]) =
        [.update (some .invalidState)] := by
      rw [reports_append]
      simp [report]
    refine .of_does hwait hwait ⟨?_, fun q hq => ?_⟩
    · show (optView σ.state.updatePlan).Step (some .update) (optView σ.state.updatePlan)
        (reports monitor σ.sent (σ.sent ++ [(monitor, .update (some .invalidState))]))
        ((reports monitor σ.sent (σ.sent ++ [(monitor, .update (some .invalidState))])).any Report.updates)
      rw [hnot, hreport, hnone]
      exact .updateRefuse _
    · exact absurd (hnone.symm.trans hq) (Option.some_ne_none q).symm

theorem externalUpdateNow_does {b : Bool} (hwait : σ.waiting = false)
    (hp : ∀ p, σ.state.updatePlan = some p → PlanGood monitor p)
    (hready : optView σ.state.updatePlan = .ready) (hr : External.updateNow rt out monitor b σ = .ok σ') :
    ExternalDoes monitor (some (.updateNow b)) σ σ' := by
  rw [External.updateNow] at hr
  split at hr
  · cases hr
  · rename_i p hσ
    have hgood : PlanGood monitor p := hp _ hσ
    have hpending : p.updatePending = none := answered_of_ready (hσ ▸ hready)
    simp only at hr
    split at hr
    · rw [← Except.ok.inj hr]
      have hreports : reports monitor σ.sent σ.sent = [] := by
        rw [reports, List.drop_length]
        rfl
      refine .of_does hwait hwait ?_
      show Does monitor σ.state.updatePlan (some { p with updateNow := some monitor, updateStart := b })
        (some (.updateNow b)) σ.sent σ.sent ((reports monitor σ.sent σ.sent).any Report.updates)
      rw [Does, hready, hreports]
      refine ⟨.nowGoing b, fun q hq => ?_⟩
      rw [← Option.some.inj hq]
      exact ⟨.inl hpending, .inr rfl, hgood.answered⟩
    · refine external_processUpdate_does ?_ (by rfl) (by rfl) hwait (by exact hwait) (.inr ⟨rfl, hready⟩) hr
      exact ⟨.inl hpending, .inr rfl, hgood.answered⟩

/-- A process that waits goes on when its new OS process runs. -/
theorem externalUpdateAfter_does {b : Bool} (hwait : σ.waiting = true) (hr : External.updateAfter rt out b σ = .ok σ') :
    ExternalDoes monitor (some (.updateAfter b)) σ σ' := by
  rw [External.updateAfter] at hr
  split at hr
  · split at hr
    · rename_i hb
      have hreports : reports monitor σ.sent σ.sent = [] := by
        rw [reports, List.drop_length]
        rfl
      rw [← Except.ok.inj hr, ExternalDoes, hb.1]
      refine ⟨?_, fun q hq => by cases hq⟩
      rw [show externalView σ = .after from if_pos hwait]
      show Local.Step .after _ .idle (reports monitor σ.sent σ.sent)
          ((reports monitor σ.sent σ.sent).any Report.updates)
      rw [hreports]
      exact .goOn
    · cases hr
  · cases hr

end External

/-! ## Service processes -/

/-- The plan of a process is one of the monitor, and the process keeps its own invariant. -/
def Process.Good (monitor : Pid) (P : Process TransId Pid Term Rate S) : Prop :=
  (match P with
    | .internal mode s₀ σ => Internal.SystemInv s₀ mode σ
    | .external σ => External.SystemInv σ) ∧
  ∀ p, P.plan = some p → PlanGood monitor p

theorem optView_idle {o : Option (UpdatePlan Pid Rate S)} : optView o = .idle ↔ o = none := by
  cases o with
  | none => exact ⟨fun _ => rfl, fun _ => rfl⟩
  | some p =>
    refine ⟨fun h => ?_, fun h => absurd h (Option.some_ne_none p)⟩
    rw [optView, Option.elim_some, planView] at h
    split at h
    · cases h
    · split at h <;> cases h

theorem takes_update {v : Local} (h : v.Takes (some .update)) : v = .idle := by
  cases v
  case idle => rfl
  all_goals exact h.elim

/-- A process that does not wait is seen by its plan. -/
theorem externalView_ne {σ : External.System TransId Pid Term Rate S} (h : externalView σ ≠ .after) :
    σ.waiting = false ∧ externalView σ = optView σ.state.updatePlan := by
  have hwait : σ.waiting = false := Bool.eq_false_iff.mpr fun hw => h (if_pos hw)
  exact ⟨hwait, externalView_free hwait⟩

theorem takes_updateNow {v : Local} {b : Bool} (h : v.Takes (some (.updateNow b))) : v = .ready := by
  cases v
  case ready => rfl
  all_goals exact h.elim

/-- A message that is no message of the monitor about an update is handled by a process that does not wait. -/
theorem enabled_free {σ : External.System TransId Pid Term Rate S} {e : External.Event TransId Pid Term Rate S}
    (he : External.isUpdate e = false) (hen : e.Enabled σ) : σ.waiting = false := by
  cases e
  case request T => exact hen.1
  case polling a => exact hen.1
  case updateAfter b => cases he
  all_goals exact hen

theorem service_spec (p : Internal.Plan Pid Rate S) (Request : Term) :
    Spec (service rt monitor p Request) (Process.Ready rt) (Process.Good monitor) Process.view where
  ready {P} hP := by
    cases P with
    | internal mode s₀ σ =>
      have hplan : Process.plan (.internal mode s₀ σ) = none := by
        rw [Process.plan, hP.2]
        rfl
      exact ⟨⟨hP.1.inv, fun q hq => absurd (hplan.symm.trans hq) (Option.some_ne_none q).symm⟩, optView_idle.mpr hplan⟩
    | external σ =>
      have hwait : σ.waiting = false := Bool.eq_false_iff.mpr fun hw => by
        obtain ⟨q, hq, -⟩ := hP.1.inv.waits hw
        cases hP.2.symm.trans hq
      exact ⟨⟨hP.1.inv, fun q hq => absurd (hP.2.symm.trans hq) (Option.some_ne_none q).symm⟩,
        (externalView_free hwait).trans (optView_idle.mpr hP.2)⟩
  step {P order P' rs applies} hgood htakes hs := by
    obtain ⟨hinv, hplan⟩ := hgood
    cases hs with
    | internalEvent e out he hen hr =>
      obtain ⟨hstep, hplan'⟩ := internalEvent_does he hplan hr
      exact ⟨⟨Internal.Event.inv hinv hen hr, hplan'⟩, hstep⟩
    | internalBackground hb =>
      obtain ⟨hstep, hplan'⟩ := internalBackground_does hplan hb
      exact ⟨⟨hb.inv hinv, hplan'⟩, hstep⟩
    | internalUpdate out hready hr =>
      obtain ⟨hstep, hplan'⟩ := planned_does (optView_idle.mp (takes_update htakes)) hr
      exact ⟨⟨Internal.planned_inv hinv hready hr, hplan'⟩, hstep⟩
    | internalUpdateNow out b hready hr =>
      obtain ⟨hstep, hplan'⟩ := updateNow_does hplan (takes_updateNow htakes) hr
      exact ⟨⟨Internal.updateNow_inv hinv hr, hplan'⟩, hstep⟩
    | externalEvent e out he hen hr =>
      obtain ⟨hstep, hplan'⟩ := externalEvent_does he (enabled_free he hen) hplan hr
      exact ⟨⟨External.Event.inv hinv hen hr, hplan'⟩, hstep⟩
    | externalRecvTimeout _ hm hr =>
      have hinv' := External.recvTimeout_inv hinv hm hr
      obtain ⟨⟨b, s'⟩, -, hr⟩ := bind_eq_ok hr
      rw [← Except.ok.inj hr] at hinv' ⊢
      obtain ⟨hstep, hplan'⟩ : ExternalDoes monitor none _ _ :=
        .stay hplan rfl rfl (List.append_nil _).symm rfl
      exact ⟨⟨hinv', hplan'⟩, hstep⟩
    | externalElapse ht =>
      have helapse : External.Step rt _ _ := .elapse ht
      exact ⟨⟨External.inv_step hinv helapse, hplan⟩, .stay _⟩
    | externalUpdate hwait =>
      have hidle := takes_update htakes
      rw [Process.view, externalView_free hwait] at hidle
      obtain ⟨hstep, hplan'⟩ := externalUpdate_does hwait (optView_idle.mp hidle)
      exact ⟨⟨External.update_inv hinv hwait, hplan'⟩, hstep⟩
    | externalUpdateNow out b hwait hr =>
      have hready := takes_updateNow htakes
      rw [Process.view, externalView_free hwait] at hready
      obtain ⟨hstep, hplan'⟩ := externalUpdateNow_does hwait hplan hready hr
      exact ⟨⟨External.updateNow_inv hinv hwait hr, hplan'⟩, hstep⟩
    | externalUpdateAfter out b hwait hr =>
      obtain ⟨hstep, hplan'⟩ := externalUpdateAfter_does hwait hr
      exact ⟨⟨External.updateAfter_inv hinv hwait hr, hplan'⟩, hstep⟩

/-- A process that answered and waits handles no new request. -/
theorem Process.Good.suspended {P : Process TransId Pid Term Rate S} (h : P.Good monitor) (hview : P.view = .ready) :
    P.Suspended := by
  have hview : optView P.plan = .ready := by
    cases P with
    | internal mode s₀ σ => exact hview
    | external σ =>
      have hne : externalView σ ≠ .after := fun h => by cases h.symm.trans hview
      exact (externalView_ne hne).2.symm.trans hview
  have hanswered : ∀ p, P.plan = some p → p.updatePending = none := fun p hp => answered_of_ready (hp ▸ hview)
  obtain ⟨hinv, hplan⟩ := h
  cases P with
  | internal mode s₀ σ =>
    cases hp : σ.state.updatePlan with
    | none =>
      rw [Process.plan, hp] at hview
      cases hview
    | some p =>
      have hPlan : Process.plan (.internal mode s₀ σ) = some p.toUpdatePlan := by
        rw [Process.plan, hp]
        rfl
      refine ⟨(hinv.plan p hp).1, p, hp, fun hsync => ?_⟩
      have hq := (hplan _ hPlan).answered hsync (hanswered _ hPlan)
      exact (hinv.calm (.inr (by rw [Internal.System.busy, hp]; exact hq))).outstanding
  | external σ =>
    cases hp : σ.state.updatePlan with
    | none =>
      rw [Process.plan, hp] at hview
      cases hview
    | some p =>
      refine ⟨hinv.plan p hp, p, hp, fun hsync => ?_⟩
      have hq := (hplan p hp).answered hsync (hanswered p hp)
      exact (hinv.free (by rw [External.System.busy, hp]; exact hq)).outstanding

variable {p : Internal.Plan Pid Rate S} {Request : Term} {plan : List Pid}
  {c : Conf Pid (Process TransId Pid Term Rate S)}

/-- A plan is no OS process to wait for. -/
theorem optView_ne_after (o : Option (UpdatePlan Pid Rate S)) : optView o ≠ .after := by
  cases o with
  | none => exact Local.noConfusion
  | some p =>
    rw [optView, Option.elim_some, planView]
    split
    · exact Local.noConfusion
    · split <;> exact Local.noConfusion

/-- A process that the monitor sees waiting waits, and has its plan. -/
theorem Process.waits_of_after {P : Process TransId Pid Term Rate S} (h : P.view = .after) : P.Waits := by
  cases P with
  | internal mode s₀ σ => exact absurd h (optView_ne_after _)
  | external σ =>
    by_contra hnot
    exact optView_ne_after _ ((externalView_free (Bool.eq_false_iff.mpr hnot)).symm.trans h)

theorem Process.plan_of_idle {P : Process TransId Pid Term Rate S} (h : P.view = .idle) : P.plan = none := by
  cases P with
  | internal mode s₀ σ => exact optView_idle.mp h
  | external σ => exact optView_idle.mp ((externalView_ne fun ha => by cases ha.symm.trans h).2.symm.trans h)

/-- In every state of a call that updates the processes of a plan: once the
update was applied, every process of the plan has answered, and none refused; a
process that answered handles no new request until it is told to go on; and
when the call returned, every process that lives was told once, or never if it
refused, and it has no plan any more, or it waits for its new OS process: then
there was an error, or it is told to go on. -/
theorem update_phases (h : Reachable (service rt monitor p Request) (Process.Ready rt) plan c) :
    (c.applied ≠ [] → ∀ pid ∈ plan, pid ∈ c.acked ∧ pid ∉ c.refused) ∧
    (∀ pid ∈ plan, c.alive pid = true → pid ∈ c.acked → c.told.count pid = 0 → (c.process pid).Suspended) ∧
    ∀ Results, c.phase = .done Results → ∀ pid ∈ plan, c.alive pid = true →
      (c.told.count pid = if pid ∈ c.refused then 0 else 1) ∧ ((c.process pid).plan = none ∨
        (c.process pid).Waits ∧ (Results.any Result.isError = true ∨ ∃ b, c.inbox pid = [.updateAfter b])) := by
  have hM : Spec (service rt monitor p Request) (Process.Ready rt) (Process.Good monitor) Process.view :=
    service_spec p Request
  refine ⟨applied_acked hM h, fun pid hpid halive hack htold => ?_, fun Results hdone pid hpid halive => ?_⟩
  · obtain ⟨hgood, hview⟩ := acked_ready hM h hpid halive hack htold
    exact hgood.suspended hview
  · obtain ⟨htold, hview⟩ := done_told hM h hdone hpid halive
    exact ⟨htold, hview.imp Process.plan_of_idle (And.imp_left Process.waits_of_after)⟩

/-- In every run of the call in which each step meets the condition: once the
update was applied, every process of the plan has answered; if one refused, or
died before the second phase, none applied it; a process that answered handles
no new request until it is told to go on; and when the call returned, every
process that lives has no plan any more, and was told to go on once. -/
theorem update_atomic (h : Met (service rt monitor p Request) (Process.Ready rt) Process.Waits plan c) :
    (c.applied ≠ [] → ∀ pid ∈ plan, pid ∈ c.acked) ∧
    (∀ pid ∈ plan, pid ∈ c.refused ∨ pid ∈ c.diedBefore → c.applied = []) ∧
    (∀ pid ∈ plan, c.alive pid = true → pid ∈ c.acked → c.told.count pid = 0 → (c.process pid).Suspended) ∧
    ∀ Results, c.phase = .done Results → ∀ pid ∈ plan, c.alive pid = true →
      (c.process pid).plan = none ∧ c.told.count pid = 1 := by
  have hM : Spec (service rt monitor p Request) (Process.Ready rt) (Process.Good monitor) Process.view :=
    service_spec p Request
  have hW : ∀ P : Process TransId Pid Term Rate S, P.view = .after → P.Waits := fun _ => Process.waits_of_after
  obtain ⟨hacked, hsuspended, -⟩ := update_phases h.reachable
  refine ⟨fun ha pid hpid => (hacked ha pid hpid).1, fun pid hpid hno => ?_, hsuspended,
    fun Results hdone pid hpid halive => (h.done_told hM hW hdone hpid halive).imp_left Process.plan_of_idle⟩
  rcases hno with href | hdied
  · by_contra ha
    exact (hacked ha pid hpid).2 href
  · exact h.applied hM hW (List.ne_nil_of_mem hdied)

theorem Receive.head {pid : Pid} {sel : Report → Bool} {r : Report} {l : List (Pid × Report)} (h : sel r = true) :
    Receive pid sel r ((pid, r) :: l) l :=
  @Receive.intro Pid pid sel r [] l (fun _ hx => absurd hx List.not_mem_nil) h

/-- An update of the service state only. -/
def stateUpdate : Internal.Plan Nat Nat Nat where
  type := .internal
  moduleState := some fun s => some (s + 1)
  sync := true
  optionsKeys := []
  options := ⟨none, none, none, 0⟩
  spawnOsProcess := false
  updatePending := none
  updateNow := none
  updateStart := false
  queueRequests := false
  pidKeys := []
  pidUses := ⟨none, none⟩

/-- No rate limit, and terms without a size. -/
def unlimited : Services.Runtime Nat Nat Nat Nat := ⟨fun _ => true, fun _ => 0, fun r => (true, r), id⟩

/-- An update of an external service, with a new OS process. -/
def portUpdate : Internal.Plan Nat Nat Nat :=
  { stateUpdate with type := .external, moduleState := none, spawnOsProcess := true }

/-- Two processes answer, and one dies before the first phase ends: the other one updates. And of two processes with a
new OS process one dies: the other one waits for ever. -/
theorem update_not_atomic :
    (∃ c₁ c₂ : Conf Nat (Process Nat Nat Nat Nat Nat),
      Reachable (service unlimited 9 stateUpdate 0) (Process.Ready unlimited) [0, 1] c₁ ∧
      c₁.phase = .start [0, 1] [] [] ∧ c₁.diedBefore = [0] ∧
      Relation.ReflTransGen (Step (service unlimited 9 stateUpdate 0) [0, 1]) c₁ c₂ ∧ c₂.applied = [1]) ∧
    ∃ c : Conf Nat (Process Nat Nat Nat Nat Nat),
      Reachable (service unlimited 9 portUpdate 0) (Process.Ready unlimited) [0, 1] c ∧
      c.phase = .done [.ok, .port, .error .pidDied] ∧ c.alive 0 = true ∧ (c.process 0).plan.isSome = true ∧
      ∀ c', Relation.ReflTransGen (Step (service unlimited 9 portUpdate 0) [0, 1]) c c' → c'.alive 0 = true →
        (c'.process 0).Waits := by
  have h0 : (0 : Nat) ∈ [0, 1] := List.mem_cons_self
  have h1 : (1 : Nat) ∈ [0, 1] := List.mem_cons_of_mem _ List.mem_cons_self
  refine ⟨?_, ?_⟩
  · have hidle : Internal.Reachable unlimited .normal 3 _ :=
      .step (.init ⟨none, none, none, 0⟩ ⟨none, none⟩) (.event .initExecute ⟨fun _ _ _ => none⟩ rfl rfl)
    have hinit : Reachable (service unlimited 9 stateUpdate 0) (Process.Ready unlimited) [0, 1]
        (Conf.init [0, 1] (fun _ => .internal .normal 3 _) fun _ => true) :=
      .init _ _ (by decide) fun _ _ _ => And.intro hidle rfl
    have hack := (hinit.step (.order h0 rfl rfl (.internalUpdate ⟨fun _ _ _ => none⟩ rfl rfl))).step
      (.order h1 rfl rfl (.internalUpdate ⟨fun _ _ _ => none⟩ rfl rfl))
    have hdead := hack.step (.die h0 rfl)
    exact ⟨_, _, hdead, rfl, rfl, .head (.startRecv rfl (.head rfl)) (.head (.startRecv rfl (.head rfl))
      (.head (.updateNow none rfl) (.head (.order h1 rfl rfl (.internalUpdateNow ⟨fun _ _ _ => none⟩ true rfl rfl))
        .refl))), rfl⟩
  · have hidle : External.Reachable unlimited _ :=
      (((External.Reachable.init ⟨none, none, none, 0⟩ 3).step (.event .osInit ⟨.ok 0 3, true, true⟩ rfl rfl)).step
        (.event .monitorReady ⟨.ok 0 3, true, true⟩ rfl rfl)).step
        (.event (.polling (.ok 0 3)) ⟨.ok 0 3, true, true⟩ ⟨rfl, rfl⟩ rfl)
    have hinit : Reachable (service unlimited 9 portUpdate 0) (Process.Ready unlimited) [0, 1]
        (Conf.init [0, 1] (fun _ => .external _) fun _ => true) :=
      .init _ _ (by decide) fun _ _ _ => And.intro hidle rfl
    have hack := (hinit.step (.order h0 rfl rfl (.externalUpdate rfl))).step
      (.order h1 rfl rfl (.externalUpdate rfl))
    have hnow := ((hack.step (.startRecv rfl (.head rfl))).step (.startRecv rfl (.head rfl))).step (.updateNow none rfl)
    have hdead := (hnow.step (.order h0 rfl rfl (.externalUpdateNow ⟨.ok 0 3, true, true⟩ true rfl rfl))).step
      (.die h1 rfl)
    have hdone := ((hdead.step (.nowRecv rfl (.head rfl))).step (.nowRecv rfl (.head rfl))).step (.failed rfl rfl)
    refine ⟨_, hdone, rfl, rfl, rfl, fun c' hrun halive => Process.waits_of_after ?_⟩
    exact after_for_ever (service_spec portUpdate 0) hdone rfl h0 rfl rfl rfl hrun halive

/-- A step of a process meets the condition. -/
theorem Conf.Meets.of_same {c' : Conf Pid (Process TransId Pid Term Rate S)} (h : c'.phase = c.phase) :
    c.Meets Process.Waits plan c' where
  start _ _ hc hc' := by cases (hc.symm.trans h.symm).trans hc'
  return_ _ _ hc hc' := by cases (hc.symm.trans h.symm).trans hc'

/-- While messages are left to receive, nothing is to be met. -/
theorem Conf.Meets.of_recv {c' : Conf Pid (Process TransId Pid Term Rate S)}
    (hs : ∀ N, c.phase ≠ .start [] N []) (hn : ∀ R R', c.phase ≠ .now [] R R') : c.Meets Process.Waits plan c' where
  start N _ hc _ := absurd hc (hs N)
  return_ R R' hc _ := absurd hc (hn R R')

/-- Two processes answer, are told, and update. -/
theorem update_atomic_two :
    ∃ c : Conf Nat (Process Nat Nat Nat Nat Nat), c.applied = [1, 0] ∧ ∃ Results, c.phase = .done Results ∧
      ∀ pid ∈ [0, 1], (c.process pid).plan = none ∧ c.told.count pid = 1 := by
  have h0 : (0 : Nat) ∈ [0, 1] := List.mem_cons_self
  have h1 : (1 : Nat) ∈ [0, 1] := List.mem_cons_of_mem _ List.mem_cons_self
  have hidle : Internal.Reachable unlimited .normal 3 _ :=
    .step (.init ⟨none, none, none, 0⟩ ⟨none, none⟩) (.event .initExecute ⟨fun _ _ _ => none⟩ rfl rfl)
  have hinit : Met (service unlimited 9 stateUpdate 0) (Process.Ready unlimited) Process.Waits [0, 1]
      (Conf.init [0, 1] (fun _ => .internal .normal 3 _) fun _ => true) :=
    .init _ _ (by decide) fun _ _ _ => And.intro hidle rfl
  have hack := (hinit.step (.order h0 rfl rfl (.internalUpdate ⟨fun _ _ _ => none⟩ rfl rfl)) (.of_same rfl)).step
    (.order h1 rfl rfl (.internalUpdate ⟨fun _ _ _ => none⟩ rfl rfl)) (.of_same rfl)
  have hrecv := (hack.step (.startRecv rfl (.head rfl)) (.of_recv (fun _ => by rintro ⟨⟩) fun _ _ => by rintro ⟨⟩)).step
    (.startRecv rfl (.head rfl)) (.of_recv (fun _ => by rintro ⟨⟩) fun _ _ => by rintro ⟨⟩)
  have hnow := hrecv.step (.updateNow none rfl) ⟨fun _ _ _ _ => .inl rfl, fun _ _ hc => by cases hc⟩
  have happlied := (hnow.step (.order h0 rfl rfl (.internalUpdateNow ⟨fun _ _ _ => none⟩ true rfl rfl))
    (.of_same rfl)).step (.order h1 rfl rfl (.internalUpdateNow ⟨fun _ _ _ => none⟩ true rfl rfl)) (.of_same rfl)
  have hresult := (happlied.step (.nowRecv rfl (.head rfl))
      (.of_recv (fun _ => by rintro ⟨⟩) fun _ _ => by rintro ⟨⟩)).step
    (.nowRecv rfl (.head rfl)) (.of_recv (fun _ => by rintro ⟨⟩) fun _ _ => by rintro ⟨⟩)
  have hport : Result.port ∉ [Result.ok, Result.ok] := by simp
  have hdone := hresult.step (.done rfl rfl hport)
    ⟨fun _ _ hc => (by cases hc), fun _ _ _ _ => List.forall_mem_cons.mpr ⟨fun _ => ⟨List.not_mem_nil, id⟩,
      List.forall_mem_singleton.mpr fun _ => ⟨List.not_mem_nil, id⟩⟩⟩
  exact ⟨_, rfl, _, rfl, fun pid hpid => (update_atomic hdone).2.2.2 _ rfl pid hpid rfl⟩

end CloudI.Monitor.Update
