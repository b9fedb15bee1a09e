import Mathlib.Data.List.Basic

/-!
# The refresh of the process groups

With a lazy method a dispatcher asks the process of its scope for the groups,
and asks again with each reply, so that one refresh is always outstanding. An
update asks only when an immediate method is replaced by a lazy one
(`updateState`), whatever is outstanding then: `lazy_outstanding` says for
which updates exactly one refresh is outstanding, and `not_lazy_outstanding`
that every other update breaks it.
-/

namespace CloudI.Services.Refresh

inductive Order where
  | closest | furthest | random | local | remote | newest | oldest
deriving DecidableEq

inductive DestRefresh where
  | lazy (o : Order)
  | immediate (o : Order)
  | none
deriving DecidableEq

/-- A dispatcher, with the refreshes that it asked for: those whose timer runs,
those that the process of the scope did not answer yet, and the replies in the
mailbox. -/
structure World (Groups : Type) where
  destRefresh : DestRefresh
  cpgData : Option Groups
  destRefreshDelay : Nat
  timers : List Nat
  asked : Nat
  mailbox : List Groups

/-- The part of a `config_service_update` for the refresh. -/
structure Plan where
  destRefresh : Option DestRefresh
  destRefreshDelay : Option Nat

variable {Groups : Type} (empty : Groups)

/-- `destination_refresh_groups/2` -/
def destinationRefreshGroups (d : DestRefresh) (OldGroups : Option Groups) : Option Groups :=
  match d with
  | .lazy _ => some (OldGroups.getD empty)
  | .immediate _ => none
  | .none => none

/-- `destination_refresh/4`; the time is that of `cpg_data:get_groups/3`. -/
def destinationRefresh (d : DestRefresh) (Delay : Nat) (w : World Groups) : World Groups :=
  match d with
  | .lazy _ => { w with timers := Delay :: w.timers }
  | .immediate _ => w
  | .none => w

/-- The end of `init`. -/
def init (d : DestRefresh) (DestRefreshStart DestRefreshDelay : Nat) : World Groups :=
  destinationRefresh d DestRefreshStart ⟨d, destinationRefreshGroups empty d none, DestRefreshDelay, [], 0, []⟩

/-- `handle_info` of `cloudi_cpg_data` -/
def handleCpgData (g : Groups) (w : World Groups) : World Groups :=
  { destinationRefresh w.destRefresh w.destRefreshDelay w with cpgData := some g }

/-- `update_state/2` -/
def updateState (p : Plan) (w : World Groups) : World Groups :=
  let d := p.destRefresh.getD w.destRefresh
  let g := destinationRefreshGroups empty d w.cpgData
  let Delay := p.destRefreshDelay.getD w.destRefreshDelay
  let w' :=
    match w.destRefresh, p.destRefresh with
    | .immediate _, some (.lazy _) => destinationRefresh d Delay w
    | _, _ => w
  { w' with destRefresh := d, cpgData := g, destRefreshDelay := Delay }

/-- What happens to a dispatcher. -/
inductive Step : World Groups → World Groups → Prop
  | pass {w : World Groups} (ms : Nat) : Step w { w with timers := w.timers.map (· - ms) }
  | fire {w : World Groups} {l₁ l₂ : List Nat} : w.timers = l₁ ++ 0 :: l₂ →
      Step w { w with timers := l₁ ++ l₂, asked := w.asked + 1 }
  | reply {w : World Groups} {n : Nat} (g : Groups) : w.asked = n + 1 →
      Step w { w with asked := n, mailbox := w.mailbox ++ [g] }
  | receive {w : World Groups} {g : Groups} {rest : List Groups} : w.mailbox = g :: rest →
      Step w (handleCpgData g { w with mailbox := rest })

/-- The runs whose updates meet a condition. -/
inductive Reachable (C : World Groups → Plan → Prop) : World Groups → Prop
  | init (d : DestRefresh) (DestRefreshStart DestRefreshDelay : Nat) :
      Reachable C (init empty d DestRefreshStart DestRefreshDelay)
  | step {w w' : World Groups} : Reachable C w → Step w w' → Reachable C w'
  | update {w : World Groups} {p : Plan} : Reachable C w → C w p → Reachable C (updateState empty p w)

/-- The refreshes that are outstanding. -/
def World.outstanding (w : World Groups) : Nat := w.timers.length + w.asked + w.mailbox.length

def DestRefresh.isLazy : DestRefresh → Bool
  | .lazy _ => true
  | .immediate _ => false
  | .none => false

/-- An immediate method is replaced by a lazy one only with no refresh
outstanding, and `none` only with one. -/
def Covered (w : World Groups) (p : Plan) : Prop :=
  match w.destRefresh, p.destRefresh with
  | .immediate _, some (.lazy _) => w.outstanding = 0
  | .none, some (.lazy _) => w.outstanding = 1
  | _, _ => True

/-- One refresh is outstanding with a lazy method, and there are groups. -/
structure Inv (w : World Groups) : Prop where
  outstanding : w.destRefresh.isLazy → w.outstanding = 1
  groups : w.destRefresh.isLazy → w.cpgData ≠ none

variable {empty} {w w' : World Groups} {C : World Groups → Plan → Prop}

theorem inv_init (d : DestRefresh) (Start Delay : Nat) : Inv (init empty d Start Delay) := by
  cases d with
  | lazy o => exact ⟨fun _ => rfl, fun _ => Option.some_ne_none _⟩
  | immediate o => exact ⟨(fun h => by cases h), fun h => by cases h⟩
  | none => exact ⟨(fun h => by cases h), fun h => by cases h⟩

/-- A reply is replaced by a refresh that is asked for, or with another method
by none. -/
theorem outstanding_handleCpgData (g : Groups) : (handleCpgData g w).outstanding =
    if w.destRefresh.isLazy then w.outstanding + 1 else w.outstanding := by
  cases hd : w.destRefresh with
  | lazy o =>
    simp only [handleCpgData, destinationRefresh, hd, World.outstanding, List.length_cons, DestRefresh.isLazy, if_true]
    omega
  | immediate o => simp [handleCpgData, destinationRefresh, hd, World.outstanding, DestRefresh.isLazy]
  | none => simp [handleCpgData, destinationRefresh, hd, World.outstanding, DestRefresh.isLazy]

theorem destRefresh_handleCpgData (g : Groups) : (handleCpgData g w).destRefresh = w.destRefresh := by
  cases hd : w.destRefresh <;> simp [handleCpgData, destinationRefresh, hd]

theorem step_inv (h : Inv w) (hs : Step w w') : Inv w' := by
  cases hs with
  | pass ms =>
    refine ⟨fun hl => ?_, h.groups⟩
    have := h.outstanding hl
    rwa [World.outstanding, List.length_map]
  | @fire l₁ l₂ ht =>
    refine ⟨fun hl => ?_, h.groups⟩
    have := h.outstanding hl
    simp only [World.outstanding, ht, List.length_append, List.length_cons] at this ⊢
    omega
  | @reply n g ha =>
    refine ⟨fun hl => ?_, h.groups⟩
    have := h.outstanding hl
    simp only [World.outstanding, ha, List.length_append, List.length_singleton] at this ⊢
    omega
  | @receive g rest hm =>
    refine ⟨fun hl => ?_, fun _ => Option.some_ne_none g⟩
    rw [destRefresh_handleCpgData] at hl
    have := h.outstanding hl
    rw [outstanding_handleCpgData, if_pos hl]
    simp only [World.outstanding, hm, List.length_cons] at this ⊢
    omega

/-- An update asks for a refresh when an immediate method is replaced by a lazy one. -/
theorem outstanding_updateState (p : Plan) : (updateState empty p w).outstanding =
    match w.destRefresh, p.destRefresh with
    | .immediate _, some (.lazy _) => w.outstanding + 1
    | _, _ => w.outstanding := by
  rw [updateState]
  split
  · rename_i ho hn
    simp only [hn, Option.getD_some, destinationRefresh, World.outstanding, List.length_cons]
    omega
  · rfl

/-- After an update a lazy method has one refresh exactly when the update was covered. -/
theorem updateState_outstanding_iff (h : Inv w) (p : Plan) :
    ((updateState empty p w).destRefresh.isLazy → (updateState empty p w).outstanding = 1) ↔ Covered w p := by
  have hd : (updateState empty p w).destRefresh = p.destRefresh.getD w.destRefresh := rfl
  rw [hd, outstanding_updateState, Covered]
  cases hp : p.destRefresh with
  | none =>
    refine iff_of_true (fun hl => ?_) (by cases w.destRefresh <;> trivial)
    rw [Option.getD_none] at hl
    cases ho : w.destRefresh with
    | lazy o => exact h.outstanding (by rw [ho]; rfl)
    | immediate o =>
      rw [ho] at hl
      cases hl
    | none =>
      rw [ho] at hl
      cases hl
  | some d =>
    rw [Option.getD_some]
    cases d with
    | lazy o =>
      cases ho : w.destRefresh with
      | lazy o' => exact iff_of_true (fun _ => h.outstanding (by rw [ho]; rfl)) trivial
      | immediate o' => exact ⟨fun hk => Nat.succ.inj (hk rfl), fun hk _ => congrArg Nat.succ hk⟩
      | none => exact ⟨fun hk => hk rfl, fun hk _ => hk⟩
    | immediate o => exact iff_of_true (fun hl => by cases hl) (by cases w.destRefresh <;> trivial)
    | none => exact iff_of_true (fun hl => by cases hl) (by cases w.destRefresh <;> trivial)

theorem updateState_inv (h : Inv w) {p : Plan} (hc : Covered w p) : Inv (updateState empty p w) := by
  refine ⟨(updateState_outstanding_iff h p).mpr hc, fun hl => ?_⟩
  have hg : (updateState empty p w).cpgData =
      destinationRefreshGroups empty (updateState empty p w).destRefresh w.cpgData := rfl
  rw [hg]
  cases hd : (updateState empty p w).destRefresh with
  | lazy o => exact Option.some_ne_none _
  | immediate o =>
    rw [hd] at hl
    cases hl
  | none =>
    rw [hd] at hl
    cases hl

theorem Reachable.inv (h : Reachable empty Covered w) : Inv w := by
  induction h with
  | init d Start Delay => exact inv_init d Start Delay
  | step _ hs ih => exact step_inv ih hs
  | update _ hc ih => exact updateState_inv ih hc

/-- As long as every update is covered, one refresh is outstanding with a lazy
method; an update that is not covered leaves none, or two. -/
theorem lazy_outstanding (h : Reachable empty Covered w) :
    (w.destRefresh.isLazy → w.outstanding = 1) ∧ ∀ p,
      ((updateState empty p w).destRefresh.isLazy → (updateState empty p w).outstanding = 1) ↔ Covered w p :=
  ⟨h.inv.outstanding, updateState_outstanding_iff h.inv⟩

/-- An immediate method is replaced by a lazy one, and the first reply is asked for again. -/
theorem lazy_outstanding_refreshed : ∃ w : World Nat, w.cpgData = some 7 ∧ w.timers = [5000] ∧ w.outstanding = 1 := by
  have hinit : Reachable (0 : Nat) Covered _ := .init (.immediate .closest) 500 5000
  have hlazy := hinit.update (p := ⟨some (.lazy .closest), none⟩) rfl
  have hfired := (hlazy.step (.pass 5000)).step (@Step.fire _ _ [] [] rfl)
  have hrefreshed := (hfired.step (.reply 7 rfl)).step (.receive rfl)
  exact ⟨_, rfl, rfl, (lazy_outstanding hrefreshed).1 rfl⟩

/-- With `none` replaced by a lazy method nothing is asked for, and with a lazy
method replaced by an immediate one and back two refreshes are outstanding. -/
theorem not_lazy_outstanding :
    (∃ w : World Nat, Reachable 0 (fun _ _ => True) w ∧ w.destRefresh.isLazy ∧ w.outstanding = 0) ∧
      ∃ w : World Nat, Reachable 0 (fun _ _ => True) w ∧ w.destRefresh.isLazy ∧ w.outstanding = 2 := by
  have hnone : Reachable (0 : Nat) (fun _ _ => True) (init 0 .none 500 5000) := .init .none 500 5000
  have hlazy : Reachable (0 : Nat) (fun _ _ => True) (init 0 (.lazy .closest) 500 5000) :=
    .init (.lazy .closest) 500 5000
  refine ⟨⟨_, hnone.update (p := ⟨some (.lazy .closest), none⟩) trivial, rfl, rfl⟩, ?_⟩
  have himmediate := hlazy.update (p := ⟨some (.immediate .closest), none⟩) trivial
  exact ⟨_, himmediate.update (p := ⟨some (.lazy .closest), none⟩) trivial, rfl, rfl⟩

end CloudI.Services.Refresh
