import CloudI.Framework.Lists

/-!
# Node tracking of `cloudi_core_i_nodes`

The process keeps the alive and the dead nodes, the subscription of
`net_kernel`, and the target of the logger's redirect. `System` is its state
with the messages and the subscriptions around it, and `History` what the
configurations so far ask for. `Tracking` is what is meant of both, and
`nodes_tracked` says that it holds in every state of a run whose events meet
`Event.Meets`: a change of `listen` is not stored, connected nodes are kept by
a reconfigure, a node that is dropped comes back to the dead ones when it goes
down, and a redirect to a node that is not alive leaves the last target.
-/

namespace CloudI.Core.Nodes

/-- `visible` or `all` -/
inductive Listen
  | visible
  | all
deriving DecidableEq

/-- `visible` or `hidden` -/
inductive Connect
  | visible
  | hidden
deriving DecidableEq

variable {Node : Type} [LinearOrder Node]

/-! ## The process -/

/-- What a configuration has for the nodes. -/
structure Config (Node : Type) where
  redirect : Option Node
  nodes : List Node
  listen : Listen
  connect : Connect

structure State (Node : Type) where
  nodesAlive : List Node
  nodesDead : List Node
  nodes : List Node
  loggingRedirect : Option Node
  listen : Listen
  connect : Connect

/-- What an event makes `net_kernel` do. -/
inductive Action (Node : Type)
  | disconnect (node : Node)
  | connect (connect : Connect) (node : Node)

/-- The process, and what is around it. -/
structure System (Node : Type) where
  state : State Node
  /-- the subscriptions of `net_kernel:monitor_nodes/2` -/
  subscriptions : List Listen
  /-- the messages `logging_redirect_set` to the process, the first one first -/
  casts : List (Option Node)
  /-- the messages `redirect_update` to the logger, the first one first -/
  updates : List (Option Node)
  /-- where the logger redirects to -/
  target : Option Node
  /-- of the last event -/
  actions : List (Action Node)

/-- The nodes that `erlang:nodes/0` and `erlang:nodes(connected)` give. -/
structure Connected (Node : Type) where
  visible : List Node
  connected : List Node

inductive Event (Node : Type)
  | reconfigure (config : Config Node) (connected : Connected Node)
  | nodeup (node : Node)
  | nodedown (node : Node)
  /-- a call of `logging_redirect_set/1` -/
  | redirectSet (redirect : Option Node)
  /-- the process receives the first of these messages -/
  | redirectReceive
  /-- the logger receives the first of its messages -/
  | redirectUpdate
  | reconnect

/-- `cloudi_lists:delete_checked/2`, with `none` for `false` -/
def deleteChecked (N : Node) (L : List Node) : Option (List Node) := if N ∈ L then some (L.erase N) else none

/-- `net_kernel:monitor_nodes/2`. All the subscriptions of a kind end at once. -/
def monitorNodes (Flag : Bool) (L : Listen) (subscriptions : List Listen) : List Listen :=
  if Flag then L :: subscriptions else subscriptions.filter (· ≠ L)

variable (self : Node)

/-- The node to redirect to, other than the own one. -/
def newNodeLogger (NodeLogger : Option Node) : Option Node := if NodeLogger = some self then none else NodeLogger

/-- `init/1`. The logger has started with the same configuration. -/
def init (config : Config Node) : System Node where
  state :=
    { nodesAlive := []
      nodesDead := config.nodes
      nodes := config.nodes
      loggingRedirect := newNodeLogger self config.redirect
      listen := config.listen
      connect := config.connect }
  subscriptions := monitorNodes true config.listen []
  casts := []
  updates := []
  target := newNodeLogger self config.redirect
  actions := []

omit self

/-- The nodes that are connected. -/
def connectedNodes (c : Connect) (connected : Connected Node) : List Node :=
  match c with
  | .visible => connected.visible
  | .hidden => connected.connected

/-- A step of the fold over the alive nodes: the nodes that are left, and the nodes that are disconnected. -/
def reconfigureStep (p : List Node × List (Action Node)) (N : Node) : List Node × List (Action Node) :=
  match deleteChecked N p.1 with
  | none => (p.1, .disconnect N :: p.2)
  | some NewL => (NewL, p.2)

/-- `handle_call({reconfigure, _}, _, _)` -/
def reconfigure (config : Config Node) (connected : Connected Node) (s : System Node) : System Node :=
  let NewNodes := usort (config.nodes ++ connectedNodes config.connect connected)
  let (NewNodesDead, disconnects) := s.state.nodesAlive.foldl reconfigureStep (NewNodes, [])
  let NewNodesAlive := NewNodes.filter (· ∉ NewNodesDead)
  { s with
    casts := s.casts ++ [config.redirect]
    subscriptions :=
      if s.state.listen ≠ config.listen then
        monitorNodes true config.listen (monitorNodes false s.state.listen s.subscriptions)
      else s.subscriptions
    actions := disconnects.reverse
    state :=
      { s.state with
        nodesAlive := NewNodesAlive
        nodesDead := NewNodesDead
        nodes := NewNodes
        connect := config.connect } }

/-- `handle_cast({logging_redirect_set, _}, _)` -/
def redirectReceive (NodeLogger : Option Node) (self : Node) (s : System Node) : System Node :=
  let NewNodeLogger := newNodeLogger self NodeLogger
  if NewNodeLogger ≠ s.state.loggingRedirect then
    { s with
      updates :=
        match NewNodeLogger with
        | none => s.updates ++ [none]
        | some N => if N ∈ s.state.nodesAlive then s.updates ++ [some N] else s.updates
      state := { s.state with loggingRedirect := NewNodeLogger } }
  else s

/-- `handle_info({nodeup, _, _}, _)` -/
def nodeup (N : Node) (s : System Node) : System Node :=
  { s with
    updates := if some N = s.state.loggingRedirect then s.updates ++ [s.state.loggingRedirect] else s.updates
    actions := []
    state :=
      { s.state with
        nodesAlive := umerge s.state.nodesAlive [N]
        nodesDead := s.state.nodesDead.erase N
        nodes := umerge s.state.nodes [N] } }

/-- `handle_info({nodedown, _, _}, _)` -/
def nodedown (N : Node) (s : System Node) : System Node :=
  { s with
    updates := if some N = s.state.loggingRedirect then s.updates ++ [none] else s.updates
    actions := []
    state :=
      { s.state with
        nodesAlive := s.state.nodesAlive.erase N
        nodesDead := umerge s.state.nodesDead [N] } }

/-- `handle_info(reconnect, _)` -/
def reconnect (s : System Node) : System Node :=
  { s with actions := s.state.nodesDead.map (.connect s.state.connect) }

def handle (self : Node) : Event Node → System Node → System Node
  | .reconfigure config connected, s => reconfigure config connected s
  | .nodeup N, s => nodeup N s
  | .nodedown N, s => nodedown N s
  | .redirectSet NodeLogger, s => { s with casts := s.casts ++ [NodeLogger], actions := [] }
  | .redirectReceive, s =>
    match s.casts with
    | [] => s
    | NodeLogger :: casts => redirectReceive NodeLogger self { s with casts := casts, actions := [] }
  | .redirectUpdate, s =>
    match s.updates with
    | [] => s
    | Node :: updates => { s with target := Node, updates := updates, actions := [] }
  | .reconnect, s => reconnect s

/-! ## What is meant -/

/-- What the configurations so far ask for. -/
structure History (Node : Type) where
  /-- the last configuration -/
  config : Config Node
  /-- the nodes that were dropped from a configuration, and not configured since -/
  dropped : Set Node
  /-- the nodes that the last event dropped while they were up -/
  owed : Set Node

/-- The nodes that a reconfigure drops. -/
def History.drops (h : History Node) (config : Config Node) : Set Node := {N | N ∈ h.config.nodes ∧ N ∉ config.nodes}

def History.next (h : History Node) (s : System Node) : Event Node → History Node
  | .reconfigure config connected =>
    { config := config
      dropped := {N | (N ∈ h.dropped ∨ N ∈ h.config.nodes) ∧ N ∉ config.nodes}
      owed := {N | N ∈ h.drops config ∧ (N ∈ s.state.nodesAlive ∨ N ∈ connectedNodes config.connect connected)} }
  | _ => { h with owed := ∅ }

/-- The target of a redirect when the alive nodes are known. -/
def State.redirectTo (s : State Node) : Option Node := s.loggingRedirect.filter (· ∈ s.nodesAlive)

structure Tracking (h : History Node) (s : System Node) : Prop where
  alive : Sorted s.state.nodesAlive
  dead : Sorted s.state.nodesDead
  disjoint : s.state.nodesAlive.Disjoint s.state.nodesDead
  union : ∀ N, N ∈ s.state.nodes ↔ N ∈ s.state.nodesAlive ∨ N ∈ s.state.nodesDead
  subscribed : s.subscriptions = [h.config.listen]
  redirected : s.casts = [] → s.updates = [] → s.target = s.state.redirectTo
  disconnected : ∀ N ∈ h.owed, .disconnect N ∈ s.actions
  abandoned : ∀ N ∈ h.dropped, ∀ c, .connect c N ∉ s.actions

/-! ## The conditions -/

/-- The target of the logger after the messages to it. -/
def System.finalTarget (s : System Node) : Option Node := s.updates.getLast?.getD s.target

/-- What an event has to meet in the state before it. -/
def Event.Meets (self : Node) (h : History Node) (s : System Node) : Event Node → Prop
  -- `listen` was not changed before, and no connected node is a dropped one
  | .reconfigure config connected => s.state.listen = h.config.listen ∧
      ∀ N ∈ connectedNodes config.connect connected, N ∈ h.dropped ∨ N ∈ h.config.nodes → N ∈ config.nodes
  -- the node is one that is monitored, and was not dropped
  | .nodedown N => N ∈ s.state.nodes ∧ N ∉ h.dropped
  -- the last message redirects to nothing or an alive node, or leaves a target that is right
  | .redirectReceive => ∀ NodeLogger, s.casts = [NodeLogger] →
      if newNodeLogger self NodeLogger = s.state.loggingRedirect then s.finalTarget = s.state.redirectTo
      else ∀ N, newNodeLogger self NodeLogger = some N → N ∈ s.state.nodesAlive ∨ s.finalTarget = none
  | _ => True

/-- A run from `init`, with what is asked for so far. -/
inductive Run (self : Node) : History Node → System Node → Prop
  | start {config : Config Node} : Sorted config.nodes → newNodeLogger self config.redirect = none →
      Run self ⟨config, ∅, ∅⟩ (init self config)
  | step {h : History Node} {s : System Node} {e : Event Node} : Run self h s → e.Meets self h s →
      Run self (h.next s e) (handle self e s)

/-! ## Lists of nodes -/

/-- The fold takes the alive nodes out of the new ones, and disconnects those that are not there. -/
theorem foldl_reconfigureStep {alive L : List Node} (ha : alive.Nodup) (hL : Sorted L) (D : List (Action Node)) :
    Sorted (alive.foldl reconfigureStep (L, D)).1 ∧
    (∀ N, N ∈ (alive.foldl reconfigureStep (L, D)).1 ↔ N ∈ L ∧ N ∉ alive) ∧
    (∀ N, .disconnect N ∈ (alive.foldl reconfigureStep (L, D)).2 ↔ .disconnect N ∈ D ∨ (N ∈ alive ∧ N ∉ L)) ∧
    ∀ N c, .connect c N ∈ (alive.foldl reconfigureStep (L, D)).2 ↔ .connect c N ∈ D := by
  induction alive generalizing L D with
  | nil => simp [hL]
  | cons M alive ih =>
    obtain ⟨hM, ha⟩ := List.nodup_cons.mp ha
    rw [List.foldl_cons, reconfigureStep, deleteChecked]
    dsimp only
    by_cases hmem : M ∈ L
    · rw [if_pos hmem]
      obtain ⟨hsorted, hin, hdisconnect, hconnect⟩ := ih ha (hL.delete M) D
      refine ⟨hsorted, fun N => ?_, fun N => ?_, hconnect⟩
      · rw [hin, mem_delete hL, List.mem_cons, not_or]
        tauto
      · rw [hdisconnect, mem_delete hL, List.mem_cons]
        refine or_congr_right ⟨fun h => ⟨.inr h.1, fun hN => ?_⟩, fun h => ⟨?_, fun hN => h.2 hN.2⟩⟩
        · refine h.2 ⟨?_, hN⟩
          rintro rfl
          exact hM h.1
        · refine h.1.resolve_left ?_
          rintro rfl
          exact h.2 hmem
    · rw [if_neg hmem]
      obtain ⟨hsorted, hin, hdisconnect, hconnect⟩ := ih ha hL (.disconnect M :: D)
      refine ⟨hsorted, fun N => ?_, fun N => ?_, fun N c => ?_⟩
      · rw [hin, List.mem_cons, not_or]
        refine and_congr_right fun hN => (and_iff_right ?_).symm
        rintro rfl
        exact hmem hN
      · rw [hdisconnect, List.mem_cons, List.mem_cons, Action.disconnect.injEq]
        constructor
        · rintro ((rfl | h) | h)
          · exact .inr ⟨.inl rfl, hmem⟩
          · exact .inl h
          · exact .inr ⟨.inr h.1, h.2⟩
        · rintro (h | ⟨rfl | h, hN⟩)
          · exact .inl (.inr h)
          · exact .inl (.inl rfl)
          · exact .inr ⟨h, hN⟩
      · rw [hconnect, List.mem_cons]
        simp

theorem redirectTo_congr {a b : State Node} (hr : a.loggingRedirect = b.loggingRedirect)
    (h : ∀ N, b.loggingRedirect = some N → (N ∈ a.nodesAlive ↔ N ∈ b.nodesAlive)) : a.redirectTo = b.redirectTo := by
  unfold State.redirectTo
  rw [hr]
  cases hb : b.loggingRedirect with
  | none => rfl
  | some N => simp only [Option.filter_some, h N hb]

/-! ## The invariant -/

variable {self : Node} {h : History Node} {s : System Node}

/-- What an event keeps: the target is the one that the messages to the logger leave, and no dropped node is a dead
one. -/
structure Invariant (h : History Node) (s : System Node) : Prop where
  alive : Sorted s.state.nodesAlive
  dead : Sorted s.state.nodesDead
  disjoint : s.state.nodesAlive.Disjoint s.state.nodesDead
  union : ∀ N, N ∈ s.state.nodes ↔ N ∈ s.state.nodesAlive ∨ N ∈ s.state.nodesDead
  subscribed : s.subscriptions = [h.config.listen]
  redirected : s.casts = [] → s.finalTarget = s.state.redirectTo
  disconnected : ∀ N ∈ h.owed, .disconnect N ∈ s.actions
  abandoned : ∀ N ∈ h.dropped, ∀ c, .connect c N ∉ s.actions
  gone : ∀ N ∈ h.dropped, N ∉ s.state.nodesDead

theorem Invariant.tracking (hi : Invariant h s) : Tracking h s where
  alive := hi.alive
  dead := hi.dead
  disjoint := hi.disjoint
  union := hi.union
  subscribed := hi.subscribed
  redirected := fun hcasts hupdates => by
    rw [← hi.redirected hcasts, System.finalTarget, hupdates]
    rfl
  disconnected := hi.disconnected
  abandoned := hi.abandoned

theorem invariant_init {config : Config Node} (hn : Sorted config.nodes)
    (hr : newNodeLogger self config.redirect = none) : Invariant ⟨config, ∅, ∅⟩ (init self config) where
  alive := sorted_nil
  dead := hn
  disjoint := List.disjoint_nil_left _
  union := fun N => by simp [init]
  subscribed := rfl
  redirected := fun _ => by simp [init, System.finalTarget, State.redirectTo, hr]
  disconnected := fun _ => nofun
  abandoned := fun _ => nofun
  gone := fun _ => nofun

theorem Invariant.reconfigure (hi : Invariant h s) {config : Config Node} {connected : Connected Node}
    (hm : (Event.reconfigure config connected).Meets self h s) :
    Invariant (h.next s (.reconfigure config connected)) (reconfigure config connected s) := by
  obtain ⟨hlisten, hconnected⟩ := hm
  obtain ⟨hsorted, hin, hdisconnect, hconnect⟩ := foldl_reconfigureStep hi.alive.nodup
    (usort_sorted (config.nodes ++ connectedNodes config.connect connected)) []
  have hnew (N : Node) : N ∈ usort (config.nodes ++ connectedNodes config.connect connected) ↔
      N ∈ config.nodes ∨ N ∈ connectedNodes config.connect connected := by
    rw [mem_usort, List.mem_append]
  have hdrop (N : Node) (hN : (N ∈ h.dropped ∨ N ∈ h.config.nodes) ∧ N ∉ config.nodes) :
      N ∉ usort (config.nodes ++ connectedNodes config.connect connected) := by
    rw [hnew, not_or]
    exact ⟨hN.2, fun hup => hN.2 (hconnected N hup hN.1)⟩
  refine ⟨List.Pairwise.filter _ (usort_sorted _), hsorted, fun N hN hdead => ?_, fun N => ?_, ?_, fun hcasts => ?_,
    fun N hN => ?_, fun N hN c hmem => ?_, fun N hN hdead => ?_⟩
  · exact absurd hdead (of_decide_eq_true (List.mem_filter.mp hN).2)
  · show N ∈ usort _ ↔ N ∈ (usort _).filter _ ∨ _
    rw [List.mem_filter, decide_eq_true_iff]
    have := (hin N).mp
    tauto
  · show (if s.state.listen ≠ config.listen then
        monitorNodes true config.listen (monitorNodes false s.state.listen s.subscriptions)
      else s.subscriptions) = [config.listen]
    rw [hi.subscribed, ← hlisten]
    split_ifs with hne
    · simp [monitorNodes]
    · rw [not_not.mp hne]
  · exact absurd hcasts (List.append_ne_nil_of_right_ne_nil _ (List.cons_ne_nil _ _))
  · obtain ⟨⟨hold, hnot⟩, hup⟩ := hN
    refine List.mem_reverse.mpr ((hdisconnect N).mpr (.inr ⟨?_, hdrop N ⟨.inr hold, hnot⟩⟩))
    exact hup.resolve_right fun hc => hnot (hconnected N hc (.inr hold))
  · exact absurd ((hconnect N c).mp (List.mem_reverse.mp hmem)) List.not_mem_nil
  · exact hdrop N hN ((hin N).mp hdead).1

omit [LinearOrder Node] in
/-- The messages to the logger are appended to. -/
theorem finalTarget_append (updates : List (Option Node)) (target update : Option Node) :
    (updates ++ [update]).getLast?.getD target = update := by
  rw [List.getLast?_concat, Option.getD_some]

theorem Invariant.nodeup (hi : Invariant h s) (N : Node) : Invariant (h.next s (.nodeup N)) (nodeup N s) where
  alive := umerge_sorted hi.alive (sorted_singleton N)
  dead := hi.dead.delete N
  disjoint := fun M hM hdead => by
    obtain ⟨hne, hdead⟩ := (mem_delete hi.dead).mp hdead
    obtain hM | hM := mem_umerge.mp hM
    · exact hi.disjoint hM hdead
    · exact hne (List.mem_singleton.mp hM)
  union := fun M => by
    show M ∈ umerge _ _ ↔ M ∈ umerge _ _ ∨ M ∈ List.erase _ _
    rw [mem_umerge, mem_umerge, mem_delete hi.dead, hi.union, List.mem_singleton]
    tauto
  subscribed := hi.subscribed
  redirected := fun hcasts => by
    unfold System.finalTarget Nodes.nodeup
    dsimp only
    split_ifs with hN
    · rw [finalTarget_append, State.redirectTo, ← hN, Option.filter_some, if_pos]
      exact decide_eq_true (mem_umerge.mpr (.inr (List.mem_singleton_self N)))
    · have hold := hi.redirected hcasts
      unfold System.finalTarget at hold
      rw [hold]
      refine Eq.symm (redirectTo_congr (b := s.state) rfl fun M hM => ?_)
      dsimp only at hM ⊢
      rw [mem_umerge, List.mem_singleton, or_iff_left]
      rintro rfl
      exact hN hM.symm
  disconnected := fun _ => nofun
  abandoned := fun _ _ _ => nofun
  gone := fun M hM hdead => hi.gone M hM ((mem_delete hi.dead).mp hdead).2

theorem Invariant.nodedown (hi : Invariant h s) {N : Node} (hm : (Event.nodedown N).Meets self h s) :
    Invariant (h.next s (.nodedown N)) (nodedown N s) where
  alive := hi.alive.delete N
  dead := umerge_sorted hi.dead (sorted_singleton N)
  disjoint := fun M hM hdead => by
    obtain ⟨hne, hM⟩ := (mem_delete hi.alive).mp hM
    obtain hdead | hdead := mem_umerge.mp hdead
    · exact hi.disjoint hM hdead
    · exact hne (List.mem_singleton.mp hdead)
  union := fun M => by
    show M ∈ s.state.nodes ↔ M ∈ List.erase _ _ ∨ M ∈ umerge _ _
    rw [mem_umerge, mem_delete hi.alive, hi.union, List.mem_singleton]
    have hN := (hi.union N).mp hm.1
    by_cases hMN : M = N
    · subst hMN
      tauto
    · tauto
  subscribed := hi.subscribed
  redirected := fun hcasts => by
    unfold System.finalTarget Nodes.nodedown
    dsimp only
    split_ifs with hN
    · rw [finalTarget_append, State.redirectTo, ← hN, Option.filter_some, if_neg]
      rw [decide_eq_true_iff, mem_delete hi.alive]
      exact fun hmem => hmem.1 rfl
    · have hold := hi.redirected hcasts
      unfold System.finalTarget at hold
      rw [hold]
      refine Eq.symm (redirectTo_congr (b := s.state) rfl fun M hM => ?_)
      dsimp only at hM ⊢
      rw [mem_delete hi.alive, and_iff_right]
      rintro rfl
      exact hN hM.symm
  disconnected := fun _ => nofun
  abandoned := fun _ _ _ => nofun
  gone := fun M hM hdead => by
    obtain hdead | hdead := mem_umerge.mp hdead
    · exact hi.gone M hM hdead
    · rw [List.mem_singleton.mp hdead] at hM
      exact hm.2 hM

/-- A redirect that is received changes nothing else. -/
theorem redirectReceive_state (self : Node) (NodeLogger : Option Node) (s : System Node) :
    (redirectReceive NodeLogger self s).state =
        { s.state with loggingRedirect := newNodeLogger self NodeLogger } ∧
      (redirectReceive NodeLogger self s).subscriptions = s.subscriptions ∧
      (redirectReceive NodeLogger self s).casts = s.casts ∧
      (redirectReceive NodeLogger self s).actions = s.actions := by
  unfold redirectReceive
  dsimp only
  split_ifs with hne
  · exact ⟨rfl, rfl, rfl, rfl⟩
  · rw [not_not.mp hne]
    exact ⟨rfl, rfl, rfl, rfl⟩

/-- The target after a redirect that is received. -/
theorem redirectReceive_target {NodeLogger : Option Node}
    (hm : if newNodeLogger self NodeLogger = s.state.loggingRedirect then s.finalTarget = s.state.redirectTo
      else ∀ N, newNodeLogger self NodeLogger = some N → N ∈ s.state.nodesAlive ∨ s.finalTarget = none) :
    (redirectReceive NodeLogger self s).finalTarget = (redirectReceive NodeLogger self s).state.redirectTo := by
  unfold redirectReceive
  dsimp only
  by_cases heq : newNodeLogger self NodeLogger = s.state.loggingRedirect
  · rw [if_pos heq] at hm
    rw [if_neg (not_not.mpr heq)]
    exact hm
  · rw [if_neg heq] at hm
    rw [if_pos heq]
    unfold System.finalTarget State.redirectTo at *
    dsimp only
    cases hnew : newNodeLogger self NodeLogger with
    | none =>
      dsimp only
      rw [finalTarget_append]
      rfl
    | some N =>
      dsimp only
      rw [Option.filter_some]
      by_cases hmem : N ∈ s.state.nodesAlive
      · rw [if_pos hmem, finalTarget_append, if_pos (decide_eq_true hmem)]
      · rw [if_neg hmem, if_neg (by simpa using hmem)]
        exact (hm N hnew).resolve_left hmem

theorem Invariant.redirectReceive (hi : Invariant h s) (hm : Event.redirectReceive.Meets self h s) :
    Invariant (h.next s .redirectReceive) (handle self .redirectReceive s) := by
  unfold handle
  dsimp only
  cases hc : s.casts with
  | nil =>
    exact { hi with
      disconnected := fun _ => nofun }
  | cons NodeLogger casts =>
    dsimp only
    obtain ⟨hstate, hsubscriptions, hcasts, hactions⟩ :=
      redirectReceive_state self NodeLogger { s with casts := casts, actions := [] }
    refine ⟨?_, ?_, ?_, ?_, ?_, fun hnil => ?_, fun _ => nofun, fun _ _ _ => ?_, ?_⟩
    · rw [hstate]
      exact hi.alive
    · rw [hstate]
      exact hi.dead
    · rw [hstate]
      exact hi.disjoint
    · rw [hstate]
      exact hi.union
    · rw [hsubscriptions]
      exact hi.subscribed
    · rw [hcasts] at hnil
      dsimp only at hnil
      subst hnil
      exact redirectReceive_target (hm NodeLogger hc)
    · rw [hactions]
      nofun
    · rw [hstate]
      exact hi.gone

theorem Invariant.redirectUpdate (hi : Invariant h s) :
    Invariant (h.next s .redirectUpdate) (handle self .redirectUpdate s) := by
  unfold handle
  dsimp only
  cases hu : s.updates with
  | nil =>
    exact { hi with
      disconnected := fun _ => nofun }
  | cons update updates =>
    exact { hi with
      redirected := fun hcasts => by
        have hold := hi.redirected hcasts
        unfold System.finalTarget at hold ⊢
        rw [hu, List.getLast?_cons, Option.getD_some] at hold
        exact hold
      disconnected := fun _ => nofun
      abandoned := fun _ _ _ => nofun }

theorem Invariant.redirectSet (hi : Invariant h s) (NodeLogger : Option Node) :
    Invariant (h.next s (.redirectSet NodeLogger)) (handle self (.redirectSet NodeLogger) s) :=
  { hi with
    redirected := fun hcasts => absurd hcasts (List.append_ne_nil_of_right_ne_nil _ (List.cons_ne_nil _ _))
    disconnected := fun _ => nofun
    abandoned := fun _ _ _ => nofun }

theorem Invariant.reconnect (hi : Invariant h s) : Invariant (h.next s .reconnect) (reconnect s) :=
  { hi with
    disconnected := fun _ => nofun
    abandoned := fun N hN c hmem => by
      obtain ⟨M, hM, heq⟩ := List.mem_map.mp hmem
      cases heq
      exact hi.gone N hN hM }

/-- Every event that meets its condition keeps the invariant. -/
theorem Invariant.handle (hi : Invariant h s) {e : Event Node} (hm : e.Meets self h s) :
    Invariant (h.next s e) (handle self e s) := by
  cases e with
  | reconfigure config connected => exact hi.reconfigure hm
  | nodeup N => exact hi.nodeup N
  | nodedown N => exact hi.nodedown hm
  | redirectSet NodeLogger => exact hi.redirectSet NodeLogger
  | redirectReceive => exact hi.redirectReceive hm
  | redirectUpdate => exact hi.redirectUpdate
  | reconnect => exact hi.reconnect

theorem Run.invariant (hrun : Run self h s) : Invariant h s := by
  induction hrun with
  | start hn hr => exact invariant_init hn hr
  | step _ hm ih => exact ih.handle hm

/-- In every state of a run whose events meet their conditions the nodes, the subscription, the redirect and the
dropped nodes are as they are meant to be. -/
theorem nodes_tracked (hrun : Run self h s) : Tracking h s := hrun.invariant.tracking

/-- Two nodes that the node 0 is configured with. -/
def twoNodes : Config Nat := ⟨none, [1, 2], .visible, .visible⟩

/-- One of them comes up, is redirected to and goes down, and the other one is dropped. -/
theorem nodes_tracked_up : ∃ (h : History Nat) (s : System Nat), s.state.nodesAlive = [] ∧ s.state.nodesDead = [1, 3] ∧
    s.target = some 1 ∧ 2 ∈ h.dropped ∧ Tracking h s := by
  have h₀ : Run 0 ⟨twoNodes, ∅, ∅⟩ (init 0 twoNodes) := .start (by simp [Sorted, twoNodes]) rfl
  have h₁ : Run 0 _ _ := .step (e := .nodeup 1) h₀ trivial
  have h₂ : Run 0 _ _ := .step (e := .redirectSet (some 1)) h₁ trivial
  have h₃ : Run 0 _ _ := .step (e := .redirectReceive) h₂ fun N hN => by
    cases hN
    exact fun M hM => .inl (by cases hM; decide +kernel)
  have h₄ : Run 0 _ _ := .step (e := .redirectUpdate) h₃ trivial
  have h₅ : Run 0 _ _ := .step (e := .nodedown 1) h₄ ⟨by decide +kernel, by simp [History.next]⟩
  have h₆ : Run 0 _ _ := .step (e := .reconfigure { twoNodes with nodes := [1, 3] } ⟨[], []⟩) h₅
    ⟨by decide +kernel, nofun⟩
  exact ⟨_, _, by decide +kernel, by decide +kernel, by decide +kernel, by simp [History.next, twoNodes],
    nodes_tracked h₆⟩

/-- After a change of `listen` and back the subscription is still the other one, a dropped node that is connected is
connected to again, and the logger starts with a redirect to a node that is not alive. -/
theorem nodes_untracked :
    (reconfigure twoNodes ⟨[], []⟩ (reconfigure { twoNodes with listen := .all } ⟨[], []⟩
      (init 0 twoNodes))).subscriptions = [.all] ∧
    (reconnect (reconfigure { twoNodes with nodes := [1] } ⟨[2], [2]⟩ (init 0 twoNodes))).actions =
      [.connect .visible 1, .connect .visible 2] ∧
    (init 0 { twoNodes with redirect := some 1 }).target = some 1 ∧
    (init 0 { twoNodes with redirect := some 1 }).state.redirectTo = none :=
  ⟨rfl, rfl, rfl, rfl⟩

end CloudI.Core.Nodes
