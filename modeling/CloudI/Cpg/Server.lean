import CloudI.Cpg.Group
import CloudI.Framework.Dict

/-!
# The server of a scope

The state of a `cpg` server and what its requests and messages do to it. The
groups are kept in a dictionary module given by the configuration (`D`), the
groups of each pid in a dictionary of the standard library. The callbacks that
are told of joins and leaves, and the monitors of the pids, are not kept.
-/

namespace CloudI.Cpg

variable {Name Pid Node : Type} [LinearOrder Name] [LinearOrder Pid] [DecidableEq Node]

/-- The record `state`, without the scope, the listen type and the callbacks. -/
structure State (D : DictI Name (CpgData Pid)) where
  groups : D.Data
  pids : Dict Pid (List Name)

/-- The state after `init/1`. -/
def State.init (D : DictI Name (CpgData Pid)) : State D := ⟨D.new, Dict.new⟩

variable {D : DictI Name (CpgData Pid)}

/-! ## Groups -/

/-- `create_group/2` -/
def createGroup (G : Name) (s : State D) : Except Exn (State D) := do
  return { s with groups := ← D.update4 G .ok {} s.groups }

/-- `delete_group/2` -/
def deleteGroup (G : Name) (s : State D) : Except Exn (State D) := do
  match ← D.find G s.groups with
  | none => return s
  | some d =>
    if d.history = [] then return { s with groups := ← D.erase G s.groups }
    else
      let NewPids ← (d.localPids ++ d.remotePids).foldlM
        (fun NextPids P => Dict.update P (·.erase G) NextPids) s.pids
      return { groups := ← D.erase G s.groups, pids := NewPids }

/-- A group that lost its last member is erased, and another one stored. -/
def putOrErase (G : Name) (d : CpgData Pid) (g : D.Data) : Except Exn D.Data :=
  if d.history = [] then D.erase G g else D.store G d g

/-- The group leaves the list of a pid that is no longer a member. -/
def updatePids (G : Name) (P : Pid) (Member : Bool) (pids : Dict Pid (List Name)) :
    Except Exn (Dict Pid (List Name)) :=
  if Member then .ok pids else pids.update P (·.erase G)

section Members

variable (node : Pid → Node) (here : Node)

/-- `join_group/4` -/
def joinGroup (G : Name) (P : Pid) (s : State D) : Except Exn (State D) := do
  let NewGroupsData ← D.update4 G (fun d => .ok (joinData (node P = here) P d))
    (joinInitial (node P = here) P) s.groups
  return { groups := NewGroupsData, pids := Dict.update4 P (umerge · [G]) [G] s.pids }

/-- `leave_valid/3` -/
def leaveValid (G : Name) (P : Pid) (pids : Dict Pid (List Name)) : Bool :=
  match pids P with
  | none => false
  | some GroupNameList => G ∈ GroupNameList

/-- `leave_counts_valid/3`; a count of 0 stands for any term that is not a positive integer. -/
def leaveCountsValid (Counts : List (Name × Nat)) (P : Pid) (pids : Dict Pid (List Name)) : Bool :=
  match pids P with
  | none => false
  | some GroupNameList => Counts.all fun (G, Count) => 0 < Count && decide (G ∈ GroupNameList)

/-- `leave_group_completely/4` -/
def leaveGroupCompletely (G : Name) (P : Pid) (s : State D) : Except Exn (State D) := do
  let NewGroupData := leaveGroupCompletelyData (node P = here) P (← D.fetch G s.groups)
  let NewGroupsData ← putOrErase G NewGroupData s.groups
  return { groups := NewGroupsData, pids := ← s.pids.update P (·.erase G) }

/-- `leave_group_count/5` -/
def leaveGroupCount (Count : Nat) (G : Name) (P : Pid) (s : State D) : Except Exn (State D) := do
  let NewGroupData ← leaveGroupCountData (node P = here) P Count (← D.fetch G s.groups)
  let NewGroupsData ← putOrErase G NewGroupData s.groups
  return { groups := NewGroupsData, pids := ← updatePids G P (P ∈ NewGroupData.history) s.pids }

/-- `leave_group/4` -/
def leaveGroup (G : Name) (P : Pid) (s : State D) : Except Exn (State D) := leaveGroupCount node here 1 G P s

/-- `leave_pid_completely/4` -/
def leavePidCompletely : List Name → Pid → State D → Except Exn (State D)
  | [], P, s => .ok { s with pids := s.pids.erase P }
  | G :: GroupNameList, P, s => do leavePidCompletely GroupNameList P (← leaveGroupCompletely node here G P s)

/-- `member_died/3` -/
def memberDied (P : Pid) (s : State D) : Except Exn (State D) :=
  match s.pids P with
  | none => .ok s
  | some GroupNameList => leavePidCompletely node here GroupNameList P s

/-! ## Exchange -/

/-- What `store/2` does with one group of the external state. -/
def storeGroup (G : Name) (V1 : CpgData Pid) (T : D.Data) : Except Exn D.Data := do
  if ← D.isKey G T then
    D.update3 G (storeConflict node here V1.history (usort V1.history)) T
  else
    D.store G (storeNewGroup node here V1.history.reverse { history := V1.history }) T

/-- `store/2` -/
def store (external s : State D) : Except Exn (State D) := do
  let NewGroupsData ← D.fold (storeGroup node here) s.groups external.groups
  return { groups := NewGroupsData, pids := Dict.merge (fun _ V1 V2 => umerge V2 V1) external.pids s.pids }

/-! ## Requests and messages -/

/-- The requests on members, which are calls and casts alike. -/
inductive Request (Name Pid : Type) where
  | join (G : Name) (P : Pid)
  | leave (P : Pid)
  | leaveGroup (G : Name) (P : Pid)
  | leaveCounts (Counts : List (Name × Nat)) (P : Pid)
deriving DecidableEq

/-- Serve a request: the reply (`true` for `ok`) and the new state. -/
def handleRequest (r : Request Name Pid) (s : State D) : Except Exn (Bool × State D) :=
  match r with
  | .join G P => do return (true, ← joinGroup node here G P s)
  | .leave P =>
    match s.pids P with
    | some GroupNameList => do return (true, ← leavePidCompletely node here GroupNameList P s)
    | none => .ok (false, s)
  | .leaveGroup G P =>
    if leaveValid G P s.pids then do return (true, ← Cpg.leaveGroup node here G P s) else .ok (false, s)
  | .leaveCounts Counts P =>
    if leaveCountsValid Counts P s.pids then do
      return (true, ← Counts.foldlM (fun s (G, Count) => leaveGroupCount node here Count G P s) s)
    else .ok (false, s)

/-- What a server does on its own: the other calls, and a monitored pid that died. -/
inductive Op (Name Pid : Type) where
  | create (G : Name)
  | delete (G : Name)
  | request (r : Request Name Pid)
  | down (P : Pid)

def Op.apply (op : Op Name Pid) (s : State D) : Except Exn (State D) :=
  match op with
  | create G => createGroup G s
  | delete G => deleteGroup G s
  | request r => (·.2) <$> handleRequest node here r s
  | down P => memberDied node here P s

end Members

end CloudI.Cpg
