import Mathlib.Logic.Function.Basic
import CloudI.Cpg.Server

/-!
# Join counts

What a server is for: it counts how often each pid has joined each group.
`effect` is what a request does to the counts, and what the server does on its
own is `leaveAll`, `deleteGroup` and `exchange`.
-/

namespace CloudI.Cpg

variable {Name Pid : Type} [LinearOrder Name] [LinearOrder Pid]

/-- How often each pid has joined each group. -/
abbrev JoinCounts (Name Pid : Type) := Name → Pid → Nat

namespace JoinCounts

/-- Give the pid another count in the group. -/
def set (m : JoinCounts Name Pid) (G : Name) (P : Pid) (n : Nat) : JoinCounts Name Pid :=
  fun G' P' => if G' = G ∧ P' = P then n else m G' P'

/-- Join once. -/
def join (m : JoinCounts Name Pid) (G : Name) (P : Pid) : JoinCounts Name Pid := m.set G P (m G P + 1)

/-- Leave `Count` times, or completely. -/
def leave (m : JoinCounts Name Pid) (Count : Nat) (G : Name) (P : Pid) : JoinCounts Name Pid :=
  m.set G P (m G P - Count)

/-- Leave every group completely. -/
def leaveAll (m : JoinCounts Name Pid) (P : Pid) : JoinCounts Name Pid :=
  fun G' P' => if P' = P then 0 else m G' P'

/-- Nobody is left in the group. -/
def deleteGroup (m : JoinCounts Name Pid) (G : Name) : JoinCounts Name Pid :=
  fun G' P' => if G' = G then 0 else m G' P'

/-- A count of the external server replaces the own one, unless it is 0. -/
def exchange (external m : JoinCounts Name Pid) : JoinCounts Name Pid :=
  fun G P => if 0 < external G P then external G P else m G P

/-- The pid is in each group named, and leaves it a positive number of times. -/
def leavesValid (m : JoinCounts Name Pid) (Counts : List (Name × Nat)) (P : Pid) : Prop :=
  ∀ c ∈ Counts, 0 < c.2 ∧ 0 < m c.1 P

instance (m : JoinCounts Name Pid) (Counts : List (Name × Nat)) (P : Pid) :
    Decidable (m.leavesValid Counts P) :=
  inferInstanceAs (Decidable (∀ c ∈ Counts, 0 < c.2 ∧ 0 < m c.1 P))

/-- What a request does. -/
def effect (m : JoinCounts Name Pid) : Request Name Pid → JoinCounts Name Pid
  | .join G P => m.join G P
  | .leave P => m.leaveAll P
  | .leaveGroup G P => m.leave 1 G P
  | .leaveCounts Counts P =>
    if m.leavesValid Counts P then Counts.foldl (fun m c => m.leave c.2 c.1 P) m else m

theorem set_self (m : JoinCounts Name Pid) (G : Name) (P : Pid) (n : Nat) : m.set G P n G P = n :=
  if_pos ⟨rfl, rfl⟩

theorem set_of_ne_pid (m : JoinCounts Name Pid) {G G' : Name} {P P' : Pid} (n : Nat) (h : P' ≠ P) :
    m.set G P n G' P' = m G' P' :=
  if_neg fun h' => h h'.2

theorem set_of_ne_name (m : JoinCounts Name Pid) {G G' : Name} {P P' : Pid} (n : Nat) (h : G' ≠ G) :
    m.set G P n G' P' = m G' P' :=
  if_neg fun h' => h h'.1

theorem set_eq_self {m : JoinCounts Name Pid} {G : Name} {P : Pid} {n : Nat} (h : m G P = n) :
    m.set G P n = m := by
  funext G' P'
  rw [set]
  split
  · rename_i h'
    rw [h'.1, h'.2, h]
  · rfl

end JoinCounts

end CloudI.Cpg
