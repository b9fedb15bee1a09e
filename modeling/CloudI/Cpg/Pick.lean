import CloudI.Cpg.Group

/-!
# Picking a member of a group

The functions that return one member of a group other than an excluded pid.
`pick_i/8` walks the members to a random place and takes the next one that is
not excluded, or one of those before it. `pickI_spec` says that it finds one
whenever there is one; the functions with two lists of members try the second
list when the first has none (`pickBoth_spec`).
-/

namespace CloudI.Cpg

variable {Pid Name : Type} [DecidableEq Pid]

/-! ## Picking from lists -/

inductive GetPid (Name Pid : Type) where
  /-- `{ok, Pattern, Pid}` -/
  | ok (Pattern : Name) (Pid : Pid)
  /-- `{error, {no_process, GroupName}}` -/
  | noProcess (GroupName : Name)
  /-- `{error, {no_such_group, GroupName}}` -/
  | noSuchGroup (GroupName : Name)
  deriving DecidableEq, Repr

section Functions

variable (Exclude : Pid) (GroupName Pattern : Name)

/-- `pick_i/8` -/
def pickI (Random : Nat) : Nat → Nat → List Pid → List Pid → Except Exn (GetPid Name Pid)
  | I, Length, Filtered, [] =>
    if I = Random then
      match Filtered with
      | [] => .ok (.noProcess GroupName)
      | Pid :: Filtered =>
        if Length = 1 ∧ Filtered = [] then .ok (.ok Pattern Pid)
        else if Length = 0 then .error .badarith
        else
          match (Pid :: Filtered)[I % Length]? with
          | some Pid => .ok (.ok Pattern Pid)
          | none => .error .functionClause
    else .error .functionClause
  | I, Length, Filtered, Pid :: L =>
    if I = Random then
      if Pid = Exclude then pickI Random I Length Filtered L else .ok (.ok Pattern Pid)
    else if Pid = Exclude then pickI Random (I + 1) Length Filtered L
    else pickI Random (I + 1) (Length + 1) (Pid :: Filtered) L

/-- `pick/5`; `random N` is what the call of `random/1` returns. -/
def pick (random : Int → Nat) (N : Int) (L : List Pid) : Except Exn (GetPid Name Pid) :=
  if N = 0 ∧ L = [] then .ok (.noProcess GroupName)
  else pickI Exclude GroupName Pattern (random N) 1 0 [] L

/-- `pick/7`; each of the two calls of `random/1` has its own result. -/
def pickBoth (random₁ random₂ : Int → Nat) (N1 : Int) (L1 : List Pid) (N2 : Int) (L2 : List Pid) :
    Except Exn (GetPid Name Pid) :=
  if N1 = 0 ∧ L1 = [] then pick Exclude GroupName Pattern random₂ N2 L2
  else
    match pick Exclude GroupName Pattern random₁ N1 L1 with
    | .error e => .error e
    | .ok (.ok Pattern Pid) => .ok (.ok Pattern Pid)
    | .ok _ => pick Exclude GroupName Pattern random₂ N2 L2

end Functions

/-! ## Getting a pid -/

section Get

variable (random random₁ random₂ : Int → Nat) (GroupName : Name) (Exclude : Pid)

/-- `get_closest_pid/3`, on what `group_find/2` returns. -/
def getClosestPid : Option (Name × CpgData Pid) → Except Exn (GetPid Name Pid)
  | none => .ok (.noSuchGroup GroupName)
  | some (Pattern, d) =>
    if d.history = [] then .ok (.noProcess GroupName)
    else if d.localCount = 0 then pick Exclude GroupName Pattern random₂ d.remoteCount d.remotePids
    else pickBoth Exclude GroupName Pattern random₁ random₂ d.localCount d.localPids d.remoteCount d.remotePids

/-- `get_furthest_pid/3` -/
def getFurthestPid : Option (Name × CpgData Pid) → Except Exn (GetPid Name Pid)
  | none => .ok (.noSuchGroup GroupName)
  | some (Pattern, d) =>
    if d.history = [] then .ok (.noProcess GroupName)
    else if d.remoteCount = 0 then pick Exclude GroupName Pattern random₂ d.localCount d.localPids
    else pickBoth Exclude GroupName Pattern random₁ random₂ d.remoteCount d.remotePids d.localCount d.localPids

/-- `get_random_pid/3` -/
def getRandomPid : Option (Name × CpgData Pid) → Except Exn (GetPid Name Pid)
  | none => .ok (.noSuchGroup GroupName)
  | some (Pattern, d) =>
    if d.history = [] then .ok (.noProcess GroupName)
    else pick Exclude GroupName Pattern random (d.localCount + d.remoteCount) (d.localPids ++ d.remotePids)

/-- `get_local_pid/3` -/
def getLocalPid : Option (Name × CpgData Pid) → Except Exn (GetPid Name Pid)
  | none => .ok (.noSuchGroup GroupName)
  | some (Pattern, d) =>
    if d.localCount = 0 then .ok (.noProcess GroupName)
    else pick Exclude GroupName Pattern random d.localCount d.localPids

/-- `get_remote_pid/3` -/
def getRemotePid : Option (Name × CpgData Pid) → Except Exn (GetPid Name Pid)
  | none => .ok (.noSuchGroup GroupName)
  | some (Pattern, d) =>
    if d.remoteCount = 0 then .ok (.noProcess GroupName)
    else pick Exclude GroupName Pattern random d.remoteCount d.remotePids

end Get

/-! ## What a pick returns -/

/-- The call returns one of the members other than the excluded pid, and
`no_process` exactly when there is none. -/
def Picks (GroupName Pattern : Name) (Exclude : Pid) (members : List Pid) (r : Except Exn (GetPid Name Pid)) : Prop :=
  (r = .ok (.noProcess GroupName) ∧ ∀ P ∈ members, P = Exclude) ∨
    ∃ P ∈ members, P ≠ Exclude ∧ r = .ok (.ok Pattern P)

variable {GroupName Pattern : Name} {Exclude : Pid} {members : List Pid} {r : Except Exn (GetPid Name Pid)}

omit [DecidableEq Pid] in
theorem Picks.congr {members' : List Pid} (h : Picks GroupName Pattern Exclude members r)
    (hm : ∀ P ≠ Exclude, P ∈ members ↔ P ∈ members') : Picks GroupName Pattern Exclude members' r := by
  rcases h with ⟨hr, hall⟩ | ⟨P, hP, hne, hr⟩
  · refine .inl ⟨hr, fun P hP => by_contra fun hne => hne (hall P ((hm P hne).mpr hP))⟩
  · exact .inr ⟨P, (hm P hne).mp hP, hne, hr⟩

/-- The random place is reached before the members end; those passed on the way are kept in `Filtered`. -/
theorem pickI_spec {Random I Length : Nat} {Filtered L : List Pid} (hlen : Length = Filtered.length)
    (hfiltered : Exclude ∉ Filtered) (hI : I = Random ∨ I < Random ∧ Random < I + L.length) :
    Picks GroupName Pattern Exclude (Filtered ++ L) (pickI Exclude GroupName Pattern Random I Length Filtered L) := by
  induction L generalizing I Length Filtered with
  | nil =>
    obtain rfl : I = Random := by
      simp only [List.length_nil] at hI
      omega
    rw [pickI.eq_def]
    simp only [if_true]
    cases Filtered with
    | nil => exact .inl ⟨rfl, by simp⟩
    | cons P Filtered =>
      rw [List.mem_cons, not_or] at hfiltered
      rw [List.length_cons] at hlen
      refine .inr ?_
      by_cases hone : Length = 1 ∧ Filtered = []
      · exact ⟨P, by simp, Ne.symm hfiltered.1, by simp only [if_pos hone]⟩
      · have hlt : I % Length < (P :: Filtered).length := by
          rw [List.length_cons, ← hlen]
          exact Nat.mod_lt _ (by omega)
        refine ⟨(P :: Filtered)[I % Length], by simp, ?_, ?_⟩
        · intro he
          have hm := List.getElem_mem hlt
          rw [he, List.mem_cons] at hm
          exact hm.elim hfiltered.1 hfiltered.2
        · simp only [if_neg hone, if_neg (show Length ≠ 0 by omega), List.getElem?_eq_getElem hlt]
  | cons P L ih =>
    rw [List.length_cons] at hI
    rw [pickI]
    by_cases hR : I = Random
    · rw [if_pos hR]
      by_cases hP : P = Exclude
      · rw [if_pos hP]
        refine (ih hlen hfiltered (.inl hR)).congr fun Q hQ => ?_
        simp [hP, hQ]
      · rw [if_neg hP]
        exact .inr ⟨P, by simp, hP, rfl⟩
    · rw [if_neg hR]
      by_cases hP : P = Exclude
      · rw [if_pos hP]
        refine (ih hlen hfiltered (by omega)).congr fun Q hQ => ?_
        simp [hP, hQ]
      · rw [if_neg hP]
        refine (ih (by simp [hlen]) (by simp [Ne.symm hP, hfiltered]) (by omega)).congr fun Q _ => ?_
        simp only [List.mem_append, List.mem_cons]
        tauto

/-- What `random(N)` returns is from 1 to `N`. -/
def InBounds (random : Int → Nat) : Prop := ∀ N, 0 < N → 1 ≤ random N ∧ (random N : Int) ≤ N

theorem pick_spec {random : Int → Nat} (h : InBounds random) {N : Int} {L : List Pid} (hN : N = L.length) :
    Picks GroupName Pattern Exclude L (pick Exclude GroupName Pattern random N L) := by
  rw [pick]
  by_cases hL : L = []
  · rw [if_pos ⟨by simp [hN, hL], hL⟩]
    exact .inl ⟨rfl, by simp [hL]⟩
  · rw [if_neg fun hc => hL hc.2]
    have hpos := List.length_pos_iff.mpr hL
    obtain ⟨h1, h2⟩ := h N (by omega)
    exact pickI_spec rfl List.not_mem_nil (by omega)

/-- The second list is used only when the first has no other pid. -/
theorem pickBoth_spec {random₁ random₂ : Int → Nat} (h₁ : InBounds random₁) (h₂ : InBounds random₂) {N1 N2 : Int}
    {L1 L2 : List Pid} (hN1 : N1 = L1.length) (hN2 : N2 = L2.length) :
    Picks GroupName Pattern Exclude L1 (pickBoth Exclude GroupName Pattern random₁ random₂ N1 L1 N2 L2) ∧
        (∃ P ∈ L1, P ≠ Exclude) ∨
      Picks GroupName Pattern Exclude L2 (pickBoth Exclude GroupName Pattern random₁ random₂ N1 L1 N2 L2) ∧
        ∀ P ∈ L1, P = Exclude := by
  have hsecond := @pick_spec Pid Name _ GroupName Pattern Exclude random₂ h₂ N2 L2 hN2
  rw [pickBoth]
  by_cases hL : N1 = 0 ∧ L1 = []
  · rw [if_pos hL]
    exact .inr ⟨hsecond, by simp [hL.2]⟩
  · rw [if_neg hL]
    rcases @pick_spec Pid Name _ GroupName Pattern Exclude random₁ h₁ N1 L1 hN1 with ⟨hr, hall⟩ | ⟨P, hP, hne, hr⟩
    · rw [hr]
      exact .inr ⟨hsecond, hall⟩
    · rw [hr]
      exact .inl ⟨.inr ⟨P, hP, hne, rfl⟩, P, hP, hne⟩

/-! ## What the functions return -/

/-- The counters are the lengths of the lists. -/
def Counted (d : CpgData Pid) : Prop :=
  d.localCount = d.localPids.length ∧ d.remoteCount = d.remotePids.length

/-- A member of one of the lists, and of the first when that has one to return. -/
def Prefers (GroupName Pattern : Name) (Exclude : Pid) (first second : List Pid)
    (r : Except Exn (GetPid Name Pid)) : Prop :=
  Picks GroupName Pattern Exclude (first ++ second) r ∧
    ((∃ P ∈ first, P ≠ Exclude) → Picks GroupName Pattern Exclude first r)

variable {random random₁ random₂ : Int → Nat} {d : CpgData Pid}

theorem pickBoth_prefers (h₁ : InBounds random₁) (h₂ : InBounds random₂) {N1 N2 : Int} {L1 L2 : List Pid}
    (hN1 : N1 = L1.length) (hN2 : N2 = L2.length) :
    Prefers GroupName Pattern Exclude L1 L2 (pickBoth Exclude GroupName Pattern random₁ random₂ N1 L1 N2 L2) := by
  rcases @pickBoth_spec Pid Name _ GroupName Pattern Exclude random₁ random₂ h₁ h₂ N1 N2 L1 L2 hN1 hN2 with
    ⟨hp, P, hP, hne⟩ | ⟨hp, hall⟩
  · refine ⟨?_, fun _ => hp⟩
    rcases hp with ⟨-, hall⟩ | ⟨Q, hQ, hQne, hr⟩
    · exact absurd (hall P hP) hne
    · exact .inr ⟨Q, List.mem_append_left _ hQ, hQne, hr⟩
  · refine ⟨hp.congr fun P hne => ?_, fun ⟨P, hP, hne⟩ => absurd (hall P hP) hne⟩
    rw [List.mem_append]
    exact (or_iff_right fun hP => hne (hall P hP)).symm

/-- The first list is empty where its counter is 0. -/
theorem pick_prefers (h : InBounds random) {N1 N2 : Int} {L1 L2 : List Pid} (hN1 : N1 = L1.length) (h0 : N1 = 0)
    (hN2 : N2 = L2.length) :
    Prefers GroupName Pattern Exclude L1 L2 (pick Exclude GroupName Pattern random N2 L2) := by
  obtain rfl : L1 = [] := List.length_eq_zero_iff.mp (by omega)
  exact ⟨pick_spec h hN2, fun ⟨P, hP, _⟩ => absurd hP List.not_mem_nil⟩

theorem getClosestPid_prefers (hd : Counted d) (h₁ : InBounds random₁) (h₂ : InBounds random₂)
    (hh : d.history ≠ []) : Prefers GroupName Pattern Exclude d.localPids d.remotePids
      (getClosestPid random₁ random₂ GroupName Exclude (some (Pattern, d))) := by
  rw [getClosestPid, if_neg hh]
  by_cases h0 : d.localCount = 0
  · rw [if_pos h0]
    exact pick_prefers h₂ hd.1 h0 hd.2
  · rw [if_neg h0]
    exact pickBoth_prefers h₁ h₂ hd.1 hd.2

theorem getFurthestPid_prefers (hd : Counted d) (h₁ : InBounds random₁) (h₂ : InBounds random₂)
    (hh : d.history ≠ []) : Prefers GroupName Pattern Exclude d.remotePids d.localPids
      (getFurthestPid random₁ random₂ GroupName Exclude (some (Pattern, d))) := by
  rw [getFurthestPid, if_neg hh]
  by_cases h0 : d.remoteCount = 0
  · rw [if_pos h0]
    exact pick_prefers h₂ hd.2 h0 hd.1
  · rw [if_neg h0]
    exact pickBoth_prefers h₁ h₂ hd.2 hd.1

theorem getRandomPid_picks (hd : Counted d) (h : InBounds random) (hh : d.history ≠ []) :
    Picks GroupName Pattern Exclude (d.localPids ++ d.remotePids)
      (getRandomPid random GroupName Exclude (some (Pattern, d))) := by
  rw [getRandomPid, if_neg hh]
  refine pick_spec h ?_
  rw [List.length_append, hd.1, hd.2]
  omega

theorem getLocalPid_picks (hd : Counted d) (h : InBounds random) :
    Picks GroupName Pattern Exclude d.localPids (getLocalPid random GroupName Exclude (some (Pattern, d))) := by
  rw [getLocalPid]
  by_cases h0 : d.localCount = 0
  · obtain he : d.localPids = [] := List.length_eq_zero_iff.mp (by have := hd.1; omega)
    rw [if_pos h0]
    exact .inl ⟨rfl, by simp [he]⟩
  · rw [if_neg h0]
    exact pick_spec h hd.1

theorem getRemotePid_picks (hd : Counted d) (h : InBounds random) :
    Picks GroupName Pattern Exclude d.remotePids (getRemotePid random GroupName Exclude (some (Pattern, d))) := by
  rw [getRemotePid]
  by_cases h0 : d.remoteCount = 0
  · obtain he : d.remotePids = [] := List.length_eq_zero_iff.mp (by have := hd.2; omega)
    rw [if_pos h0]
    exact .inl ⟨rfl, by simp [he]⟩
  · rw [if_neg h0]
    exact pick_spec h hd.2

/-- Each function returns an eligible member other than the excluded pid, and
`no_process` exactly when there is none; without a history, the functions that
look at all members answer `no_process`. -/
theorem get_pid_picks (hd : Counted d) (h : InBounds random) (h₁ : InBounds random₁) (h₂ : InBounds random₂)
    (GroupName Pattern : Name) (Exclude : Pid) :
    (d.history ≠ [] →
      Prefers GroupName Pattern Exclude d.localPids d.remotePids
        (getClosestPid random₁ random₂ GroupName Exclude (some (Pattern, d))) ∧
      Prefers GroupName Pattern Exclude d.remotePids d.localPids
        (getFurthestPid random₁ random₂ GroupName Exclude (some (Pattern, d))) ∧
      Picks GroupName Pattern Exclude (d.localPids ++ d.remotePids)
        (getRandomPid random GroupName Exclude (some (Pattern, d)))) ∧
    (d.history = [] →
      getClosestPid random₁ random₂ GroupName Exclude (some (Pattern, d)) = .ok (.noProcess GroupName) ∧
      getFurthestPid random₁ random₂ GroupName Exclude (some (Pattern, d)) = .ok (.noProcess GroupName) ∧
      getRandomPid random GroupName Exclude (some (Pattern, d)) = .ok (.noProcess GroupName)) ∧
    Picks GroupName Pattern Exclude d.localPids (getLocalPid random GroupName Exclude (some (Pattern, d))) ∧
    Picks GroupName Pattern Exclude d.remotePids (getRemotePid random GroupName Exclude (some (Pattern, d))) := by
  refine ⟨fun hh => ⟨getClosestPid_prefers hd h₁ h₂ hh, getFurthestPid_prefers hd h₁ h₂ hh,
    getRandomPid_picks hd h hh⟩, fun hh => ⟨?_, ?_, ?_⟩, getLocalPid_picks hd h, getRemotePid_picks hd h⟩
  · rw [getClosestPid, if_pos hh]
  · rw [getFurthestPid, if_pos hh]
  · rw [getRandomPid, if_pos hh]

/-- A random value that is always in bounds. -/
theorem inBounds_one : InBounds fun _ => 1 := fun _ hN => ⟨Nat.le_refl 1, hN⟩

/-- A local pid 1 is returned before the remote pid 3, with 2 excluded. -/
theorem get_pid_picks_local :
    Picks "group" "group" 2 [2, 1]
      (getClosestPid (fun _ => 1) (fun _ => 1) "group" 2 (some ("group",
        { localCount := 2, localPids := [2, 1], remoteCount := 1, remotePids := [3], history := [2, 3, 1] }))) :=
  ((@get_pid_picks Nat String _ _ _ _
    { localCount := 2, localPids := [2, 1], remoteCount := 1, remotePids := [3], history := [2, 3, 1] } ⟨rfl, rfl⟩
    inBounds_one inBounds_one inBounds_one "group" "group" 2).1 (by decide)).1.2 ⟨1, by decide, by decide⟩

/-- Without a history there is no answer, for a group that has a member. -/
theorem get_closest_no_history :
    ¬ ∀ d : CpgData Nat, Counted d → ∀ Exclude : Nat, ∀ random₁ random₂, InBounds random₁ → InBounds random₂ →
      (getClosestPid random₁ random₂ "group" Exclude (some ("group", d)) = .ok (.noProcess "group") ↔
        ∀ P ∈ d.localPids ++ d.remotePids, P = Exclude) := by
  intro hclaim
  have h := (hclaim { localCount := 1, localPids := [1] } ⟨rfl, rfl⟩ 2 _ _ inBounds_one inBounds_one).mp (by decide)
  exact absurd (h 1 (by decide)) (by decide)

end CloudI.Cpg
