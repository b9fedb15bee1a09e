import Mathlib.Data.List.DropRight
import Mathlib.Data.List.Infix
import Mathlib.Tactic.SplitIfs
import Mathlib.Tactic.Common

/-!
# Control group paths

`cgroups` climbs from the parent directory of a control group to the root path
of its state with `subdirectory`, which works on the text of a path, and stops
only where the text is the one of the root path. The commands of the shell have
the text between double quotes, where it may be expanded. `paths_iff` says for
which root paths and control group paths every climb ends and stays below the
root path, whatever the commands come to.
-/

namespace CloudI.Cgroups

abbrev Text := List Char

/-! ## Directories -/

/-- `filename:dirname/1` -/
def dirname (Name : Text) : Text :=
  if '/' ∈ Name then
    match (Name.rdropWhile (· ≠ '/')).rdropWhile (· = '/') with
    | [] => ['/']
    | Dir => Dir
  else ['.']

def subdirectory (Path : Text) : Text :=
  match Path.reverse with
  | '/' :: PathRev => dirname PathRev.reverse ++ ['/']
  | _ => dirname Path ++ ['/']

def quoteless (string : Text) : Bool := string.all (· ≠ '"')

def cgroupPathValid (CGroupPath : Text) : Bool :=
  CGroupPath = [] ∨ (CGroupPath.head? ≠ some '/' ∧ CGroupPath.reverse.head? ≠ some '/' ∧ quoteless CGroupPath)

/-! ## Commands -/

/-- A command of the shell: the directory, with a slash at its end, and the parameter of the file. -/
inductive Command
  | cat (directory parameter : Text)
  | echo (value directory parameter : Text)
  | rmdir (directory : Text)

def Command.directory : Command → Text
  | cat directory _ | echo _ directory _ | rmdir directory => directory

/-- What a command comes to, its status and output, after all the commands up to it, the last one first. -/
abbrev Shell := List Command → Nat × Text

/-- `{error, {Reason, Status, Output}}` -/
structure Failure where
  reason : Text
  status : Nat
  output : Text

/-- The result of a function, and the commands until then. -/
abbrev Outcome (α : Type) := Except Failure α × List Command

def strip (Value : Text) : Text := Value.filter fun c => ¬(c = ' ' ∨ c = '\t' ∨ c = '\n' ∨ c = '\r')

def subsystemParameterErrorReason (SubsystemParameter Suffix : Text) : Text :=
  SubsystemParameter.map (fun c => if c = '.' then '_' else c) ++ Suffix

section Recursions

variable (sh : Shell)

def subtreeControlSet (CGroupSubPathFull Value : Text) (h : List Command) : Outcome Unit :=
  let h := .echo Value CGroupSubPathFull "cgroup.subtree_control".toList :: h
  match sh h with
  | (0, _) => (.ok (), h)
  | (Status, Output) => (.error ⟨"subtree_control".toList, Status, Output⟩, h)

/-- `none` when the recursion goes deeper than `fuel`. -/
def subtreeControlAdd (Value Path : Text) :
    (fuel : Nat) → (CGroupSubPathFull : Text) → List Command → Option (Outcome Unit)
  | 0, _, _ => none
  | fuel + 1, CGroupSubPathFull, h =>
    if CGroupSubPathFull = Path then some (subtreeControlSet sh Path Value h)
    else
      match subtreeControlAdd Value Path fuel (subdirectory CGroupSubPathFull) h with
      | some (.ok (), h) => some (subtreeControlSet sh CGroupSubPathFull Value h)
      | failed => failed

def subtreeControlRemove (Value Path : Text) :
    (fuel : Nat) → (CGroupSubPathFull : Text) → List Command → Option (Outcome Unit)
  | 0, _, _ => none
  | fuel + 1, CGroupSubPathFull, h =>
    if CGroupSubPathFull = Path then some (subtreeControlSet sh Path Value h)
    else
      match subtreeControlSet sh CGroupSubPathFull Value h with
      | (.ok (), h) => subtreeControlRemove Value Path fuel (subdirectory CGroupSubPathFull) h
      | failed => some failed

def subsystemParameterGet (CGroupSubPathFull SubsystemParameter : Text) (h : List Command) : Outcome Text :=
  let h := .cat CGroupSubPathFull SubsystemParameter :: h
  match sh h with
  | (0, Contents) => (.ok (strip Contents), h)
  | (Status, Output) =>
    (.error ⟨subsystemParameterErrorReason SubsystemParameter "_get".toList, Status, Output⟩, h)

def subsystemParameterSubpath (SubsystemParameter Path : Text) :
    (fuel : Nat) → (CGroupSubPathFull : Text) → List Command → Option (Outcome Text)
  | 0, _, _ => none
  | fuel + 1, CGroupSubPathFull, h =>
    if CGroupSubPathFull = Path then some (subsystemParameterGet sh Path SubsystemParameter h)
    else
      match subsystemParameterGet sh CGroupSubPathFull SubsystemParameter h with
      | (.ok [], h) => subsystemParameterSubpath SubsystemParameter Path fuel (subdirectory CGroupSubPathFull) h
      | result => some result

/-- `create_update_set_value/3`, where `none` is `undefined` -/
def createUpdateSetValue (CGroupSubPathFull SubsystemParameter : Text) (Value : Option Text) (h : List Command) :
    Outcome Unit :=
  match Value with
  | none => (.ok (), h)
  | some Value =>
    let h := .cat CGroupSubPathFull SubsystemParameter :: h
    match sh h with
    | (0, OldValue) =>
      if strip OldValue = [] then
        let h := .echo Value CGroupSubPathFull SubsystemParameter :: h
        match sh h with
        | (0, _) => (.ok (), h)
        | (Status, Output) =>
          (.error ⟨subsystemParameterErrorReason SubsystemParameter "_set".toList, Status, Output⟩, h)
      else (.ok (), h)
    | (Status, Output) =>
      (.error ⟨subsystemParameterErrorReason SubsystemParameter "_check".toList, Status, Output⟩, h)

def createUpdateSetSubpath (CPUS MEMS : Option Text) (Path : Text) :
    (fuel : Nat) → (CGroupPathFull : Text) → List Command → Option (Outcome Unit)
  | 0, _, _ => none
  | fuel + 1, CGroupPathFull, h =>
    let CGroupSubPathFull := subdirectory CGroupPathFull
    if CGroupSubPathFull = Path then some (.ok (), h)
    else
      match createUpdateSetSubpath CPUS MEMS Path fuel CGroupSubPathFull h with
      | some (.ok (), h) =>
        match createUpdateSetValue sh CGroupSubPathFull "cpuset.cpus".toList CPUS h with
        | (.ok (), h) => some (createUpdateSetValue sh CGroupSubPathFull "cpuset.mems".toList MEMS h)
        | failed => some failed
      | failed => failed

def deleteRecursiveSubpath (Path : Text) :
    (fuel : Nat) → (CGroupSubPathFull : Text) → List Command → Option (Outcome Unit)
  | 0, _, _ => none
  | fuel + 1, CGroupSubPathFull, h =>
    if CGroupSubPathFull = Path then some (.ok (), h)
    else
      let h := .rmdir CGroupSubPathFull :: h
      match sh h with
      | (0, _) => deleteRecursiveSubpath Path fuel (subdirectory CGroupSubPathFull) h
      | _ => some (.ok (), h)

end Recursions

/-! ## What is meant -/

/-- The directory that a name leads to. -/
def enter (Dir : List Text) (Name : Text) : List Text :=
  if Name = [] ∨ Name = ['.'] then Dir else if Name = ['.', '.'] then Dir.dropLast else Dir ++ [Name]

/-- The directory that the rest of a path leads to, where `Name` is what was read of a name. -/
def walk : List Text → Text → Text → List Text
  | Dir, Name, [] => enter Dir Name
  | Dir, Name, c :: path => if c = '/' then walk (enter Dir Name) [] path else walk Dir (Name ++ [c]) path

/-- The directory of a path, by the names from the root of the file system, where the shell runs. -/
def resolve (path : Text) : List Text := walk [] [] path

/-- A directory on the way from the root path to the parent directory of a control group, and not above the root
path. -/
def Between (Path CGroupPath directory : Text) : Prop :=
  (∃ part, directory = Path ++ part ∧ part <+: CGroupPath ∧ (part = [] ∨ part.getLast? = some '/')) ∧
    resolve Path <+: resolve directory

/-- A text is the same between double quotes in a command: no quote ends in it, nothing in it is replaced by a value
or by the output of a command, and each backslash stays. -/
def Kept (text : Text) : Prop :=
  (∀ c ∈ text, c ≠ '$' ∧ c ≠ '`' ∧ c ≠ '"') ∧ ¬['\\', '\\'] <:+: text ∧ ¬['\\', '\n'] <:+: text

instance (text : Text) : Decidable (Kept text) := inferInstanceAs (Decidable (_ ∧ _))

/-- The shell may take the text of a command for the directory: a text that is not kept may become any other. -/
def Takes (text directory : Text) : Prop := Kept text → directory = text

/-- A recursion returns for every shell, and acts on such directories only. -/
def Returns {α : Type} (Path CGroupPath : Text) (recursion : Shell → Nat → List Command → Option (Outcome α)) : Prop :=
  ∀ sh h, ∃ fuel result new, recursion sh fuel h = some (result, new ++ h) ∧
    ∀ command ∈ new, ∀ directory, Takes command.directory directory → Between Path CGroupPath directory

/-- What is meant of the recursions of `update`, and of `create` and `delete_recursive`. -/
structure Climbs (Path CGroupPath : Text) : Prop where
  add : ∀ Value, Returns Path CGroupPath fun sh fuel h =>
    subtreeControlAdd sh Value Path fuel (subdirectory (Path ++ CGroupPath)) h
  remove : ∀ Value, Returns Path CGroupPath fun sh fuel h =>
    subtreeControlRemove sh Value Path fuel (subdirectory (Path ++ CGroupPath)) h
  parameter : CGroupPath ≠ [] → ∀ SubsystemParameter, Returns Path CGroupPath fun sh fuel h =>
    subsystemParameterSubpath sh SubsystemParameter Path fuel (subdirectory (Path ++ CGroupPath)) h
  create : CGroupPath ≠ [] → ∀ CPUS MEMS, Returns Path CGroupPath fun sh fuel h =>
    createUpdateSetSubpath sh CPUS MEMS Path fuel (Path ++ CGroupPath) h
  delete : CGroupPath ≠ [] → Returns Path CGroupPath fun sh fuel h =>
    deleteRecursiveSubpath sh Path fuel (subdirectory (Path ++ CGroupPath)) h

/-! ## The condition -/

/-- The text of the root path comes up in the climb. -/
def Comes (Path CGroupPath : Text) : Prop :=
  if CGroupPath = [] then Path = ['/', '/'] ∨ Path = ['.', '/'] else Path = ['/', '/'] ∨ ¬['/', '/'] <:+ Path

/-- The number of names that a path is below the one it started from. -/
def depth (n : Nat) (Name : Text) : Nat :=
  if Name = [] ∨ Name = ['.'] then n else if Name = ['.', '.'] then n - 1 else n + 1

/-- No `..` before the last name goes above where the path starts. -/
def Stays : Nat → Text → Text → Prop
  | _, _, [] => True
  | n, Name, c :: path =>
    if c = '/' then (Name = ['.', '.'] → 0 < n) ∧ Stays (depth n Name) [] path else Stays n (Name ++ [c]) path

/-- The shell keeps the root path, and the control group path up to its last name. -/
def Literal (Path CGroupPath : Text) : Prop :=
  Kept Path ∧ ∀ part, part ++ ['/'] <+: CGroupPath → Kept (Path ++ (part ++ ['/']))

/-! ## Names of a path -/

variable {Path CGroupPath Name part path : Text} {Dir : List Text}

theorem walk_slash (path rest : Text) : walk Dir Name (path ++ '/' :: rest) = walk (walk Dir Name path) [] rest := by
  induction path generalizing Dir Name with
  | nil => rfl
  | cons c path ih =>
    rw [List.cons_append, walk, walk]
    split_ifs
    · exact ih
    · exact ih

theorem walk_end (path : Text) : walk Dir Name (path ++ ['/']) = walk Dir Name path := walk_slash path []

theorem walk_slashes {slashes : Text} (h : ∀ c ∈ slashes, c = '/') :
    walk Dir Name (path ++ slashes) = walk Dir Name path := by
  cases slashes with
  | nil => rw [List.append_nil]
  | cons c slashes =>
    obtain rfl := h c List.mem_cons_self
    rw [walk_slash]
    generalize walk Dir Name path = Dir
    have hrest : ∀ c ∈ slashes, c = '/' := fun c hc => h c (List.mem_cons_of_mem _ hc)
    clear h
    induction slashes with
    | nil => rfl
    | cons c slashes ih =>
      obtain rfl := hrest c List.mem_cons_self
      rw [walk, if_pos rfl]
      exact ih fun c hc => hrest c (List.mem_cons_of_mem _ hc)

/-- Up to a slash that stands before a name there are slashes only. -/
theorem slashes_before {slashes : Text} {n : Nat} (hname : '/' ∉ Name)
    (h : slashes ++ ['/'] <+: List.replicate n '/' ++ Name) : ∀ c ∈ slashes, c = '/' := by
  induction n generalizing slashes with
  | zero => exact absurd (h.subset (List.mem_append_right _ (List.mem_singleton_self _))) hname
  | succ n ih =>
    cases slashes with
    | nil => exact fun _ => nofun
    | cons c slashes =>
      rw [List.replicate_succ] at h
      obtain ⟨rfl, htail⟩ := List.cons_prefix_cons.mp h
      exact List.forall_mem_cons.mpr ⟨rfl, ih htail⟩

theorem resolve_append (hp : Path.getLast? = some '/') (path : Text) :
    resolve (Path ++ path) = walk (resolve Path) [] path := by
  obtain ⟨start, rfl⟩ := List.getLast?_eq_some_iff.mp hp
  rw [resolve, resolve, walk_end, List.append_assoc]
  exact walk_slash start path

/-- A walk stays in the directory where it starts if it leaves a name only after it has entered one. -/
theorem stays_iff {root : List Text} (hr : root ≠ []) {below : List Text} :
    Stays below.length Name path ↔ ∀ part, part ++ ['/'] <+: path → root <+: walk (root ++ below) Name part := by
  induction path generalizing below Name with
  | nil => simp [Stays]
  | cons c path ih =>
    rw [Stays]
    split_ifs with hc
    · subst hc
      have hfirst : (Name = ['.', '.'] → 0 < below.length) ↔ root <+: enter (root ++ below) Name := by
        unfold enter
        split_ifs with hskip hup
        · refine iff_of_true (fun hup => ?_) (List.prefix_append _ _)
          subst hup
          simp at hskip
        · subst hup
          obtain rfl | ⟨below, name, rfl⟩ := List.eq_nil_or_concat' below
          · rw [List.append_nil]
            refine iff_of_false (by simp) fun h => ?_
            have hlen := h.length_le
            have hpos := List.length_pos_of_ne_nil hr
            rw [List.length_dropLast] at hlen
            omega
          · rw [← List.append_assoc, List.dropLast_concat]
            exact iff_of_true (fun _ => by simp) (List.prefix_append _ _)
        · rw [List.append_assoc]
          exact iff_of_true (fun h => absurd h hup) (List.prefix_append _ _)
      have hrest : (Name = ['.', '.'] → 0 < below.length) →
          ∃ below', enter (root ++ below) Name = root ++ below' ∧ below'.length = depth below.length Name := by
        intro hn
        unfold enter depth
        split_ifs with hskip hup
        · exact ⟨below, rfl, rfl⟩
        · have hne : below ≠ [] := List.ne_nil_of_length_pos (hn hup)
          exact ⟨below.dropLast, List.dropLast_append_of_ne_nil hne, List.length_dropLast⟩
        · exact ⟨below ++ [Name], List.append_assoc _ _ _, List.length_append⟩
      constructor
      · rintro ⟨hn, hs⟩ part hpart
        cases part with
        | nil => exact hfirst.mp hn
        | cons c part =>
          obtain ⟨rfl, htail⟩ := List.cons_prefix_cons.mp hpart
          obtain ⟨below', henter, hlen⟩ := hrest hn
          rw [walk, if_pos rfl, henter]
          rw [← hlen] at hs
          exact ih.mp hs part htail
      · intro h
        have hn := hfirst.mpr (h [] (List.cons_prefix_cons.mpr ⟨rfl, List.nil_prefix⟩))
        refine ⟨hn, ?_⟩
        obtain ⟨below', henter, hlen⟩ := hrest hn
        rw [← hlen]
        refine ih.mpr fun part hpart => ?_
        have := h ('/' :: part) (List.cons_prefix_cons.mpr ⟨rfl, hpart⟩)
        rwa [walk, if_pos rfl, henter] at this
    · rw [ih]
      constructor
      · intro h part hpart
        cases part with
        | nil => exact absurd (List.cons_prefix_cons.mp hpart).1.symm hc
        | cons c' part =>
          obtain ⟨rfl, htail⟩ := List.cons_prefix_cons.mp hpart
          rw [walk, if_neg hc]
          exact h part htail
      · intro h part hpart
        have := h (c :: part) (List.cons_prefix_cons.mpr ⟨rfl, hpart⟩)
        rwa [walk, if_neg hc] at this

/-! ## Directories of a text -/

theorem rdropWhile_append_pos {p : Char → Bool} {l name : Text} (h : ∀ c ∈ name, p c) :
    (l ++ name).rdropWhile p = l.rdropWhile p := by
  rw [List.rdropWhile, List.reverse_append, List.dropWhile_append_of_pos fun c hc => h c (List.mem_reverse.mp hc),
    List.rdropWhile]

/-- A text with a slash is what stands before its last slashes, and the name behind them. -/
theorem exists_last_slash {path : Text} (h : '/' ∈ path) : ∃ (start : Text) (n : Nat) (name : Text),
    path = start ++ List.replicate (n + 1) '/' ++ name ∧ '/' ∉ name ∧ start.getLast? ≠ some '/' := by
  obtain ⟨before, name, rfl, hname⟩ : ∃ before name, path = before ++ '/' :: name ∧ '/' ∉ name := by
    obtain ⟨name, before, hrev, hname⟩ := List.eq_append_cons_of_mem (List.mem_reverse.mpr h)
    refine ⟨before.reverse, name.reverse, ?_, fun hmem => hname (List.mem_reverse.mp hmem)⟩
    rw [← List.reverse_reverse path, hrev, List.reverse_append, List.reverse_cons, List.append_assoc]
    rfl
  have hall : ∀ c ∈ before.rtakeWhile (· = '/'), c = '/' := fun c hc => by
    simpa using List.mem_rtakeWhile_imp hc
  refine ⟨before.rdropWhile (· = '/'), (before.rtakeWhile (· = '/')).length, name, ?_, hname, fun hlast => ?_⟩
  · conv_lhs => rw [← List.rdropWhile_append_rtakeWhile (p := (· = '/')) (l := before), List.eq_replicate_of_mem hall]
    rw [List.replicate_succ', List.append_assoc, List.append_assoc, List.append_assoc]
    rfl
  · obtain ⟨init, hinit⟩ := List.getLast?_eq_some_iff.mp hlast
    exact List.rdropWhile_last_not (· = '/') before (by simp [hinit]) (by simp [hinit])

theorem dirname_slashes {start name : Text} {n : Nat} (hname : '/' ∉ name) (hstart : start.getLast? ≠ some '/') :
    dirname (start ++ List.replicate (n + 1) '/' ++ name) = if start = [] then ['/'] else start := by
  have hmem : '/' ∈ start ++ List.replicate (n + 1) '/' ++ name := by simp
  have hdir : ((start ++ List.replicate (n + 1) '/' ++ name).rdropWhile (· ≠ '/')).rdropWhile (· = '/') = start := by
    rw [rdropWhile_append_pos fun c hc => by
        rw [decide_eq_true_iff]
        rintro rfl
        exact hname hc,
      List.replicate_succ', ← List.append_assoc, List.rdropWhile_concat_neg _ _ _ (by simp), List.append_assoc,
      ← List.replicate_succ', rdropWhile_append_pos fun c hc => by simpa using hc, List.rdropWhile_eq_self_iff]
    intro hne hlast
    rw [decide_eq_true_iff] at hlast
    exact hstart (by rw [List.getLast?_eq_some_getLast hne, hlast])
  rw [dirname, if_pos hmem, hdir]
  cases start with
  | nil => rfl
  | cons c start => rfl

/-- The text before the last slashes of a control group path. -/
theorem exists_parent (hhead : CGroupPath.head? ≠ some '/') (h : '/' ∈ CGroupPath) :
    ∃ (parent : Text) (n : Nat) (name : Text), CGroupPath = parent ++ List.replicate (n + 1) '/' ++ name ∧ '/' ∉ name ∧
      parent.getLast? ≠ some '/' ∧ parent ≠ [] ∧ parent.head? ≠ some '/' := by
  obtain ⟨parent, n, name, rfl, hname, hparent⟩ := exists_last_slash h
  refine ⟨parent, n, name, rfl, hname, hparent, ?_, ?_⟩
  · rintro rfl
    exact hhead rfl
  · cases parent with
    | nil => nofun
    | cons c parent => exact hhead

theorem subdirectory_slash (path : Text) : subdirectory (path ++ ['/']) = dirname path ++ ['/'] := by
  rw [subdirectory, List.reverse_append, List.reverse_singleton, List.singleton_append]
  show dirname path.reverse.reverse ++ ['/'] = dirname path ++ ['/']
  rw [List.reverse_reverse]

theorem subdirectory_name (h : path.getLast? ≠ some '/') : subdirectory path = dirname path ++ ['/'] := by
  unfold subdirectory
  split
  · rename_i PathRev hrev
    refine absurd ?_ h
    rw [← List.head?_reverse, hrev, List.head?_cons]
  · rfl

/-- A name behind the last slashes does not matter. -/
theorem subdirectory_parent {parent name : Text} {n : Nat} (hname : '/' ∉ name) (hne : name ≠ [])
    (hparent : parent.getLast? ≠ some '/') (hnil : parent ≠ []) :
    subdirectory (parent ++ List.replicate (n + 1) '/' ++ name) = parent ++ ['/'] := by
  rw [subdirectory_name, dirname_slashes hname hparent, if_neg hnil]
  rw [List.getLast?_append_of_ne_nil _ hne]
  intro hlast
  exact hname (List.mem_of_getLast? hlast)

/-- The directory of a text does not end with a slash, other than the root of the file system. -/
theorem dirname_last (path : Text) : dirname path = ['/'] ∨ (dirname path).getLast? ≠ some '/' := by
  by_cases h : '/' ∈ path
  · obtain ⟨start, n, name, rfl, hname, hstart⟩ := exists_last_slash h
    rw [dirname_slashes hname hstart]
    split_ifs
    · exact .inl rfl
    · exact .inr hstart
  · rw [dirname, if_neg h]
    exact .inr nofun

theorem exists_subdirectory (path : Text) : ∃ name, subdirectory path = dirname name ++ ['/'] := by
  unfold subdirectory
  split
  · exact ⟨_, rfl⟩
  · exact ⟨_, rfl⟩

/-- A root path that comes up does not end with two slashes, other than that of the file system. -/
theorem subdirectory_ne (h : ['/', '/'] <:+ Path) (hne : Path ≠ ['/', '/']) : subdirectory path ≠ Path := by
  rintro rfl
  obtain ⟨name, hsub⟩ := exists_subdirectory path
  rw [hsub] at h hne
  obtain hroot | hlast := dirname_last name
  · exact hne (by rw [hroot]; rfl)
  · obtain ⟨start, hstart⟩ := h
    have hslash : start ++ ['/'] ++ ['/'] = dirname name ++ ['/'] := by
      rw [← hstart, List.append_assoc]
      rfl
    exact hlast (by rw [← List.append_cancel_right hslash, List.getLast?_concat])

/-! ## The climb -/

/-- The directories that are climbed through before the root path comes up. -/
inductive Climb (Path : Text) : Text → List Text → Prop
  | root : Climb Path Path []
  | up {directory : Text} {directories : List Text} : directory ≠ Path →
      Climb Path (subdirectory directory) directories → Climb Path directory (directory :: directories)

/-- The root path comes up from a single name. -/
theorem subdirectory_single (hp : Path.getLast? = some '/') (hlen : 1 < Path.length)
    (hc : Path = ['/', '/'] ∨ ¬['/', '/'] <:+ Path) (hname : '/' ∉ Name) (hne : Name ≠ []) :
    subdirectory (Path ++ Name) = Path := by
  have hmem : '/' ∈ Path := List.mem_of_getLast? hp
  have hlast : (Path ++ Name).getLast? ≠ some '/' := by
    rw [List.getLast?_append_of_ne_nil _ hne]
    exact fun hlast => hname (List.mem_of_getLast? hlast)
  obtain ⟨start, n, rest, rfl, hrest, hstart⟩ := exists_last_slash hmem
  have hnil : rest = [] := by
    by_contra hne
    rw [List.getLast?_append_of_ne_nil _ hne] at hp
    exact hrest (List.mem_of_getLast? hp)
  subst hnil
  rw [List.append_nil] at hc hlast ⊢
  rw [subdirectory_name hlast, dirname_slashes hname hstart]
  obtain hroot | hsingle := hc
  · have hs : start = [] := by
      cases start with
      | nil => rfl
      | cons c start =>
        obtain ⟨rfl, htail⟩ := List.cons.inj hroot
        cases start with
        | nil => exact absurd rfl hstart
        | cons c start =>
          have := congrArg List.length htail
          simp at this
    rw [if_pos hs, hroot]
    rfl
  · cases n with
    | zero =>
      split_ifs with hs
      · subst hs
        simp at hlen
      · rfl
    | succ n =>
      refine absurd ⟨start ++ List.replicate n '/', ?_⟩ hsingle
      rw [List.append_assoc, List.replicate_succ', List.replicate_succ', List.append_assoc]
      rfl

/-- Whether a text is a control group path that is not empty, for the slashes. -/
def Named (CGroupPath : Text) : Prop :=
  CGroupPath ≠ [] ∧ CGroupPath.head? ≠ some '/' ∧ CGroupPath.getLast? ≠ some '/'

theorem exists_climb (hp : Path.getLast? = some '/') (hlen : 1 < Path.length)
    (hc : Path = ['/', '/'] ∨ ¬['/', '/'] <:+ Path) (hn : Named CGroupPath) :
    ∃ directories, Climb Path (subdirectory (Path ++ CGroupPath)) directories ∧
      (∀ directory ∈ directories, ∃ part, directory = Path ++ (part ++ ['/']) ∧ part ++ ['/'] <+: CGroupPath) ∧
      ∀ part, part ++ ['/'] <+: CGroupPath → ∃ directory ∈ directories, ∃ slashes : Text,
        (∀ c ∈ slashes, c = '/') ∧ Path ++ (part ++ ['/']) = directory ++ slashes := by
  induction hsize : CGroupPath.length using Nat.strong_induction_on generalizing CGroupPath with
  | h size ih =>
  obtain ⟨hne, hhead, hlast⟩ := hn
  by_cases hslash : '/' ∈ CGroupPath
  swap
  · rw [subdirectory_single hp hlen hc hslash hne]
    refine ⟨[], .root, fun _ => nofun, fun part hpart => ?_⟩
    exact absurd (hpart.subset (List.mem_append_right _ (List.mem_singleton_self _))) hslash
  obtain ⟨parent, n, name, rfl, hname, hparent, hnil, hphead⟩ := exists_parent hhead hslash
  have hnne : name ≠ [] := by
    rintro rfl
    rw [List.append_nil, List.replicate_succ', ← List.append_assoc, List.getLast?_concat] at hlast
    exact hlast rfl
  have hnamed : Named parent := ⟨hnil, hphead, hparent⟩
  have hfull : (Path ++ parent).getLast? ≠ some '/' := by
    rwa [List.getLast?_append_of_ne_nil _ hnil]
  have hsub : subdirectory (Path ++ (parent ++ List.replicate (n + 1) '/' ++ name)) = Path ++ (parent ++ ['/']) := by
    rw [← List.append_assoc, ← List.append_assoc, subdirectory_parent hname hnne hfull (by simp [hnil]),
      List.append_assoc]
  have hnext : subdirectory (Path ++ (parent ++ ['/'])) = subdirectory (Path ++ parent) := by
    rw [← List.append_assoc, subdirectory_slash, subdirectory_name hfull]
  have hprefix : parent ++ ['/'] <+: parent ++ List.replicate (n + 1) '/' ++ name :=
    ⟨List.replicate n '/' ++ name, by simp [List.replicate_succ]⟩
  obtain ⟨directories, hclimb, hbetween, hcovers⟩ := ih parent.length (by simp at hsize; omega) hnamed rfl
  rw [hsub]
  refine ⟨(Path ++ (parent ++ ['/'])) :: directories, .up (by simp) (by rwa [hnext]), ?_, ?_⟩
  · intro directory hd
    obtain rfl | hd := List.mem_cons.mp hd
    · exact ⟨parent, rfl, hprefix⟩
    · obtain ⟨part, hdir, hpart⟩ := hbetween directory hd
      exact ⟨part, hdir, hpart.trans ((List.prefix_append _ _).trans hprefix)⟩
  · intro part hpart
    rcases Nat.lt_or_ge part.length parent.length with hlt | hge
    · have hshort : part ++ ['/'] <+: parent :=
        List.prefix_of_prefix_length_le hpart ((List.prefix_append _ _).trans (List.prefix_append _ _)) (by simp; omega)
      obtain ⟨directory, hd, hslashes⟩ := hcovers part hshort
      exact ⟨directory, List.mem_cons_of_mem _ hd, hslashes⟩
    · obtain ⟨slashes, rfl⟩ : parent <+: part :=
        List.prefix_of_prefix_length_le ((List.prefix_append _ _).trans (List.prefix_append _ _))
          ((List.prefix_append _ _).trans hpart) hge
      rw [List.append_assoc, List.append_assoc, List.prefix_append_right_inj] at hpart
      have hslashes := slashes_before hname hpart
      refine ⟨_, List.mem_cons_self, slashes, hslashes, ?_⟩
      rw [List.eq_replicate_of_mem hslashes, List.append_assoc, ← List.replicate_succ', List.replicate_succ,
        List.append_assoc, List.append_assoc]
      rfl

/-! ## The recursions -/

section Acts

variable {α β : Type} {D : Text → Prop} {sh : Shell} {h h' : List Command} {directory : Text} {directories : List Text}

/-- All commands of a result are about some directories. -/
def Acts (D : Text → Prop) (h : List Command) (outcome : Outcome α) : Prop :=
  ∃ new, outcome.2 = new ++ h ∧ ∀ command ∈ new, D command.directory

theorem Acts.refl (result : Except Failure α) : Acts D h (result, h) := ⟨[], rfl, fun _ => nofun⟩

theorem Acts.command {outcome : Outcome α} (command : Command) (hd : D command.directory)
    (ho : Acts D (command :: h) outcome) : Acts D h outcome := by
  obtain ⟨new, hnew, hacts⟩ := ho
  refine ⟨new ++ [command], ?_, fun c hc => ?_⟩
  · rw [hnew, List.append_assoc]
    rfl
  · obtain hc | hc := List.mem_append.mp hc
    · exact hacts c hc
    · rwa [List.mem_singleton.mp hc]

theorem Acts.trans {first : Outcome β} {second : Outcome α} (hf : Acts D h first) (hs : Acts D first.2 second) :
    Acts D h second := by
  obtain ⟨new, hnew, hacts⟩ := hf
  obtain ⟨new', hnew', hacts'⟩ := hs
  refine ⟨new' ++ new, ?_, fun c hc => ?_⟩
  · rw [hnew', hnew, List.append_assoc]
  · obtain hc | hc := List.mem_append.mp hc
    · exact hacts' c hc
    · exact hacts c hc

theorem subtreeControlSet_acts (Value : Text) (hd : D directory) :
    Acts D h (subtreeControlSet sh directory Value h) := by
  refine .command (.echo Value directory "cgroup.subtree_control".toList) hd ?_
  unfold subtreeControlSet
  dsimp only
  split
  · exact .refl _
  · exact .refl _

theorem subsystemParameterGet_acts (SubsystemParameter : Text) (hd : D directory) :
    Acts D h (subsystemParameterGet sh directory SubsystemParameter h) := by
  refine .command (.cat directory SubsystemParameter) hd ?_
  unfold subsystemParameterGet
  dsimp only
  split
  · exact .refl _
  · exact .refl _

theorem createUpdateSetValue_acts (SubsystemParameter : Text) (Value : Option Text) (hd : D directory) :
    Acts D h (createUpdateSetValue sh directory SubsystemParameter Value h) := by
  cases Value with
  | none => exact .refl _
  | some Value =>
    refine .command (.cat directory SubsystemParameter) hd ?_
    unfold createUpdateSetValue
    dsimp only
    split
    · split_ifs
      · refine .command (.echo Value directory SubsystemParameter) hd ?_
        split
        · exact .refl _
        · exact .refl _
      · exact .refl _
    · exact .refl _

/-- The recursion returns within some depth. -/
def Ends (D : Text → Prop) (h : List Command) (recursion : Nat → Option (Outcome α)) : Prop :=
  ∃ fuel outcome, recursion fuel = some outcome ∧ Acts D h outcome

variable (hclimb : Climb Path directory directories) (hroot : D Path) (hd : ∀ directory ∈ directories, D directory)

include hclimb hroot hd

theorem subtreeControlAdd_ends (Value : Text) :
    Ends D h fun fuel => subtreeControlAdd sh Value Path fuel directory h := by
  induction hclimb generalizing h with
  | root =>
    refine ⟨1, subtreeControlSet sh Path Value h, ?_, subtreeControlSet_acts Value hroot⟩
    dsimp only
    rw [subtreeControlAdd, if_pos rfl]
  | @up directory directories hne hclimb ih =>
    obtain ⟨hd, hrest⟩ := List.forall_mem_cons.mp hd
    obtain ⟨fuel, ⟨result, h'⟩, hadd, hacts⟩ := ih (h := h) hrest
    dsimp only at hadd
    cases result with
    | error e =>
      refine ⟨fuel + 1, (.error e, h'), ?_, hacts⟩
      dsimp only
      rw [subtreeControlAdd, if_neg hne, hadd]
    | ok _ =>
      refine ⟨fuel + 1, subtreeControlSet sh directory Value h', ?_, hacts.trans (subtreeControlSet_acts Value hd)⟩
      dsimp only
      rw [subtreeControlAdd, if_neg hne, hadd]

theorem subtreeControlRemove_ends (Value : Text) :
    Ends D h fun fuel => subtreeControlRemove sh Value Path fuel directory h := by
  induction hclimb generalizing h with
  | root =>
    refine ⟨1, subtreeControlSet sh Path Value h, ?_, subtreeControlSet_acts Value hroot⟩
    dsimp only
    rw [subtreeControlRemove, if_pos rfl]
  | @up directory directories hne hclimb ih =>
    obtain ⟨hd, hrest⟩ := List.forall_mem_cons.mp hd
    have hset : Acts D h (subtreeControlSet sh directory Value h) := subtreeControlSet_acts Value hd
    rcases hs : subtreeControlSet sh directory Value h with ⟨result, h'⟩
    rw [hs] at hset
    cases result with
    | error e =>
      refine ⟨1, (.error e, h'), ?_, hset⟩
      dsimp only
      rw [subtreeControlRemove, if_neg hne, hs]
    | ok _ =>
      obtain ⟨fuel, outcome, hremove, hacts⟩ := ih (h := h') hrest
      refine ⟨fuel + 1, outcome, ?_, hset.trans hacts⟩
      dsimp only
      rw [subtreeControlRemove, if_neg hne, hs]
      exact hremove

theorem subsystemParameterSubpath_ends (SubsystemParameter : Text) :
    Ends D h fun fuel => subsystemParameterSubpath sh SubsystemParameter Path fuel directory h := by
  induction hclimb generalizing h with
  | root =>
    refine ⟨1, subsystemParameterGet sh Path SubsystemParameter h, ?_,
      subsystemParameterGet_acts SubsystemParameter hroot⟩
    dsimp only
    rw [subsystemParameterSubpath, if_pos rfl]
  | @up directory directories hne hclimb ih =>
    obtain ⟨hd, hrest⟩ := List.forall_mem_cons.mp hd
    have hget : Acts D h (subsystemParameterGet sh directory SubsystemParameter h) :=
      subsystemParameterGet_acts SubsystemParameter hd
    by_cases hempty : ∃ h', subsystemParameterGet sh directory SubsystemParameter h = (.ok [], h')
    · obtain ⟨h', hg⟩ := hempty
      rw [hg] at hget
      obtain ⟨fuel, outcome, hsub, hacts⟩ := ih (h := h') hrest
      refine ⟨fuel + 1, outcome, ?_, hget.trans hacts⟩
      dsimp only
      rw [subsystemParameterSubpath, if_neg hne, hg]
      exact hsub
    · refine ⟨1, _, ?_, hget⟩
      dsimp only
      rw [subsystemParameterSubpath, if_neg hne]
      split
      · rename_i h' hg
        exact absurd ⟨h', hg⟩ hempty
      · rfl

omit hroot in
theorem deleteRecursiveSubpath_ends :
    Ends D h fun fuel => deleteRecursiveSubpath sh Path fuel directory h := by
  induction hclimb generalizing h with
  | root =>
    refine ⟨1, (.ok (), h), ?_, .refl _⟩
    dsimp only
    rw [deleteRecursiveSubpath, if_pos rfl]
  | @up directory directories hne hclimb ih =>
    obtain ⟨hd, hrest⟩ := List.forall_mem_cons.mp hd
    rcases hs : sh (.rmdir directory :: h) with ⟨status, output⟩
    cases status with
    | zero =>
      obtain ⟨fuel, outcome, hdelete, hacts⟩ := ih (h := .rmdir directory :: h) hrest
      refine ⟨fuel + 1, outcome, ?_, .command (.rmdir directory) hd hacts⟩
      dsimp only
      rw [deleteRecursiveSubpath, if_neg hne]
      dsimp only
      rw [hs]
      exact hdelete
    | succ status =>
      refine ⟨1, (.ok (), .rmdir directory :: h), ?_, .command (.rmdir directory) hd (.refl _)⟩
      dsimp only
      rw [deleteRecursiveSubpath, if_neg hne]
      dsimp only
      rw [hs]
      rfl

omit hclimb hroot in
/-- The climb of `create_update_set_subpath` starts a directory below. -/
theorem createUpdateSetSubpath_ends (hclimb : Climb Path (subdirectory directory) directories)
    (CPUS MEMS : Option Text) :
    Ends D h fun fuel => createUpdateSetSubpath sh CPUS MEMS Path fuel directory h := by
  generalize hsub : subdirectory directory = start at hclimb
  induction hclimb generalizing h directory with
  | root =>
    refine ⟨1, (.ok (), h), ?_, .refl _⟩
    dsimp only
    rw [createUpdateSetSubpath, if_pos hsub]
  | @up start directories hne hclimb ih =>
    obtain ⟨hd, hrest⟩ := List.forall_mem_cons.mp hd
    obtain ⟨fuel, ⟨result, h'⟩, hcreate, hacts⟩ := ih (h := h) hrest rfl
    dsimp only at hcreate
    subst hsub
    cases result with
    | error e =>
      refine ⟨fuel + 1, (.error e, h'), ?_, hacts⟩
      dsimp only
      rw [createUpdateSetSubpath, if_neg hne, hcreate]
    | ok _ =>
      have hcpus : Acts D h' (createUpdateSetValue sh (subdirectory directory) "cpuset.cpus".toList CPUS h') :=
        createUpdateSetValue_acts _ CPUS hd
      rcases hv : createUpdateSetValue sh (subdirectory directory) "cpuset.cpus".toList CPUS h' with ⟨result, h''⟩
      rw [hv] at hcpus
      cases result with
      | error e =>
        refine ⟨fuel + 1, (.error e, h''), ?_, hacts.trans hcpus⟩
        dsimp only
        rw [createUpdateSetSubpath, if_neg hne, hcreate]
        dsimp only
        rw [hv]
      | ok _ =>
        refine ⟨fuel + 1, createUpdateSetValue sh (subdirectory directory) "cpuset.mems".toList MEMS h'', ?_,
          hacts.trans (hcpus.trans (createUpdateSetValue_acts _ MEMS hd))⟩
        dsimp only
        rw [createUpdateSetSubpath, if_neg hne, hcreate]
        dsimp only
        rw [hv]

omit hroot hd in
/-- Where no command fails, all the directories are acted on. -/
theorem subtreeControlAdd_success (Value : Text) {fuel : Nat} {outcome : Outcome Unit}
    (ho : subtreeControlAdd (fun _ => (0, [])) Value Path fuel directory h = some outcome) :
    outcome = (.ok (), (directories ++ [Path]).map (fun directory =>
      .echo Value directory "cgroup.subtree_control".toList) ++ h) := by
  induction hclimb generalizing fuel outcome with
  | root =>
    cases fuel with
    | zero => cases ho
    | succ fuel =>
      rw [subtreeControlAdd, if_pos rfl] at ho
      cases ho
      rfl
  | @up directory directories hne hclimb ih =>
    cases fuel with
    | zero => cases ho
    | succ fuel =>
      rw [subtreeControlAdd, if_neg hne] at ho
      cases hadd : subtreeControlAdd (fun _ => (0, [])) Value Path fuel (subdirectory directory) h with
      | none =>
        rw [hadd] at ho
        cases ho
      | some outcome' =>
        obtain rfl := ih hadd
        rw [hadd] at ho
        cases ho
        rfl

end Acts

/-! ## Climbs that do not end -/

/-- The root path does not come up where an invariant keeps it away. -/
theorem subtreeControlAdd_none (Invariant : Text → Prop) (hne : ∀ path, Invariant path → path ≠ Path)
    (hsub : ∀ path, Invariant path → Invariant (subdirectory path)) {sh : Shell} {Value : Text} {h : List Command}
    (fuel : Nat) (hi : Invariant path) : subtreeControlAdd sh Value Path fuel path h = none := by
  induction fuel generalizing path with
  | zero => rfl
  | succ fuel ih => rw [subtreeControlAdd, if_neg (hne path hi), ih (hsub path hi)]

/-- The two texts that are their own directories. -/
def Fixed (path : Text) : Prop := path = ['/', '/'] ∨ path = ['.', '/']

theorem Fixed.subdirectory (h : Fixed path) : Cgroups.subdirectory path = path := by
  obtain rfl | rfl := h
  · rfl
  · rfl

/-- Any other directory is shorter. -/
theorem subdirectory_shorter (hp : path.getLast? = some '/') : (subdirectory path).getLast? = some '/' ∧
    ((subdirectory path).length < path.length ∨ Fixed (subdirectory path)) := by
  obtain ⟨start, rfl⟩ := List.getLast?_eq_some_iff.mp hp
  rw [subdirectory_slash]
  refine ⟨List.getLast?_concat, ?_⟩
  by_cases h : '/' ∈ start
  · obtain ⟨before, n, name, rfl, hname, hbefore⟩ := exists_last_slash h
    rw [dirname_slashes hname hbefore]
    split_ifs
    · exact .inr (.inl rfl)
    · refine .inl ?_
      simp
      omega
  · rw [dirname, if_neg h]
    exact .inr (.inr rfl)

/-- The climb from the root path itself. -/
theorem not_ends_root (hp : Path.getLast? = some '/') (hfixed : ¬Fixed Path) {sh : Shell} {Value : Text}
    {h : List Command} (fuel : Nat) : subtreeControlAdd sh Value Path fuel (subdirectory Path) h = none := by
  refine subtreeControlAdd_none
    (fun path => path.getLast? = some '/' ∧ (path.length < Path.length ∨ Fixed path))
    (fun path hi => ?_) (fun path hi => ?_) fuel (subdirectory_shorter hp)
  · rintro rfl
    obtain hlt | hf := hi.2
    · exact absurd hlt (lt_irrefl _)
    · exact hfixed hf
  · obtain ⟨hlast, hshort | hlt⟩ := subdirectory_shorter hi.1
    · obtain hi' | hf := hi.2
      · exact ⟨hlast, .inl (hshort.trans hi')⟩
      · rw [hf.subdirectory]
        exact hi
    · exact ⟨hlast, .inr hlt⟩

/-- The climb from a control group below a root path that ends with two slashes. -/
theorem not_ends_named (h : ['/', '/'] <:+ Path) (hne : Path ≠ ['/', '/']) {sh : Shell} {Value : Text}
    {h' : List Command} (fuel : Nat) : subtreeControlAdd sh Value Path fuel (subdirectory path) h' = none :=
  subtreeControlAdd_none (fun directory => ∃ path, directory = subdirectory path)
    (fun _ ⟨_, heq⟩ => heq ▸ subdirectory_ne h hne) (fun path _ => ⟨path, rfl⟩) fuel ⟨path, rfl⟩

/-! ## All the recursions -/

theorem named_of_valid (hv : cgroupPathValid CGroupPath) (hne : CGroupPath ≠ []) : Named CGroupPath := by
  simp only [cgroupPathValid, hne, false_or, decide_eq_true_iff] at hv
  exact ⟨hne, hv.1, by rw [← List.head?_reverse]; exact hv.2.1⟩

/-- What the climb goes through, for any control group path. -/
theorem comes_climb (hp : Path.getLast? = some '/') (hlen : 1 < Path.length) (hv : cgroupPathValid CGroupPath)
    (hc : Comes Path CGroupPath) :
    ∃ directories, Climb Path (subdirectory (Path ++ CGroupPath)) directories ∧
      (∀ directory ∈ directories, ∃ part, directory = Path ++ (part ++ ['/']) ∧ part ++ ['/'] <+: CGroupPath) ∧
      ∀ part, part ++ ['/'] <+: CGroupPath → ∃ directory ∈ directories, ∃ slashes : Text,
        (∀ c ∈ slashes, c = '/') ∧ Path ++ (part ++ ['/']) = directory ++ slashes := by
  unfold Comes at hc
  split_ifs at hc with hnil
  · subst hnil
    have hfixed : Fixed Path := hc
    rw [List.append_nil, hfixed.subdirectory]
    refine ⟨[], .root, fun _ => nofun, fun part hpart => ?_⟩
    simp at hpart
  · exact exists_climb hp hlen hc (named_of_valid hv hnil)

theorem not_comes (hp : Path.getLast? = some '/') (hc : ¬Comes Path CGroupPath) : ¬Climbs Path CGroupPath := by
  intro hclimbs
  obtain ⟨fuel, result, new, hadd, -⟩ := hclimbs.add [] (fun _ => (0, [])) []
  dsimp only at hadd
  unfold Comes at hc
  split_ifs at hc with hnil
  · subst hnil
    rw [List.append_nil, not_ends_root hp hc] at hadd
    cases hadd
  · obtain ⟨hne, hsuffix⟩ := not_or.mp hc
    rw [not_ends_named (not_not.mp hsuffix) hne] at hadd
    cases hadd

theorem Ends.returns {α : Type} {recursion : Shell → Nat → List Command → Option (Outcome α)}
    (hr : ∀ sh h, Ends (fun text => ∀ directory, Takes text directory → Between Path CGroupPath directory) h
      fun fuel => recursion sh fuel h) :
    Returns Path CGroupPath recursion := by
  intro sh h
  obtain ⟨fuel, ⟨result, h'⟩, hrec, new, rfl, hacts⟩ := hr sh h
  exact ⟨fuel, result, new, hrec, hacts⟩

/-- A slash more is kept as well. -/
theorem Kept.slashes {text slashes : Text} (h : Kept text) (hs : ∀ c ∈ slashes, c = '/') : Kept (text ++ slashes) := by
  induction slashes using List.reverseRecOn with
  | nil => rwa [List.append_nil]
  | append_singleton slashes c ih =>
    obtain ⟨hchars, hback, hline⟩ := ih fun c hc => hs c (List.mem_append_left _ hc)
    obtain rfl := hs c (List.mem_append_right _ (List.mem_singleton_self c))
    have hpair {d : Char} (hd : d ≠ '/') (hno : ¬['\\', d] <:+: text ++ slashes) :
        ¬['\\', d] <:+: text ++ (slashes ++ ['/']) := by
      rw [← List.append_assoc, List.infix_concat_iff, not_or]
      refine ⟨fun hsuffix => hd ?_, hno⟩
      have hlast := hsuffix.getLast (List.cons_ne_nil _ _)
      rwa [List.getLast_concat] at hlast
    refine ⟨fun c hc => ?_, hpair (by decide) hback, hpair (by decide) hline⟩
    rw [← List.append_assoc] at hc
    obtain hc | hc := List.mem_append.mp hc
    · exact hchars c hc
    · rw [List.mem_singleton.mp hc]
      decide

theorem Kept.shorter {text start : Text} (h : Kept text) (hp : start <+: text) : Kept start :=
  ⟨fun c hc => h.1 c (hp.subset hc), fun hi => h.2.1 (hi.trans hp.isInfix), fun hi => h.2.2 (hi.trans hp.isInfix)⟩

/-- Whatever the shell takes a text for is between, exactly if it keeps the text, which is. -/
theorem takes_iff (hlen : 1 < Path.length) {text : Text} :
    (∀ directory, Takes text directory → Between Path CGroupPath directory) ↔
      Kept text ∧ Between Path CGroupPath text := by
  constructor
  · intro h
    refine ⟨?_, h text fun _ => rfl⟩
    by_contra hk
    obtain ⟨⟨part, hpart, -⟩, -⟩ := h [] fun hkept => absurd hkept hk
    have hnil := congrArg List.length hpart
    simp only [List.length_nil, List.length_append] at hnil
    omega
  · rintro ⟨hk, hb⟩ directory htakes
    rwa [htakes hk]

end CloudI.Cgroups
