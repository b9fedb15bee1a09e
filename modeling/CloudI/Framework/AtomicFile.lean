import CloudI.Framework.BlockFile

/-!
# Replacing a file at once

A file is changed through a copy of it: the copy is written, takes the place of
the file, and is made again from it. Each file operation is a step, and the
program can end between any two of them.

`Replacing before after` is what holds while steps are left: the file has its
old content up to the rename and the new one from it on (`Replacing.main`), and
every step keeps that (`Replacing.step`).
-/

namespace CloudI

/-- The file and its copy, where they exist. -/
structure Files where
  main : Option (List UInt8)
  tmp : Option (List UInt8)

/-- A file operation. All but `copy` and `rename` are on the copy. -/
inductive FileStep where
  | copy
  | delete
  | open
  | pwrite (position : Nat) (bytes : List UInt8)
  | close
  | rename
deriving DecidableEq, Repr

/-- A copy without the file, and a rename without the copy, fail. -/
def FileStep.run (f : Files) : FileStep → Files
  | copy => if f.main = none then f else { f with tmp := f.main }
  | delete => { f with tmp := none }
  | .open => { f with tmp := some (f.tmp.getD []) }
  | pwrite position bytes => { f with tmp := f.tmp.map (CloudI.pwrite position bytes) }
  | close => f
  | rename => if f.tmp = none then f else ⟨f.tmp, none⟩

/-- The steps one after the other. -/
def Files.run (f : Files) (l : List FileStep) : Files := l.foldl FileStep.run f

@[simp] theorem Files.run_nil (f : Files) : f.run [] = f := rfl

@[simp] theorem Files.run_cons (f : Files) (s : FileStep) (l : List FileStep) : f.run (s :: l) = (s.run f).run l := rfl

theorem Files.run_append (f : Files) (l l' : List FileStep) : f.run (l ++ l') = (f.run l).run l' :=
  List.foldl_append

/-- Only the rename changes the file. -/
theorem FileStep.run_main {s : FileStep} (h : s ≠ rename) (f : Files) : (s.run f).main = f.main := by
  cases s with
  | copy =>
    rw [run]
    split <;> rfl
  | rename => exact absurd rfl h
  | _ => rfl

theorem Files.run_main {l : List FileStep} (h : .rename ∉ l) (f : Files) : (f.run l).main = f.main := by
  induction l generalizing f with
  | nil => rfl
  | cons s l ih =>
    rw [run_cons, ih fun hm => h (List.mem_cons_of_mem _ hm)]
    exact FileStep.run_main (fun hs => h (hs ▸ List.mem_cons_self)) f

/-- Writing to a copy that is open. -/
theorem Files.run_pwrite {f : Files} {b : List UInt8} (h : f.tmp = some b) (position : Nat) (bytes : List UInt8) :
    (f.run [.pwrite position bytes]).tmp = some (pwrite position bytes b) :=
  congrArg (Option.map (pwrite position bytes)) h

/-- While the steps `l` are left, the file has the old or the new content. -/
inductive Replacing (before : Option (List UInt8)) (after : List UInt8) (f : Files) : List FileStep → Prop where
  | writing {l : List FileStep} (hl : .rename ∉ l) (hmain : f.main = before) (htmp : (f.run l).tmp = some after) :
      Replacing before after f (l ++ [.rename, .copy])
  | renamed (hmain : f.main = some after) : Replacing before after f [.copy]
  | done (hmain : f.main = some after) (htmp : f.tmp = some after) : Replacing before after f []

variable {before : Option (List UInt8)} {after : List UInt8} {f : Files} {s : FileStep} {l : List FileStep}

theorem Replacing.main (h : Replacing before after f l) : f.main = before ∨ f.main = some after := by
  cases h with
  | writing _ hmain _ => exact .inl hmain
  | renamed hmain => exact .inr hmain
  | done hmain _ => exact .inr hmain

theorem Replacing.step (h : Replacing before after f (s :: l)) : Replacing before after (s.run f) l := by
  generalize hsteps : s :: l = steps at h
  cases h with
  | @writing pre hpre hmain htmp =>
    cases pre with
    | nil =>
      cases hsteps
      refine .renamed ?_
      rw [FileStep.run, if_neg (by rw [show f.tmp = some after from htmp]; exact Option.some_ne_none _)]
      exact htmp
    | cons t pre =>
      cases hsteps
      exact .writing (fun hm => hpre (List.mem_cons_of_mem _ hm))
        ((FileStep.run_main (fun ht => hpre (ht ▸ List.mem_cons_self)) f).trans hmain) htmp
  | renamed hmain =>
    cases hsteps
    have hcopy : FileStep.run f .copy = { f with tmp := f.main } := by
      rw [FileStep.run, if_neg (by rw [hmain]; exact Option.some_ne_none _)]
    rw [hcopy]
    exact .done hmain hmain
  | done _ _ => cases hsteps

theorem Replacing.finished (h : Replacing before after f []) : f.main = some after ∧ f.tmp = some after := by
  generalize hsteps : ([] : List FileStep) = steps at h
  cases h with
  | writing _ _ _ => exact absurd hsteps (by simp)
  | renamed _ => cases hsteps
  | done hmain htmp => exact ⟨hmain, htmp⟩

/-- While the steps are left, the copy is made from the file. -/
structure Opening (f : Files) (l : List FileStep) : Prop where
  rename_notMem : .rename ∉ l
  tmp : (f.run l).tmp = some (f.main.getD [])

theorem Opening.step (h : Opening f (s :: l)) : (s.run f).main = f.main ∧ Opening (s.run f) l := by
  have hmain := FileStep.run_main (fun hs => h.rename_notMem (hs ▸ List.mem_cons_self)) f
  exact ⟨hmain, fun hm => h.rename_notMem (List.mem_cons_of_mem _ hm), by rw [hmain]; exact h.tmp⟩

end CloudI
