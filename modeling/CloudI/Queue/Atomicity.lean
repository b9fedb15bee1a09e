import CloudI.Framework.AtomicFile
import CloudI.Queue.Recovery

/-!
# Crashes of the write-ahead log

The log is changed through the temporary file: it is opened, written with
`pwrite`, closed, renamed over the file, and copied from it again. Here each of
these is a step of its own, and the process can crash between any two of them,
which leaves the temporary file with any content.

* `Call.steps_spec`: the steps of a call turn the file before it into the file
  after it, which `Call.apply` gives;
* `recoverSteps_run`: so do those of recovery;
* `Run.survives`: in every run the file has the content after the completed
  operations, or after the one in progress too, and `new/3` reads that content.
-/

set_option linter.unusedSectionVars false

namespace CloudI.Queue

variable {Id R : Type} [DecidableEq Id]

/-! ## The steps of the operations -/

def fileOpenTmp : List FileStep := [.open]

def fileCloseTmp : List FileStep := [.close, .rename, .copy]

/-- `file_open_copy`, which deletes a temporary file that is left over when there is no file. -/
def fileOpenCopy (f : Files) : List FileStep := [if f.main = none then .delete else .copy, .open]

/-- `erase_chunk`, where `position` is that of the state. -/
def eraseChunkSteps (chunk : Chunk R) (position : Nat) : List FileStep :=
  if chunk.position + chunkOverhead + chunk.size = position then
    [.pwrite chunk.position (be 8 0 ++ be 8 0 ++ zeros chunk.size)]
  else [.pwrite chunk.position (be 8 chunk.size ++ be 8 0 ++ zeros chunk.size)]

variable (encode : Encode R)

/-- The writes of a new chunk, and the position of the state after it. -/
def storeSteps (chunkRequest : R) (s : State Id R) : List FileStep × Nat :=
  match chunkFreeCheck s.chunksFree [] (encode chunkRequest).length with
  | none =>
    ([.pwrite s.position (chunkBytes (encode chunkRequest).length (encode chunkRequest))],
      s.position + chunkOverhead + (encode chunkRequest).length)
  | some (chunk, _) => ([.pwrite chunk.position (chunkBytes chunk.size (encode chunkRequest))], s.position)

/-- What a service calls, one function of the log at a time. -/
inductive Call (Id R : Type) where
  | storeStart (chunkRequest : R)
  | storeEnd (chunkId : Id) (chunk : Chunk R)
  | storeFail (chunk : Chunk R)
  | erase (chunkId : Id)
  | eraseRetry (chunkId : Id) (retryMax : Nat) (retryF : RetryF Id R)
  | update (chunkId : Id) (updateF : UpdateF Id R)

/-- What the call does to the state. -/
def Call.apply (s : State Id R) : Call Id R → Except Exn (State Id R)
  | .storeStart chunkRequest => .ok (Queue.storeStart encode chunkRequest s).2
  | .storeEnd chunkId chunk => .ok (Queue.storeEnd chunkId chunk s)
  | .storeFail chunk => .ok (Queue.storeFail chunk s)
  | .erase chunkId => (Queue.erase chunkId s).map Prod.snd
  | .eraseRetry chunkId retryMax retryF => Queue.eraseRetry chunkId retryMax retryF s
  | .update chunkId updateF => (Queue.update encode chunkId updateF s).map Prod.snd

/-- The file operations of the call: none when the chunk is not in the state. -/
def Call.steps (s : State Id R) : Call Id R → List FileStep
  | .storeStart chunkRequest => fileOpenTmp ++ (storeSteps encode chunkRequest s).1 ++ fileCloseTmp
  | .storeEnd _ _ => []
  | .storeFail chunk => fileOpenTmp ++ eraseChunkSteps chunk s.position ++ fileCloseTmp
  | .erase chunkId =>
    match s.chunks chunkId with
    | none => []
    | some chunk => fileOpenTmp ++ eraseChunkSteps chunk s.position ++ fileCloseTmp
  | .eraseRetry chunkId retryMax retryF =>
    match s.chunks chunkId with
    | none => []
    | some chunk =>
      match retryF chunk.request (decide (chunk.retries < retryMax)) with
      | none => fileOpenTmp ++ eraseChunkSteps chunk s.position ++ fileCloseTmp
      | some _ => []
  | .update chunkId updateF =>
    match s.chunks chunkId with
    | none => []
    | some chunk =>
      match updateF chunk.request with
      | none => fileOpenTmp ++ eraseChunkSteps chunk s.position ++ fileCloseTmp
      | some (_, newChunkRequest) =>
        let stored := storeSteps encode newChunkRequest s
        fileOpenTmp ++ (stored.1 ++ eraseChunkSteps chunk stored.2) ++ fileCloseTmp

variable (decode : Decode R) (retryF : Retries Id R)

/-- The writes of `chunk_recover` -/
def chunkRecoverSteps (position chunkSize : Nat) (r : Recover Id R) : List FileStep :=
  match read r.file r.cursor 8 with
  | none => []
  | some b =>
    if ofBe b = 0 then []
    else
      match read r.file (r.cursor + 8) (ofBe b) with
      | none => []
      | some chunkData =>
        match decode chunkData with
        | none => []
        | some chunkRequest =>
          match retryF r.retried.length chunkRequest true with
          | none => [.pwrite position (be 8 chunkSize ++ be 8 0 ++ zeros chunkSize)]
          | some _ => []

/-- The writes of `chunks_recover` -/
def recoverSteps : Nat → Recover Id R → List FileStep
  | 0, _ => []
  | fuel + 1, r =>
    match read r.file r.cursor 8 with
    | none => []
    | some b =>
      if ofBe b = 0 then []
      else
        match chunkRecover decode retryF r.position (ofBe b) { r with cursor := r.cursor + 8 } with
        | .error _ => []
        | .ok r' =>
          chunkRecoverSteps decode retryF r.position (ofBe b) { r with cursor := r.cursor + 8 } ++ recoverSteps fuel r'

/-! ## What the steps do -/

variable {encode decode retryF} {f : Files} {s s' : State Id R} {b : List UInt8} {l : List FileStep}

/-- Steps that only write turn one content of the copy into another. -/
structure Writes (l : List FileStep) (b b' : List UInt8) : Prop where
  rename_notMem : .rename ∉ l
  run : ∀ f : Files, f.tmp = some b → (f.run l).tmp = some b'

theorem Writes.nil (b : List UInt8) : Writes [] b b := ⟨List.not_mem_nil, fun _ h => h⟩

theorem Writes.pwrite (position : Nat) (bytes b : List UInt8) :
    Writes [.pwrite position bytes] b (pwrite position bytes b) :=
  ⟨by simp, fun _ h => Files.run_pwrite h position bytes⟩

theorem Writes.append {l l' : List FileStep} {b b' b'' : List UInt8} (h : Writes l b b') (h' : Writes l' b' b'') :
    Writes (l ++ l') b b'' := by
  refine ⟨fun hm => (List.mem_append.mp hm).elim h.rename_notMem h'.rename_notMem, fun f hf => ?_⟩
  rw [Files.run_append]
  exact h'.run _ (h.run f hf)

theorem eraseChunkSteps_writes (chunk : Chunk R) {position : Nat} (hp : s.position = position) (hb : s.file = b) :
    Writes (eraseChunkSteps chunk position) b (eraseChunk chunk s).file := by
  subst hp hb
  unfold eraseChunkSteps eraseChunk
  split
  · exact .pwrite _ _ _
  · exact .pwrite _ _ _

theorem storeSteps_writes (chunkRequest : R) (s : State Id R) :
    Writes (storeSteps encode chunkRequest s).1 s.file (storeStart encode chunkRequest s).2.file ∧
      (storeSteps encode chunkRequest s).2 = (storeStart encode chunkRequest s).2.position := by
  unfold storeSteps storeStart
  cases chunkFreeCheck s.chunksFree [] (encode chunkRequest).length with
  | none => exact ⟨.pwrite _ _ _, rfl⟩
  | some found => exact ⟨.pwrite _ _ _, rfl⟩

/-- Writes between opening and closing replace the file. -/
theorem Writes.replacing {b' : List UInt8} (h : Writes l b b') (hmain : f.main = some b) (htmp : f.tmp = some b) :
    Replacing (some b) b' f (fileOpenTmp ++ l ++ fileCloseTmp) := by
  have hopen : Writes [.open] b b := ⟨by simp, fun f hf => by simp [FileStep.run, hf]⟩
  have hclose : Writes [.close] b' b' := ⟨by simp, fun _ hf => hf⟩
  have hall := (hopen.append h).append hclose
  have := Replacing.writing hall.rename_notMem hmain (hall.run f htmp)
  simpa [fileOpenTmp, fileCloseTmp] using this

/-- The steps of a call replace the file by that after the call. -/
theorem Call.steps_spec {c : Call Id R} (h : c.apply encode s = .ok s') (hmain : f.main = some s.file)
    (htmp : f.tmp = some s.file) : Replacing (some s.file) s'.file f (c.steps encode s) := by
  have herase := fun chunk => (eraseChunkSteps_writes chunk (Eq.refl s.position) rfl).replacing hmain htmp
  cases c with
  | storeStart chunkRequest =>
    cases h
    exact (storeSteps_writes chunkRequest s).1.replacing hmain htmp
  | storeEnd chunkId chunk =>
    cases h
    exact .done hmain htmp
  | storeFail chunk =>
    cases h
    exact herase chunk
  | erase chunkId =>
    obtain ⟨_, hx, rfl⟩ := map_eq_ok h
    obtain ⟨chunk, hc, hx⟩ := bind_eq_ok hx
    cases hx
    rw [steps, Dict.fetch_eq_ok.mp hc]
    exact herase chunk
  | eraseRetry chunkId retryMax retryF =>
    obtain ⟨chunk, hc, hx⟩ := bind_eq_ok h
    rw [steps, Dict.fetch_eq_ok.mp hc]
    dsimp only at hx ⊢
    cases hF : retryF chunk.request (decide (chunk.retries < retryMax)) with
    | none =>
      rw [hF] at hx
      cases hx
      exact herase chunk
    | some newChunkId =>
      rw [hF] at hx
      cases hx
      exact .done hmain htmp
  | update chunkId updateF =>
    obtain ⟨_, hx, rfl⟩ := map_eq_ok h
    obtain ⟨chunk, hc, hx⟩ := bind_eq_ok hx
    rw [steps, Dict.fetch_eq_ok.mp hc]
    dsimp only at hx ⊢
    cases hF : updateF chunk.request with
    | none =>
      simp only [hF] at hx ⊢
      obtain ⟨erased, herased, hx⟩ := bind_eq_ok hx
      obtain ⟨chunk', hc', herased⟩ := bind_eq_ok herased
      cases hc.symm.trans hc'
      cases herased
      cases hx
      exact herase chunk
    | some new =>
      obtain ⟨newChunkId, newChunkRequest⟩ := new
      simp only [hF] at hx ⊢
      cases hx
      cases hfree : chunkFreeCheck s.chunksFree [] (encode newChunkRequest).length with
      | none =>
        simp only [storeSteps, hfree]
        exact ((Writes.pwrite _ _ _).append (eraseChunkSteps_writes chunk rfl rfl)).replacing hmain htmp
      | some found =>
        simp only [storeSteps, hfree]
        exact ((Writes.pwrite _ _ _).append (eraseChunkSteps_writes chunk rfl rfl)).replacing hmain htmp

theorem chunkRecoverSteps_writes {position chunkSize : Nat} {r r' : Recover Id R}
    (h : chunkRecover decode retryF position chunkSize r = .ok r') :
    Writes (chunkRecoverSteps decode retryF position chunkSize r) r.file r'.file := by
  unfold chunkRecover at h
  unfold chunkRecoverSteps
  cases hb : read r.file r.cursor 8 with
  | none =>
    rw [hb] at h
    cases h
  | some b =>
    simp only [hb] at h ⊢
    split at h
    · cases h
    · split at h
      · rename_i hz
        cases h
        rw [if_pos hz]
        exact .nil _
      · rename_i hz
        rw [if_neg hz]
        split at h
        · unfold chunkRecoverUsed at h
          cases hd : read r.file (r.cursor + 8) (ofBe b) with
          | none =>
            simp only [hd] at h
            cases h
          | some chunkData =>
            simp only [hd] at h ⊢
            cases hr : decode chunkData with
            | none =>
              simp only [hr] at h
              cases h
            | some chunkRequest =>
              simp only [hr] at h ⊢
              cases hF : retryF r.retried.length chunkRequest true with
              | none =>
                simp only [hF] at h ⊢
                cases h
                exact .pwrite _ _ _
              | some chunkId =>
                simp only [hF] at h ⊢
                split at h
                · cases h
                  exact .nil _
                · cases h
                  exact .nil _
        · cases h

theorem recoverSteps_writes {fuel : Nat} {r r' : Recover Id R}
    (h : chunksRecover decode retryF fuel r = some (.ok r')) :
    Writes (recoverSteps decode retryF fuel r) r.file r'.file := by
  induction fuel generalizing r with
  | zero => cases h
  | succ fuel ih =>
    unfold chunksRecover at h
    unfold recoverSteps
    cases hb : read r.file r.cursor 8 with
    | none =>
      rw [hb] at h
      cases h
      exact .nil _
    | some b =>
      simp only [hb] at h ⊢
      split at h
      · cases h
      · split at h
        · rename_i hz
          cases h
          rw [if_pos hz]
          exact .nil _
        · rename_i hz
          rw [if_neg hz]
          cases hc : chunkRecover decode retryF r.position (ofBe b) { r with cursor := r.cursor + 8 } with
          | error e =>
            rw [hc] at h
            cases h
          | ok r₁ =>
            simp only [hc] at h ⊢
            exact (chunkRecoverSteps_writes hc).append (ih h)

/-! ## Runs with crashes -/

/-- The process is down, opens the file, or has the state that it has once its steps are done. -/
inductive Phase (Id R : Type) where
  | down
  | opening (retryF : Retries Id R)
  | up (s : State Id R)

/-- The process with its files, and the file operations before it goes on. -/
structure Process (Id R : Type) where
  files : Files
  phase : Phase Id R
  steps : List FileStep

/-- The content of a file, if there is one. -/
abbrev Content := Option (List UInt8)

variable (encode decode) in
/-- The runs, with the content after the completed operations and that after the one in progress. -/
inductive Run : Process Id R → Content → Content → Prop where
  /-- Any files may exist at first. -/
  | start (f : Files) : Run ⟨f, .down, []⟩ f.main none
  | newOpen {f : Files} {c : Content} (h : Run ⟨f, .down, []⟩ c none) (retryF : Retries Id R) :
      Run ⟨f, .opening retryF, fileOpenCopy f⟩ c none
  /-- The chunks are read from the temporary file. -/
  | newRecover {f : Files} {c : Content} {retryF : Retries Id R} {fuel : Nat} {b : List UInt8} {s : State Id R}
      {retried : List R} (h : Run ⟨f, .opening retryF, []⟩ c none) (hb : f.tmp = some b)
      (hnew : new decode retryF fuel b = some (.ok (s, retried))) :
      Run ⟨f, .up s, recoverSteps decode retryF fuel ⟨b, 0, 0, Dict.new, [], []⟩ ++ fileCloseTmp⟩ c (some s.file)
  | call {f : Files} {c : Content} {s s' : State Id R} (h : Run ⟨f, .up s, []⟩ c none) (call : Call Id R)
      (hc : call.apply encode s = .ok s') : Run ⟨f, .up s', call.steps encode s⟩ c (some s'.file)
  | step {f : Files} {phase : Phase Id R} {s : FileStep} {l : List FileStep} {c next : Content}
      (h : Run ⟨f, phase, s :: l⟩ c next) : Run ⟨s.run f, phase, l⟩ c next
  | finish {f : Files} {s : State Id R} {c : Content} {b : List UInt8} (h : Run ⟨f, .up s, []⟩ c (some b)) :
      Run ⟨f, .up s, []⟩ (some b) none
  /-- The file stays as it is, and the temporary file can have any content. -/
  | crash {p : Process Id R} {c next : Content} (h : Run p c next) (tmp : Content) :
      Run ⟨⟨p.files.main, tmp⟩, .down, []⟩ p.files.main none

/-- What holds in each phase. -/
def Survives (f : Files) (l : List FileStep) (c : Content) : Phase Id R → Content → Prop
  | .down, next => f.main = c ∧ l = [] ∧ next = none
  | .opening _, next => f.main = c ∧ Opening f l ∧ next = none
  | .up s, none => l = [] ∧ f.main = some s.file ∧ f.tmp = some s.file ∧ c = some s.file
  | .up s, some b => b = s.file ∧ Replacing c b f l

theorem Run.survives {p : Process Id R} {c next : Content} (h : Run encode decode p c next) :
    Survives p.files p.steps c p.phase next := by
  induction h with
  | start f => exact ⟨rfl, rfl, rfl⟩
  | @newOpen f c h retryF ih =>
    refine ⟨ih.1, ⟨?_, ?_⟩, rfl⟩
    · unfold fileOpenCopy
      split <;> simp
    · unfold fileOpenCopy
      cases hmain : f.main with
      | none => simp [FileStep.run]
      | some b => simp [FileStep.run, hmain]
  | @newRecover f c retryF fuel b s retried h hb hnew ih =>
    obtain ⟨hmain, hopen, -⟩ := ih
    obtain ⟨recovered, hrec, hs⟩ := Option.map_eq_some_iff.mp hnew
    obtain ⟨r, rfl, hr⟩ := map_eq_ok hs
    cases hr
    have hw := recoverSteps_writes hrec
    have hclose : Writes [.close] r.file r.file := ⟨by simp, fun _ hf => hf⟩
    have hall := hw.append hclose
    have := Replacing.writing hall.rename_notMem hmain (hall.run f hb)
    exact ⟨rfl, by simpa [fileCloseTmp] using this⟩
  | call h call hc ih =>
    obtain ⟨-, hmain, htmp, hcontent⟩ := ih
    exact ⟨rfl, hcontent ▸ Call.steps_spec hc hmain htmp⟩
  | @step f phase s l c next h ih =>
    cases phase with
    | down => cases ih.2.1
    | opening retryF =>
      obtain ⟨hmain, hopen, hnext⟩ := ih
      exact ⟨hopen.step.1.trans hmain, hopen.step.2, hnext⟩
    | up s =>
      cases next with
      | none => cases ih.1
      | some b => exact ⟨ih.1, ih.2.step⟩
  | finish h ih =>
    obtain ⟨rfl, hr⟩ := ih
    exact ⟨rfl, hr.finished.1, hr.finished.2, rfl⟩
  | crash h tmp ih => exact ⟨rfl, rfl, rfl⟩

/-- At every step of every run the file has the content after the completed operations, or that after the one in
progress too, so that a crash leaves one of the two; and what `new/3` reads is the content of the file. -/
theorem write_ahead_log_atomic {p : Process Id R} {c next : Content} (h : Run encode decode p c next) :
    (p.files.main = c ∨ next ≠ none ∧ p.files.main = next) ∧
      (∀ retryF, p.phase = .opening retryF → p.files.main = c ∧
        (p.steps = [] → p.files.tmp = some (c.getD []))) ∧
      ∀ s, p.phase = .up s → next = none → p.files.main = some s.file := by
  have hs := h.survives
  obtain ⟨f, phase, l⟩ := p
  refine ⟨?_, fun retryF hphase => ?_, fun s hphase hnext => ?_⟩
  · cases phase with
    | down => exact .inl hs.1
    | opening retryF => exact .inl hs.1
    | up s =>
      cases next with
      | none => exact .inl (hs.2.1.trans hs.2.2.2.symm)
      | some b => exact hs.2.main.imp_right fun hm => ⟨Option.some_ne_none b, hm⟩
  · cases hphase
    obtain ⟨hmain, hopen, -⟩ := hs
    refine ⟨hmain, ?_⟩
    rintro rfl
    rw [← hmain]
    exact hopen.tmp
  · cases hphase
    cases hnext
    exact hs.2.1

/-- The first request is written to the temporary file of a new log, and the rename is to come. -/
theorem write_ahead_log_atomic_write : ∃ (p : Process Nat (List UInt8)) (next : Content),
    Run (fun r => r) some p (some []) next ∧ p.steps = [.close, .rename, .copy] ∧
      (p.files.main = some [] ∨ next ≠ none ∧ p.files.main = next) := by
  have hopen : Run (fun r : List UInt8 => r) some ⟨⟨none, some []⟩, .opening fun _ _ _ => some 0, []⟩ none none :=
    .step (.step (.newOpen (.start ⟨none, none⟩) fun _ _ _ => some (0 : Nat)))
  have hup : Run (fun r : List UInt8 => r) some ⟨⟨some [], some []⟩, .up (State.empty : State Nat (List UInt8)), []⟩
      (some []) none :=
    .finish (.step (.step (.step (.newRecover hopen (Eq.refl (some [])) (show new some _ 1 [] = _ from rfl)))))
  have hwrite := Run.step (.step (.call hup (.storeStart [7]) rfl))
  exact ⟨_, _, hwrite, rfl, (write_ahead_log_atomic hwrite).1⟩

end CloudI.Queue
