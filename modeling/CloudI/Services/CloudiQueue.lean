import CloudI.Framework.Dict
import CloudI.Monitor.RestartIntensity

/-!
# The requests of `cloudi_queue`

A service that sends through `cloudi_queue` retries the requests that time out.
`send`, `recv` and `timeout` are the three functions on the state; each comes
with what it does besides: a call of `send_async_active`, or of `failure`.

`History` numbers the requests by the calls of `send` and attributes to each
what was done for it. `Tracks` relates it to the requests of the state, one
lemma for each way an operation ends; `Window` relates the failures to the list
of the state (`failure_spec`). `queue_tracking` is both for every run.
-/

set_option linter.unusedSectionVars false

namespace CloudI.Services.CloudiQueue

open CloudI.Monitor (secondsFilter secondsFilter_count secondsFilter_perm recently recently_recently)
open scoped List

variable {T E TransId : Type}

/-! ## The functions -/

/-- The `request` record -/
structure Request (T : Type) where
  name : T
  requestInfo : T
  request : T
  timeout : T
  priority : T
  patternPid : T
  retryCount : Nat := 0

/-- The options that `new/1` accepts; a period that is absent is `infinity`. -/
structure Options (T : Type) where
  retryMax : Nat := 0
  validateRequestInfo : Option (T → Bool) := none
  validateRequest : Option (T → T → Bool) := none
  validateResponseInfo : Option (T → Bool) := none
  validateResponse : Option (T → T → Bool)
  failuresSourceDie : Bool := false
  failuresSourceMaxCount : Nat := 1
  failuresSourceMaxPeriod : Option Nat := none
  maxCount_pos : 0 < failuresSourceMaxCount
  maxPeriod_pos : ∀ p ∈ failuresSourceMaxPeriod, 0 < p

/-- What changes in the state. -/
structure State (T TransId : Type) where
  failuresSource : List Nat
  requests : Dict TransId (Request T)

/-- `new/1` -/
def new : State T TransId := ⟨[], fun _ => none⟩

/-- The reason of an error: `timeout`, or one that `send_async_active` returns. -/
inductive Reason (E : Type) where
  | timeout
  | other (e : E)

/-- What a function returns besides the state. -/
inductive Reply (E : Type) where
  | ok
  | error (reason : Reason E)

def Reply.isOk : Reply E → Bool
  | ok => true
  | error _ => false

/-- How a function ends that does not return: `failure_kill/0`, or an error. -/
inductive Stop where
  | exit
  | exn (e : Exn)
deriving DecidableEq, Repr

/-- What a function does besides. -/
inductive Effect where
  | sendAsyncActive
  | failure
deriving DecidableEq, Repr

/-- What a call does, and what comes of it. -/
abbrev Outcome (T E TransId : Type) := List Effect × Except Stop (Reply E × State T TransId)

/-- `validate/4` -/
def validate (RInfoF : Option (T → Bool)) (RF : Option (T → T → Bool)) (RInfo R : T) : Bool :=
  match RInfoF, RF with
  | none, none => true
  | none, some RF => RF RInfo R
  | some RInfoF, none => RInfoF RInfo
  | some RInfoF, some RF => RInfoF RInfo && RF RInfo R

/-- `failure_store/3` -/
def failureStore (FailureList : List Nat) (FailureCount MaxCount : Nat) : Except Stop (List Nat) :=
  if FailureCount = MaxCount then .error .exit else .ok FailureList

/-- `failure_check/4` -/
def failureCheck (SecondsNow : Nat) (FailureList : List Nat) (MaxCount : Nat) (MaxPeriod : Option Nat) :
    Except Stop (List Nat) :=
  match MaxPeriod with
  | none => failureStore (SecondsNow :: FailureList) (FailureList.length + 1) MaxCount
  | some MaxPeriod =>
    let (NewFailureCount, NewFailureList) := secondsFilter FailureList SecondsNow MaxPeriod
    failureStore (SecondsNow :: NewFailureList) (NewFailureCount + 1) MaxCount

/-- `failure/4`, at the time `SecondsNow` -/
def failure (o : Options T) (SecondsNow : Nat) (FailureList : List Nat) : Except Stop (List Nat) :=
  if o.failuresSourceDie then
    failureCheck SecondsNow FailureList o.failuresSourceMaxCount o.failuresSourceMaxPeriod
  else .ok FailureList

variable [DecidableEq TransId]

/-- `send/8`, where `sent` is what `send_async_active` returns. -/
def send (o : Options T) (SecondsNow : Nat) (r : Request T) (sent : Except (Reason E) TransId) (s : State T TransId) :
    Outcome T E TransId :=
  if validate o.validateRequestInfo o.validateRequest r.requestInfo r.request then
    match sent with
    | .ok transId =>
      ([.sendAsyncActive], .ok (.ok, { s with requests := s.requests.store transId { r with retryCount := 0 } }))
    | .error Error =>
      ([.sendAsyncActive, .failure], (failure o SecondsNow s.failuresSource).map fun NewFailuresSrc =>
        (.error Error, { s with failuresSource := NewFailuresSrc }))
  else
    ([.failure], (failure o SecondsNow s.failuresSource).map fun NewFailuresSrc =>
      (.error .timeout, { s with failuresSource := NewFailuresSrc }))

/-- `recv/3` -/
def recv (o : Options T) (SecondsNow : Nat) (ResponseInfo Response : T) (transId : TransId) (s : State T TransId) :
    Outcome T E TransId :=
  match s.requests transId with
  | none => ([], .error (.exn .badarg))
  | some _ =>
    let NewRequests := s.requests.erase transId
    if validate o.validateResponseInfo o.validateResponse ResponseInfo Response then
      ([], .ok (.ok, { s with requests := NewRequests }))
    else
      ([.failure], (failure o SecondsNow s.failuresSource).map fun NewFailuresSrc =>
        (.error .timeout, ⟨NewFailuresSrc, NewRequests⟩))

/-- `timeout/3`, where `sent` is what `send_async_active` returns for a retry. -/
def timeout (o : Options T) (SecondsNow : Nat) (transId : TransId) (sent : Except (Reason E) TransId)
    (s : State T TransId) : Outcome T E TransId :=
  match s.requests transId with
  | none => ([], .error (.exn .badarg))
  | some RequestState =>
    if RequestState.retryCount = o.retryMax then
      ([.failure], (failure o SecondsNow s.failuresSource).map fun NewFailuresSrc =>
        (.error .timeout, ⟨NewFailuresSrc, s.requests.erase transId⟩))
    else if RequestState.retryCount < o.retryMax then
      match sent with
      | .ok t =>
        if t = transId then
          ([.sendAsyncActive], .ok (.ok, { s with
            requests := s.requests.store transId { RequestState with retryCount := RequestState.retryCount + 1 } }))
        else ([.sendAsyncActive], .error (.exn .caseClause))
      | .error Error =>
        ([.sendAsyncActive, .failure], (failure o SecondsNow s.failuresSource).map fun NewFailuresSrc =>
          (.error Error, ⟨NewFailuresSrc, s.requests.erase transId⟩))
    else ([], .error (.exn .caseClause))

/-! ## Runs -/

/-- A call of one of the functions, with the time at which it is made. -/
inductive Op (T E TransId : Type) where
  | send (now : Nat) (r : Request T) (sent : Except (Reason E) TransId)
  | recv (now : Nat) (responseInfo response : T) (transId : TransId)
  | timeout (now : Nat) (transId : TransId) (sent : Except (Reason E) TransId)

def Op.now : Op T E TransId → Nat
  | send now _ _ => now
  | recv now _ _ _ => now
  | timeout now _ _ => now

def Op.apply (o : Options T) (s : State T TransId) : Op T E TransId → Outcome T E TransId
  | .send now r sent => CloudiQueue.send o now r sent s
  | .recv now responseInfo response transId => CloudiQueue.recv o now responseInfo response transId s
  | .timeout now transId sent => CloudiQueue.timeout o now transId sent s

/-- What was done so far, newest first: the requests are numbered by the calls of `send`. A request owns the id that
it was sent with, and `ended` has the reply that ended it. -/
structure History (E TransId : Type) where
  now : Nat
  requests : Nat
  owner : Dict TransId Nat
  sent : List Nat
  ended : List (Nat × Reply E)
  failures : List (Nat × Nat)

def History.start : History E TransId := ⟨0, 0, fun _ => none, [], [], []⟩

/-- The request that the call is for. -/
def Op.request (h : History E TransId) : Op T E TransId → Nat
  | send _ _ _ => h.requests
  | recv _ _ _ transId => (h.owner transId).getD h.requests
  | timeout _ transId _ => (h.owner transId).getD h.requests

/-- Whether the reply ends the request: `ok` is what `send` and `timeout` return for one that is tracked. -/
def Op.ends (reply : Reply E) : Op T E TransId → Bool
  | send _ _ _ => !reply.isOk
  | recv _ _ _ _ => true
  | timeout _ _ _ => !reply.isOk

/-- How many requests there are after the call. -/
def Op.requests (h : History E TransId) : Op T E TransId → Nat
  | send _ _ _ => h.requests + 1
  | _ => h.requests

/-- The ids and their requests after a call that returned the reply. -/
def Op.owner (h : History E TransId) (reply : Reply E) : Op T E TransId → Dict TransId Nat
  | send _ _ (.ok transId) => if reply.isOk then h.owner.store transId h.requests else h.owner
  | _ => h.owner

/-- The history after a call. -/
def History.record (h : History E TransId) (op : Op T E TransId) (effects : List Effect) (reply : Reply E) :
    History E TransId where
  now := op.now
  requests := op.requests h
  owner := op.owner h reply
  sent := List.replicate (effects.count .sendAsyncActive) (op.request h) ++ h.sent
  ended := if op.ends reply then (op.request h, reply) :: h.ended else h.ended
  failures := List.replicate (effects.count .failure) (op.request h, op.now) ++ h.failures

/-- The clock does not go back, responses and timeouts are for requests that are tracked, a request is sent with a new
id, and sent again with its own. -/
def Op.Admissible (h : History E TransId) (s : State T TransId) (op : Op T E TransId) : Prop :=
  h.now ≤ op.now ∧
    match op with
    | send _ _ sent => ∀ transId, sent = .ok transId → h.owner transId = none
    | recv _ _ _ transId => s.requests transId ≠ none
    | timeout _ transId sent => s.requests transId ≠ none ∧ ∀ t, sent = .ok t → t = transId

/-- The runs in which the process has not exited. -/
inductive Run (o : Options T) : History E TransId → State T TransId → Prop where
  | start : Run o .start new
  | step {h : History E TransId} {s s' : State T TransId} {effects : List Effect} {reply : Reply E}
      (hrun : Run o h s) (op : Op T E TransId) (ha : op.Admissible h s)
      (hr : op.apply o s = (effects, .ok (reply, s'))) : Run o (h.record op effects reply) s'

/-! ## What is counted -/

/-- How often the request ended. -/
def endings (n : Nat) (ended : List (Nat × Reply E)) : Nat := ended.countP fun e => e.1 = n

/-- How often it ended without success. -/
def errors (n : Nat) (ended : List (Nat × Reply E)) : Nat := ended.countP fun e => e.1 = n ∧ e.2.isOk = false

/-- How many failures were counted for it. -/
def failed (n : Nat) (failures : List (Nat × Nat)) : Nat := failures.countP fun e => e.1 = n

/-- The failures that are not older than the period. -/
def window (MaxPeriod : Option Nat) (now : Nat) (l : List Nat) : List Nat :=
  match MaxPeriod with
  | none => l
  | some MaxPeriod => recently now MaxPeriod l

/-- A failure at the time is the last one that is allowed. -/
def IsLast (o : Options T) (now : Nat) (times : List Nat) : Prop :=
  (window o.failuresSourceMaxPeriod now (now :: times)).length = o.failuresSourceMaxCount

/-- The books of the requests: who owns an id, and what was done for a request that is tracked. -/
structure Tracks (retryMax requests : Nat) (owner : Dict TransId Nat) (sent : List Nat) (ended : List (Nat × Reply E))
    (failures : List (Nat × Nat)) (tracked : Dict TransId (Request T)) : Prop where
  owned : ∀ {t r}, tracked t = some r → ∃ n, owner t = some n ∧ endings n ended = 0 ∧
    sent.count n = r.retryCount + 1 ∧ r.retryCount ≤ retryMax
  injective : ∀ {t t' n}, owner t = some n → owner t' = some n → t = t'
  owner_lt : ∀ {t n}, owner t = some n → n < requests
  done : ∀ n < requests, (∃ t, owner t = some n ∧ tracked t ≠ none) ∨ endings n ended = 1
  sent_le : ∀ n, sent.count n ≤ retryMax + 1
  failed_eq : ∀ n, failed n failures = errors n ended
  fresh : ∀ n, requests ≤ n → sent.count n = 0 ∧ endings n ended = 0

/-- The list of the state has the failures of the period, and no failure so far was the last one. -/
structure Window (o : Options T) (now : Nat) (times : List Nat) (FailureList : List Nat) : Prop where
  past : ∀ t ∈ FailureList, t ≤ now
  recent : ∀ m, now ≤ m → window o.failuresSourceMaxPeriod m FailureList ~ window o.failuresSourceMaxPeriod m times
  lt : FailureList.length < o.failuresSourceMaxCount
  first : ∀ {k t rest}, times.drop k = t :: rest → ¬IsLast o t rest

variable {o : Options T} {s s' : State T TransId} {h : History E TransId} {now requests n : Nat}
  {times FailureList : List Nat}

/-! ## Failures -/

theorem window_window {MaxPeriod : Option Nat} {n m : Nat} (h : n ≤ m) (L : List Nat) :
    window MaxPeriod m (window MaxPeriod n L) = window MaxPeriod m L := by
  cases MaxPeriod with
  | none => rfl
  | some P => exact recently_recently h L

theorem window_sublist (MaxPeriod : Option Nat) (n : Nat) (L : List Nat) : window MaxPeriod n L <+ L := by
  cases MaxPeriod with
  | none => exact List.Sublist.refl _
  | some P => exact List.filter_sublist

theorem window_cons (MaxPeriod : Option Nat) (n : Nat) (L : List Nat) :
    window MaxPeriod n (n :: L) = n :: window MaxPeriod n L := by
  cases MaxPeriod with
  | none => rfl
  | some P => simp [window, recently]

theorem window_perm (MaxPeriod : Option Nat) {L L' : List Nat} (h : L ~ L') (m : Nat) :
    window MaxPeriod m L ~ window MaxPeriod m L' := by
  cases MaxPeriod with
  | none => exact h
  | some P => exact h.filter _

/-- Windows of lists with the same failures, each with one more. -/
theorem window_cons_perm {MaxPeriod : Option Nat} {m t : Nat} {L L' : List Nat}
    (h : window MaxPeriod m L ~ window MaxPeriod m L') :
    window MaxPeriod m (t :: L) ~ window MaxPeriod m (t :: L') := by
  cases MaxPeriod with
  | none => exact h.cons t
  | some P =>
    simp only [window, recently, List.filter_cons] at h ⊢
    split
    · exact h.cons t
    · exact h

/-- The check keeps the failures of the period, with the new one. -/
theorem failureCheck_spec (MaxCount : Nat) (MaxPeriod : Option Nat) (hpast : ∀ t ∈ FailureList, t ≤ now) :
    ∃ l, l ~ window MaxPeriod now FailureList ∧
      failureCheck now FailureList MaxCount MaxPeriod = failureStore (now :: l) (l.length + 1) MaxCount := by
  cases MaxPeriod with
  | none => exact ⟨FailureList, List.Perm.refl _, rfl⟩
  | some P =>
    refine ⟨_, secondsFilter_perm hpast P, ?_⟩
    rw [failureCheck, ← secondsFilter_count]

/-- The process exits at the failure that is the last one of the period, and keeps the books otherwise. -/
theorem failure_spec (hdie : o.failuresSourceDie = true) {before : Nat} (hw : Window o before times FailureList)
    (hnow : before ≤ now) :
    (IsLast o now times ∧ failure o now FailureList = .error .exit) ∨
      ¬IsLast o now times ∧ ∃ l, failure o now FailureList = .ok l ∧ Window o now (now :: times) l := by
  have hpast : ∀ t ∈ FailureList, t ≤ now := fun t ht => (hw.past t ht).trans hnow
  obtain ⟨l, hl, hcheck⟩ := failureCheck_spec o.failuresSourceMaxCount o.failuresSourceMaxPeriod hpast
  have hlength : l.length = (window o.failuresSourceMaxPeriod now times).length :=
    hl.length_eq.trans (hw.recent now hnow).length_eq
  have hle : l.length ≤ FailureList.length := hl.length_eq ▸ (window_sublist _ _ _).length_le
  have hlast : IsLast o now times ↔ l.length + 1 = o.failuresSourceMaxCount := by
    rw [IsLast, window_cons, List.length_cons, hlength]
  have hlt := hw.lt
  rw [failure, if_pos hdie, hcheck, failureStore, hlast]
  by_cases hk : l.length + 1 = o.failuresSourceMaxCount
  · exact .inl ⟨hk, if_pos hk⟩
  · refine .inr ⟨hk, _, if_neg hk, ?_, fun m hm => window_cons_perm ?_, ?_, ?_⟩
    · intro t ht
      rcases List.mem_cons.mp ht with rfl | ht
      · exact Nat.le_refl _
      · exact hpast t ((window_sublist _ _ _).subset (hl.subset ht))
    · -- what the filter dropped is too old from now on
      have hfilter := window_perm o.failuresSourceMaxPeriod hl m
      rw [window_window hm] at hfilter
      exact hfilter.trans (hw.recent m (hnow.trans hm))
    · rw [List.length_cons]
      omega
    · intro k t rest hdrop
      cases k with
      | zero =>
        cases hdrop
        exact fun hlt => hk (hlast.mp hlt)
      | succ k => exact hw.first hdrop

/-! ## The requests -/

variable {retryMax : Nat} {owner : Dict TransId Nat} {sent : List Nat} {ended : List (Nat × Reply E)}
  {failures : List (Nat × Nat)} {tracked : Dict TransId (Request T)} {r : Request T} {t : TransId} {reply : Reply E}

theorem endings_cons (n m : Nat) (reply : Reply E) (ended : List (Nat × Reply E)) :
    endings n ((m, reply) :: ended) = endings n ended + if m = n then 1 else 0 := by
  simp [endings, List.countP_cons]

theorem errors_cons (n m : Nat) (reply : Reply E) (ended : List (Nat × Reply E)) :
    errors n ((m, reply) :: ended) = errors n ended + if m = n ∧ reply.isOk = false then 1 else 0 := by
  simp [errors, List.countP_cons]

theorem failed_cons (n m now : Nat) (failures : List (Nat × Nat)) :
    failed n ((m, now) :: failures) = failed n failures + if m = n then 1 else 0 := by
  simp [failed, List.countP_cons]

theorem count_replicate_append (k m n : Nat) (sent : List Nat) :
    (List.replicate k m ++ sent).count n = (if m = n then k else 0) + sent.count n := by
  rw [List.count_append, List.count_replicate]
  simp

theorem Tracks.new : Tracks retryMax 0 (fun _ => none : Dict TransId Nat) [] ([] : List (Nat × Reply E)) []
    (fun _ => none : Dict TransId (Request T)) where
  owned h := nomatch h
  injective h := nomatch h
  owner_lt h := nomatch h
  done _ h := absurd h (Nat.not_lt_zero _)
  sent_le _ := Nat.zero_le _
  failed_eq _ := rfl
  fresh _ _ := ⟨rfl, rfl⟩

/-- A request is sent with a new id. -/
theorem Tracks.send (ht : Tracks retryMax requests owner sent ended failures tracked) (hnew : owner t = none)
    (hr : r.retryCount = 0) :
    Tracks retryMax (requests + 1) (owner.store t requests) (requests :: sent) ended failures (tracked.store t r) := by
  obtain ⟨hsent, hended⟩ := ht.fresh requests (Nat.le_refl _)
  have hother : ∀ {t' n}, t' ≠ t → (owner.store t requests t' = some n ↔ owner t' = some n) := fun hne => by
    rw [Dict.store_of_ne hne]
  refine ⟨fun {t' r'} h => ?_, fun {t₁ t₂ n} h₁ h₂ => ?_, fun {t' n} h => ?_, fun n hn => ?_, fun n => ?_, ht.failed_eq,
    fun n hn => ?_⟩
  · by_cases he : t' = t
    · subst he
      rw [Dict.store_self] at h
      cases h
      refine ⟨requests, Dict.store_self _ _ _, hended, ?_, by omega⟩
      rw [List.count_cons_self, hsent, hr]
    · rw [Dict.store_of_ne he] at h
      obtain ⟨n, ho, he', hs, hle⟩ := ht.owned h
      have hlt := ht.owner_lt ho
      exact ⟨n, (hother he).mpr ho, he', by rw [List.count_cons_of_ne (by omega), hs], hle⟩
  · by_cases he₁ : t₁ = t
    · by_cases he₂ : t₂ = t
      · rw [he₁, he₂]
      · rw [he₁, Dict.store_self] at h₁
        cases h₁
        exact absurd (ht.owner_lt ((hother he₂).mp h₂)) (Nat.lt_irrefl _)
    · by_cases he₂ : t₂ = t
      · rw [he₂, Dict.store_self] at h₂
        cases h₂
        exact absurd (ht.owner_lt ((hother he₁).mp h₁)) (Nat.lt_irrefl _)
      · exact ht.injective ((hother he₁).mp h₁) ((hother he₂).mp h₂)
  · by_cases he : t' = t
    · rw [he, Dict.store_self] at h
      cases h
      exact Nat.lt_succ_self _
    · exact Nat.lt_succ_of_lt (ht.owner_lt ((hother he).mp h))
  · rcases Nat.lt_or_eq_of_le (Nat.le_of_lt_succ hn) with hn | rfl
    · refine (ht.done n hn).imp_left ?_
      rintro ⟨t', ho, htr⟩
      have he : t' ≠ t := fun he => by
        rw [he, hnew] at ho
        cases ho
      exact ⟨t', (hother he).mpr ho, by rwa [Dict.store_of_ne he]⟩
    · exact .inl ⟨t, Dict.store_self _ _ _, by rw [Dict.store_self]; exact Option.some_ne_none _⟩
  · by_cases hn : n = requests
    · rw [hn, List.count_cons_self, hsent]
      omega
    · rw [List.count_cons_of_ne (Ne.symm hn)]
      exact ht.sent_le n
  · obtain ⟨hs, he⟩ := ht.fresh n (by omega)
    exact ⟨by rw [List.count_cons_of_ne (by omega), hs], he⟩

/-- A request is not sent: it ends with an error at once. -/
theorem Tracks.refused (ht : Tracks retryMax requests owner sent ended failures tracked) (now : Nat) {k : Nat}
    (hk : k ≤ 1)
    (hreply : reply.isOk = false) :
    Tracks retryMax (requests + 1) owner (List.replicate k requests ++ sent) ((requests, reply) :: ended)
      ((requests, now) :: failures) tracked := by
  obtain ⟨hsent, hended⟩ := ht.fresh requests (Nat.le_refl _)
  refine ⟨fun {t' r'} h => ?_, ht.injective, fun h => Nat.lt_succ_of_lt (ht.owner_lt h), fun n hn => ?_, fun n => ?_,
    fun n => ?_, fun n hn => ?_⟩
  · obtain ⟨n, ho, he, hs, hle⟩ := ht.owned h
    have hlt := ht.owner_lt ho
    refine ⟨n, ho, ?_, ?_, hle⟩
    · rw [endings_cons, he, if_neg (by omega)]
    · rw [count_replicate_append, if_neg (by omega), hs, Nat.zero_add]
  · rw [endings_cons]
    rcases Nat.lt_or_eq_of_le (Nat.le_of_lt_succ hn) with hn | rfl
    · rw [if_neg (by omega)]
      exact ht.done n hn
    · rw [hended, if_pos rfl]
      exact .inr rfl
  · rw [count_replicate_append]
    split
    · rename_i he
      rw [← he, hsent]
      omega
    · have := ht.sent_le n
      omega
  · rw [failed_cons, errors_cons, ht.failed_eq n, hreply]
    simp
  · obtain ⟨hs, he⟩ := ht.fresh n (by omega)
    rw [count_replicate_append, endings_cons, if_neg (by omega), if_neg (by omega), hs, he]
    exact ⟨rfl, rfl⟩

/-- A request that is tracked ends; a retry that cannot be sent was its last one. -/
theorem Tracks.finish (ht : Tracks retryMax requests owner sent ended failures tracked) (now : Nat)
    (reply : Reply E) (htr : tracked t = some r)
    (ho : owner t = some n) {k : Nat} (hk : k = 0 ∨ k = 1 ∧ r.retryCount < retryMax) {f : List (Nat × Nat)}
    (hf : f = if reply.isOk then [] else [(n, now)]) :
    Tracks retryMax requests owner (List.replicate k n ++ sent) ((n, reply) :: ended) (f ++ failures)
      (tracked.erase t) := by
  obtain ⟨n', ho', hend, hcount, hle⟩ := ht.owned htr
  cases ho.symm.trans ho'
  have hlt := ht.owner_lt ho
  refine ⟨fun {t' r'} h => ?_, ht.injective, ht.owner_lt, fun m hm => ?_, fun m => ?_, fun m => ?_, fun m hm => ?_⟩
  · have hne : t' ≠ t := fun he => by
      rw [he, Dict.erase_self] at h
      cases h
    rw [Dict.erase_of_ne hne] at h
    obtain ⟨m, ho', he, hs, hle⟩ := ht.owned h
    have hmn : n ≠ m := fun hmn => hne (ht.injective ho' (hmn ▸ ho))
    refine ⟨m, ho', ?_, ?_, hle⟩
    · rw [endings_cons, he, if_neg hmn]
    · rw [count_replicate_append, if_neg hmn, hs, Nat.zero_add]
  · rw [endings_cons]
    by_cases hmn : n = m
    · rw [← hmn, hend, if_pos rfl]
      exact .inr rfl
    · rw [if_neg hmn]
      refine (ht.done m hm).imp_left ?_
      rintro ⟨t', ho', htr'⟩
      have hne : t' ≠ t := fun he => hmn (Option.some.inj (ho.symm.trans (he ▸ ho')))
      exact ⟨t', ho', by rwa [Dict.erase_of_ne hne]⟩
  · rw [count_replicate_append]
    split
    · rename_i hmn
      rw [← hmn, hcount]
      omega
    · have := ht.sent_le m
      omega
  · rw [errors_cons, hf]
    cases hok : reply.isOk with
    | true => simpa using ht.failed_eq m
    | false =>
      show failed m ((n, now) :: failures) = _
      rw [failed_cons, ht.failed_eq m]
      simp
  · obtain ⟨hs, he⟩ := ht.fresh m hm
    rw [count_replicate_append, endings_cons, if_neg (by omega), if_neg (by omega), hs, he]
    exact ⟨rfl, rfl⟩

/-- A request that is tracked is sent again. -/
theorem Tracks.retry (ht : Tracks retryMax requests owner sent ended failures tracked) (htr : tracked t = some r)
    (ho : owner t = some n) (hlt : r.retryCount < retryMax) :
    Tracks retryMax requests owner (n :: sent) ended failures
      (tracked.store t { r with retryCount := r.retryCount + 1 }) := by
  obtain ⟨n', ho', hend, hcount, -⟩ := ht.owned htr
  cases ho.symm.trans ho'
  have hn := ht.owner_lt ho
  refine ⟨fun {t' r'} h => ?_, ht.injective, ht.owner_lt, fun m hm => ?_, fun m => ?_, ht.failed_eq, fun m hm => ?_⟩
  · by_cases he : t' = t
    · subst he
      rw [Dict.store_self] at h
      cases h
      exact ⟨n, ho, hend, by rw [List.count_cons_self, hcount], hlt⟩
    · rw [Dict.store_of_ne he] at h
      obtain ⟨m, ho', he', hs, hle⟩ := ht.owned h
      have hmn : n ≠ m := fun hmn => he (ht.injective ho' (hmn ▸ ho))
      exact ⟨m, ho', he', by rw [List.count_cons_of_ne hmn, hs], hle⟩
  · refine (ht.done m hm).imp_left ?_
    rintro ⟨t', ho', htr'⟩
    by_cases he : t' = t
    · exact ⟨t', ho', by rw [he, Dict.store_self]; exact Option.some_ne_none _⟩
    · exact ⟨t', ho', by rwa [Dict.store_of_ne he]⟩
  · by_cases hmn : n = m
    · rw [← hmn, List.count_cons_self, hcount]
      omega
    · rw [List.count_cons_of_ne hmn]
      exact ht.sent_le m
  · obtain ⟨hs, he⟩ := ht.fresh m hm
    exact ⟨by rw [List.count_cons_of_ne (by omega), hs], he⟩

/-! ## Runs keep the books -/

/-- The books of a run. -/
structure Books (o : Options T) (h : History E TransId) (s : State T TransId) : Prop where
  tracks : Tracks o.retryMax h.requests h.owner h.sent h.ended h.failures s.requests
  window : o.failuresSourceDie = true → Window o h.now (h.failures.map Prod.snd) s.failuresSource

/-- The call makes the failure at which the process has to exit. -/
def Op.Exits (o : Options T) (h : History E TransId) (op : Op T E TransId) (effects : List Effect) : Prop :=
  o.failuresSourceDie = true ∧ .failure ∈ effects ∧ IsLast o op.now (h.failures.map Prod.snd)

/-- A call counts at most one failure; it exits when that is the last one, and returns with the books kept otherwise. -/
def Op.Settles (o : Options T) (h : History E TransId) (s : State T TransId) (op : Op T E TransId) : Prop :=
  ∃ effects, effects.count .failure ≤ 1 ∧
    ((op.Exits o h effects ∧ op.apply o s = (effects, .error .exit)) ∨
      (¬op.Exits o h effects ∧ ∃ reply s', op.apply o s = (effects, .ok (reply, s')) ∧
        Books o (h.record op effects reply) s'))

variable {op : Op T E TransId}

/-- The books of the requests after a call. -/
abbrev TracksAfter (o : Options T) (h : History E TransId) (op : Op T E TransId) (effects : List Effect)
    (reply : Reply E) (reqs : Dict TransId (Request T)) : Prop :=
  Tracks o.retryMax (h.record op effects reply).requests (h.record op effects reply).owner
    (h.record op effects reply).sent (h.record op effects reply).ended (h.record op effects reply).failures reqs

theorem settles_quiet (effects : List Effect) (reply : Reply E) (reqs : Dict TransId (Request T)) (hb : Books o h s)
    (hnow : h.now ≤ op.now) (hf : effects.count Effect.failure = 0)
    (ha : op.apply o s = (effects, .ok (reply, { s with requests := reqs })))
    (ht : TracksAfter o h op effects reply reqs) : op.Settles o h s := by
  refine ⟨effects, hf ▸ Nat.zero_le _, .inr ⟨fun hx => List.count_eq_zero.mp hf hx.2.1, _, _, ha, ht, fun hdie => ?_⟩⟩
  have hw := hb.window hdie
  show Window o op.now ((List.replicate (effects.count Effect.failure) _ ++ h.failures).map Prod.snd) s.failuresSource
  rw [hf]
  exact ⟨fun t ht => (hw.past t ht).trans hnow, fun m hm => hw.recent m (hnow.trans hm), hw.lt, hw.first⟩

theorem settles_failing (effects : List Effect) (reply : Reply E) (reqs : Dict TransId (Request T)) (hb : Books o h s)
    (hnow : h.now ≤ op.now) (hf : effects.count Effect.failure = 1)
    (ha : op.apply o s = (effects, (failure o op.now s.failuresSource).map fun l => (reply, ⟨l, reqs⟩)))
    (ht : TracksAfter o h op effects reply reqs) : op.Settles o h s := by
  have hmem : Effect.failure ∈ effects := List.count_pos_iff.mp (by omega)
  have hfailures : (h.record op effects reply).failures.map Prod.snd = op.now :: h.failures.map Prod.snd := by
    show (List.replicate (effects.count Effect.failure) _ ++ h.failures).map Prod.snd = _
    rw [hf]
    rfl
  refine ⟨effects, hf.le, ?_⟩
  cases hdie : o.failuresSourceDie with
  | false =>
    have hok : failure o op.now s.failuresSource = .ok s.failuresSource := by
      rw [failure, hdie]
      rfl
    rw [hok] at ha
    refine .inr ⟨fun hx => ?_, _, _, ha, ht, fun hd => ?_⟩
    · cases hdie.symm.trans hx.1
    · cases hdie.symm.trans hd
  | true =>
    rcases failure_spec hdie (hb.window hdie) hnow with ⟨hl, he⟩ | ⟨hl, l, he, hw⟩
    · rw [he] at ha
      exact .inl ⟨⟨hdie, hmem, hl⟩, ha⟩
    · rw [he] at ha
      exact .inr ⟨fun hx => hl hx.2.2, _, _, ha, ht, fun _ => by rw [hfailures]; exact hw⟩

/-- A call of `send` with a new id. -/
theorem Books.send_settles (hb : Books o h s) {r : Request T} {sent : Except (Reason E) TransId} (hnow : h.now ≤ now)
    (hnew : ∀ transId, sent = .ok transId → h.owner transId = none) : (Op.send now r sent).Settles o h s := by
  have ht := hb.tracks
  have hrefused : ∀ (reply : Reply E) (k : Nat), k ≤ 1 → reply.isOk = false → Tracks o.retryMax (h.requests + 1) h.owner
      (List.replicate k h.requests ++ h.sent) ((h.requests, reply) :: h.ended) ((h.requests, now) :: h.failures)
      s.requests := fun reply k hk hr => ht.refused now hk hr
  cases hv : validate o.validateRequestInfo o.validateRequest r.requestInfo r.request with
  | false =>
    refine settles_failing [.failure] (.error .timeout) s.requests hb hnow rfl ?_ ?_
    · simp only [Op.apply, CloudiQueue.send, hv]
      rfl
    · cases sent with
      | ok transId => exact hrefused _ 0 (Nat.zero_le 1) rfl
      | error Error => exact hrefused _ 0 (Nat.zero_le 1) rfl
  | true =>
    cases sent with
    | ok transId =>
      refine settles_quiet [.sendAsyncActive] .ok (s.requests.store transId { r with retryCount := 0 }) hb hnow rfl
          ?_ ?_
      · simp only [Op.apply, CloudiQueue.send, hv, if_true]
      · exact ht.send (hnew transId rfl) rfl
    | error Error =>
      refine settles_failing [.sendAsyncActive, .failure] (.error Error) s.requests hb hnow rfl ?_ ?_
      · simp only [Op.apply, CloudiQueue.send, hv, if_true]
        rfl
      · exact hrefused _ 1 (Nat.le_refl 1) rfl

/-- A call of `recv` for a request that is tracked. -/
theorem Books.recv_settles (hb : Books o h s) {responseInfo response : T} (hnow : h.now ≤ now)
    (htr : s.requests t ≠ none) : (Op.recv now responseInfo response t : Op T E TransId).Settles o h s := by
  have ht := hb.tracks
  obtain ⟨r, hr⟩ := Option.ne_none_iff_exists'.mp htr
  obtain ⟨n, ho, -⟩ := ht.owned hr
  have hrequest : (Op.recv now responseInfo response t : Op T E TransId).request h = n := by
    rw [Op.request, ho]
    rfl
  cases hv : validate o.validateResponseInfo o.validateResponse responseInfo response with
  | true =>
    refine settles_quiet [] .ok (s.requests.erase t) hb hnow rfl ?_ ?_
    · simp only [Op.apply, CloudiQueue.recv, hr, hv, if_true]
    · have := ht.finish now .ok hr ho (.inl rfl) rfl
      rw [TracksAfter, History.record, hrequest]
      exact this
  | false =>
    refine settles_failing [.failure] (.error .timeout) (s.requests.erase t) hb hnow rfl ?_ ?_
    · simp only [Op.apply, CloudiQueue.recv, hr, hv]
      rfl
    · have := ht.finish now (.error .timeout) hr ho (.inl rfl) rfl
      rw [TracksAfter, History.record, hrequest]
      exact this

/-- A call of `timeout` for a request that is tracked. -/
theorem Books.timeout_settles (hb : Books o h s) {sent : Except (Reason E) TransId} (hnow : h.now ≤ now)
    (htr : s.requests t ≠ none) (hsame : ∀ t', sent = .ok t' → t' = t) :
    (Op.timeout now t sent : Op T E TransId).Settles o h s := by
  have ht := hb.tracks
  obtain ⟨r, hr⟩ := Option.ne_none_iff_exists'.mp htr
  obtain ⟨n, ho, -, -, hle⟩ := ht.owned hr
  have hrequest : (Op.timeout now t sent : Op T E TransId).request h = n := by
    rw [Op.request, ho]
    rfl
  by_cases hmax : r.retryCount = o.retryMax
  · refine settles_failing [.failure] (.error .timeout) (s.requests.erase t) hb hnow rfl ?_ ?_
    · simp only [Op.apply, CloudiQueue.timeout, hr, hmax, if_true]
      rfl
    · have := ht.finish now (.error .timeout) hr ho (.inl rfl) rfl
      rw [TracksAfter, History.record, hrequest]
      exact this
  · have hlt : r.retryCount < o.retryMax := Nat.lt_of_le_of_ne hle hmax
    cases sent with
    | ok t' =>
      obtain rfl := hsame t' rfl
      refine settles_quiet [.sendAsyncActive] .ok (s.requests.store t' { r with retryCount := r.retryCount + 1 }) hb
          hnow
        rfl ?_ ?_
      · simp only [Op.apply, CloudiQueue.timeout, hr, if_neg hmax, if_pos hlt, if_true]
      · rw [TracksAfter, History.record, hrequest]
        exact ht.retry hr ho hlt
    | error Error =>
      refine settles_failing [.sendAsyncActive, .failure] (.error Error) (s.requests.erase t) hb hnow rfl ?_ ?_
      · simp only [Op.apply, CloudiQueue.timeout, hr, if_neg hmax, if_pos hlt]
        rfl
      · have := ht.finish now (.error Error) hr ho (.inr ⟨rfl, hlt⟩) rfl
        rw [TracksAfter, History.record, hrequest]
        exact this

theorem Books.settles (hb : Books o h s) (ha : op.Admissible h s) : op.Settles o h s := by
  cases op with
  | send now r sent => exact hb.send_settles ha.1 ha.2
  | recv now responseInfo response transId => exact hb.recv_settles ha.1 ha.2
  | timeout now transId sent => exact hb.timeout_settles ha.1 ha.2.1 ha.2.2

theorem Run.books (hrun : Run o h s) : Books o h s := by
  induction hrun with
  | start =>
    refine ⟨Tracks.new, fun hdie => ⟨(fun t ht => nomatch ht), fun m hm => List.Perm.refl _, o.maxCount_pos, ?_⟩⟩
    intro k t rest hdrop
    simp [History.start] at hdrop
  | step hrun op ha hr ih =>
    obtain ⟨effects, -, ⟨-, he⟩ | ⟨-, reply, s', he, hb⟩⟩ := ih.settles ha
    · cases hr.symm.trans he
    · cases hr.symm.trans he
      exact hb

/-- What holds in every state of a run. -/
structure Tracking (o : Options T) (h : History E TransId) (s : State T TransId) : Prop where
  /-- A request is sent at most once and then for each retry. -/
  sent_le : ∀ n, h.sent.count n ≤ o.retryMax + 1
  /-- Each id that is tracked is that of a request, and the only one it ever has. -/
  tracked : ∀ t, s.requests t ≠ none → ∃ n < h.requests, h.owner t = some n ∧ ∀ t', h.owner t' = some n → t' = t
  /-- A request is tracked as long as it has not ended, and ends once. -/
  ended : ∀ n < h.requests, ((∃ t, h.owner t = some n ∧ s.requests t ≠ none) ∧ endings n h.ended = 0) ∨
    ((∀ t, h.owner t = some n → s.requests t = none) ∧ endings n h.ended = 1)
  /-- One failure for each request that ended without success, and none for any other. -/
  failed : ∀ n, failed n h.failures = errors n h.ended
  /-- No failure so far was the last one of its period. -/
  first : o.failuresSourceDie = true → ∀ {k t rest}, (h.failures.map Prod.snd).drop k = t :: rest → ¬IsLast o t rest

theorem Books.tracking (hb : Books o h s) : Tracking o h s := by
  have ht := hb.tracks
  have hzero : ∀ {t n}, h.owner t = some n → s.requests t ≠ none → endings n h.ended = 0 := fun ho htr => by
    obtain ⟨r, hr⟩ := Option.ne_none_iff_exists'.mp htr
    obtain ⟨n', ho', he, -⟩ := ht.owned hr
    cases ho.symm.trans ho'
    exact he
  refine ⟨ht.sent_le, fun t htr => ?_, fun n hn => ?_, ht.failed_eq, fun hdie => (hb.window hdie).first⟩
  · obtain ⟨r, hr⟩ := Option.ne_none_iff_exists'.mp htr
    obtain ⟨n, ho, -⟩ := ht.owned hr
    exact ⟨n, ht.owner_lt ho, ho, fun t' ho' => ht.injective ho' ho⟩
  · rcases ht.done n hn with ⟨t, ho, htr⟩ | he
    · exact .inl ⟨⟨t, ho, htr⟩, hzero ho htr⟩
    · refine .inr ⟨fun t ho => ?_, he⟩
      by_contra htr
      have := hzero ho htr
      omega

/-- The requests of every run are tracked as they should, and every call more returns with that kept, unless its
failure is the last one of the period and the process exits. -/
theorem queue_tracking (hrun : Run o h s) : Tracking o h s ∧ ∀ op : Op T E TransId, op.Admissible h s →
    ∃ effects, effects.count Effect.failure ≤ 1 ∧
      ((op.Exits o h effects ∧ op.apply o s = (effects, .error .exit)) ∨
        (¬op.Exits o h effects ∧ ∃ reply s', op.apply o s = (effects, .ok (reply, s')) ∧
          Tracking o (h.record op effects reply) s')) := by
  refine ⟨hrun.books.tracking, fun op ha => ?_⟩
  obtain ⟨effects, hle, hexit | ⟨hne, reply, s', happly, hb⟩⟩ := hrun.books.settles ha
  · exact ⟨effects, hle, .inl hexit⟩
  · exact ⟨effects, hle, .inr ⟨hne, reply, s', happly, hb.tracking⟩⟩

/-- A request that was sent and timed out, with one retry. -/
theorem queue_tracking_retry : ∃ (h : History Unit Nat) (s : State Nat Nat),
    Tracking ⟨1, none, none, none, none, true, 1, none, Nat.one_pos, fun _ h => nomatch h⟩ h s ∧ h.sent = [0, 0] := by
  have hsend : Run (⟨1, none, none, none, none, true, 1, none, Nat.one_pos, fun _ h => nomatch h⟩ : Options Nat)
      (_ : History Unit Nat) (_ : State Nat Nat) :=
    .step .start (.send 0 ⟨0, 0, 0, 0, 0, 0, 0⟩ (.ok 7)) ⟨Nat.le_refl 0, fun _ _ => rfl⟩ rfl
  have hretry := Run.step hsend (.timeout 3 7 (.ok 7)) ⟨Nat.zero_le 3, by decide, fun t ht => by cases ht; rfl⟩ rfl
  exact ⟨_, _, (queue_tracking hretry).1, rfl⟩

end CloudI.Services.CloudiQueue
