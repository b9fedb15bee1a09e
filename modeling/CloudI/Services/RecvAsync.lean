import Mathlib.Data.List.Forall2
import Mathlib.Data.List.Perm.Basic
import Mathlib.Data.List.Nodup
import Mathlib.Logic.Relation

/-!
# Asynchronous responses

A dispatcher stores the responses of asynchronous requests until a call
`recv_async` or `recv_asyncs` takes them or their timeout comes; a call that
finds nothing is tried again after an interval. A consuming `recv_asyncs` takes
the responses that it finds out of the store and holds them in the message of
its retry. `handle_handled` says all that one message can do.
-/

namespace CloudI.Services.RecvAsync

/-- `ResponseInfo` and `Response` -/
abbrev Response := List UInt8 × List UInt8

def RECV_ASYNC_INTERVAL : Nat := 500

variable {TransId : Type}

/-- An element of the results of `recv_asyncs`. -/
structure Entry (TransId : Type) where
  response : Response
  transId : TransId

/-- `async_responses` -/
abbrev Responses (TransId : Type) := List (TransId × Response)

/-- What is sent to the client. -/
inductive Reply (TransId : Type) where
  | ok (r : Response) (T : TransId)
  | results (L : List (Entry TransId))
  | timeout

/-- The message of a call, and of its retries. -/
inductive Message (TransId : Type) where
  | recvAsync (Timeout : Nat) (T : TransId) (Consume : Bool)
  | recvAsyncs (Timeout : Nat) (Results : List (Entry TransId)) (Consume : Bool)

/-- What a message leads to: a reply, or its retry, with the responses left. -/
inductive Outcome (TransId : Type) where
  | reply (r : Reply TransId) (AsyncResponses : Responses TransId)
  | retry (m : Message TransId) (AsyncResponses : Responses TransId)
  | badkey

def Entry.Filled (e : Entry TransId) : Prop := e.response ≠ ([], [])

instance (e : Entry TransId) : Decidable e.Filled := inferInstanceAs (Decidable (e.response ≠ ([], [])))

/-- `e'` is `e`, or `e` had no response. -/
def Extends (e e' : Entry TransId) : Prop := e'.transId = e.transId ∧ (e.Filled → e' = e)

/-- The responses of the entries that are filled. -/
def filledOf : List (Entry TransId) → Responses TransId
  | [] => []
  | e :: L => if e.Filled then (e.transId, e.response) :: filledOf L else filledOf L

/-- The store is a map, and no response in it is empty. -/
structure Stored (A : Responses TransId) : Prop where
  nodup : (A.map Prod.fst).Nodup
  nonempty : ∀ x ∈ A, x.2 ≠ ([], [])

theorem Extends.refl (e : Entry TransId) : Extends e e := ⟨rfl, fun _ => rfl⟩

theorem Extends.trans {e e' e'' : Entry TransId} (h : Extends e e') (h' : Extends e' e'') : Extends e e'' := by
  refine ⟨h'.1.trans h.1, fun hf => ?_⟩
  have he := h.2 hf
  rw [h'.2 (by rw [he]; exact hf), he]

variable {R L : List (Entry TransId)}

/-- No entry is filled when none is later. -/
theorem not_filled_of_extends (h : List.Forall₂ Extends R L) (hL : ∀ e ∈ L, ¬e.Filled) : ∀ e ∈ R, ¬e.Filled := by
  induction h with
  | nil => simp
  | cons he _ ih =>
    intro e hm hf
    rcases List.mem_cons.mp hm with rfl | hm
    · exact hL _ List.mem_cons_self (by rw [he.2 hf]; exact hf)
    · exact ih (fun e' h' => hL e' (List.mem_cons_of_mem _ h')) e hm hf

theorem filledOf_eq_nil {L : List (Entry TransId)} (h : ∀ e ∈ L, ¬e.Filled) : filledOf L = [] := by
  induction L with
  | nil => rfl
  | cons e L ih =>
    rw [filledOf, if_neg (h e List.mem_cons_self)]
    exact ih fun e' h' => h e' (List.mem_cons_of_mem _ h')

theorem Stored.sublist {A A' : Responses TransId} (h : Stored A) (hs : A'.Sublist A) : Stored A' where
  nodup := h.nodup.sublist (hs.map _)
  nonempty := fun x hx => h.nonempty x (hs.subset hx)

variable [DecidableEq TransId]

/-- `?MAP_ERASE` -/
def erase (T : TransId) (AsyncResponses : Responses TransId) : Responses TransId :=
  AsyncResponses.filter fun x => x.1 ≠ T

/-- `recv_async_select_oldest/3`; `time` is `uuid:get_v1_time/1`. -/
def recvAsyncSelectOldestLoop (time : TransId → Nat) : Responses TransId → Nat → TransId → TransId
  | [], _, TransIdCurrent => TransIdCurrent
  | (T, _) :: L, Time0, TransIdCurrent =>
    if time T < Time0 then recvAsyncSelectOldestLoop time L (time T) T
    else recvAsyncSelectOldestLoop time L Time0 TransIdCurrent

/-- The retry of `recv_async`, or its timeout. -/
def recvAsyncAgain (Timeout : Nat) (T : TransId) (Consume : Bool) (AsyncResponses : Responses TransId) :
    Outcome TransId :=
  if RECV_ASYNC_INTERVAL ≤ Timeout then
    .retry (.recvAsync (Timeout - RECV_ASYNC_INTERVAL) T Consume) AsyncResponses
  else .reply .timeout AsyncResponses

/-- `handle_call` of `recv_async` and `handle_info` of `cloudi_service_recv_async_retry` -/
def recvAsync (time : TransId → Nat) (null : TransId) (Timeout : Nat) (T : TransId) (Consume : Bool)
    (AsyncResponses : Responses TransId) : Outcome TransId :=
  if T = null then
    match AsyncResponses with
    | [] => recvAsyncAgain Timeout T Consume AsyncResponses
    | (T₀, _) :: L =>
      let TransIdPick := recvAsyncSelectOldestLoop time L (time T₀) T₀
      match AsyncResponses.lookup TransIdPick with
      | none => .badkey
      | some r => .reply (.ok r TransIdPick) (if Consume then erase TransIdPick AsyncResponses else AsyncResponses)
  else
    match AsyncResponses.lookup T with
    | none => recvAsyncAgain Timeout T Consume AsyncResponses
    | some r => .reply (.ok r T) (if Consume then erase T AsyncResponses else AsyncResponses)

/-- `recv_asyncs_pick/6` -/
def recvAsyncsPickLoop (Consume : Bool) : List (Entry TransId) → List (Entry TransId) → Bool → Bool →
    Responses TransId → Bool × Bool × List (Entry TransId) × Responses TransId
  | [], L, Done, FoundOne, NewAsyncResponses => (Done, !FoundOne, L.reverse, NewAsyncResponses)
  | e :: Results, L, Done, FoundOne, AsyncResponses =>
    if e.response = ([], []) then
      match AsyncResponses.lookup e.transId with
      | none => recvAsyncsPickLoop Consume Results (e :: L) false FoundOne AsyncResponses
      | some r =>
        recvAsyncsPickLoop Consume Results (⟨r, e.transId⟩ :: L) Done true
          (if Consume then erase e.transId AsyncResponses else AsyncResponses)
    else recvAsyncsPickLoop Consume Results (e :: L) Done true AsyncResponses

/-- `handle_call` of `recv_asyncs` and `handle_info` of `cloudi_service_recv_asyncs_retry` -/
def recvAsyncs (Timeout : Nat) (Results : List (Entry TransId)) (Consume : Bool) (AsyncResponses : Responses TransId) :
    Outcome TransId :=
  match recvAsyncsPickLoop Consume Results [] true false AsyncResponses with
  | (true, _, NewResults, NewAsyncResponses) => .reply (.results NewResults) NewAsyncResponses
  | (false, FoundNone, NewResults, NewAsyncResponses) =>
    if RECV_ASYNC_INTERVAL ≤ Timeout then
      .retry (.recvAsyncs (Timeout - RECV_ASYNC_INTERVAL) NewResults Consume) NewAsyncResponses
    else if FoundNone then .reply .timeout AsyncResponses
    else .reply (.results NewResults) NewAsyncResponses

def handle (time : TransId → Nat) (null : TransId) : Message TransId → Responses TransId → Outcome TransId
  | .recvAsync Timeout T Consume => recvAsync time null Timeout T Consume
  | .recvAsyncs Timeout Results Consume => recvAsyncs Timeout Results Consume

/-! ### What a message does to the store -/

variable {A : Responses TransId}

theorem mem_of_lookup {T : TransId} {r : Response} (h : A.lookup T = some r) :
    (T, r) ∈ A := by
  obtain ⟨l₁, l₂, rfl, -⟩ := List.lookup_eq_some_iff.mp h
  simp

theorem lookup_of_mem {x : TransId × Response} (h : x ∈ A) : ∃ r, A.lookup x.1 = some r := by
  cases hl : A.lookup x.1 with
  | some r => exact ⟨r, rfl⟩
  | none => exact absurd (List.lookup_eq_none_iff.mp hl x h) (by simp)

theorem erase_eq_self {T : TransId} (h : T ∉ A.map Prod.fst) : erase T A = A := by
  rw [erase, List.filter_eq_self]
  intro x hx
  simp only [ne_eq, decide_eq_true_eq]
  rintro rfl
  exact h (List.mem_map_of_mem hx)

/-- What is erased is what was found. -/
theorem perm_erase (hA : (A.map Prod.fst).Nodup) {T : TransId} {r : Response}
    (h : A.lookup T = some r) : A.Perm ((T, r) :: erase T A) := by
  obtain ⟨l₁, l₂, rfl, -⟩ := List.lookup_eq_some_iff.mp h
  have hn : T ∉ (l₁ ++ l₂).map Prod.fst := by
    have hm : (l₁ ++ (T, r) :: l₂).Perm ((T, r) :: (l₁ ++ l₂)) := List.perm_middle
    have hp := hm.map Prod.fst
    exact (List.nodup_cons.mp (hp.nodup_iff.mp hA)).1
  have he : erase T (l₁ ++ (T, r) :: l₂) = l₁ ++ l₂ := by
    rw [← erase_eq_self hn]
    simp [erase, List.filter_append]
  rw [he]
  exact List.perm_middle

/-- The pick of entries `R` gives `L` and changes the store from `A` to `A'`. -/
structure Picked (Consume : Bool) (R L : List (Entry TransId)) (A A' : Responses TransId) : Prop where
  extends_ : List.Forall₂ Extends R L
  found : ∀ x ∈ filledOf L, x ∈ filledOf R ∨ x ∈ A
  sublist : A'.Sublist A
  kept : Consume = false → A' = A
  taken : Consume = true → (A ++ filledOf R).Perm (A' ++ filledOf L)

omit [DecidableEq TransId] in
/-- An entry that stays as it is. -/
theorem Picked.cons {Consume : Bool} {A A' : Responses TransId}
    (h : Picked Consume R L A A') (e : Entry TransId) : Picked Consume (e :: R) (e :: L) A A' := by
  refine ⟨h.extends_.cons (.refl e), fun x hx => ?_, h.sublist, h.kept, fun hc => ?_⟩
  · by_cases he : e.Filled
    · simp only [filledOf, if_pos he, List.mem_cons] at hx ⊢
      rcases hx with hx | hx
      · exact .inl (.inl hx)
      · exact (h.found x hx).imp .inr id
    · simp only [filledOf, if_neg he] at hx ⊢
      exact h.found x hx
  · by_cases he : e.Filled
    · simp only [filledOf, if_pos he]
      exact List.perm_middle.trans (((h.taken hc).cons _).trans List.perm_middle.symm)
    · simp only [filledOf, if_neg he]
      exact h.taken hc

/-- An entry that takes its response from the store. -/
theorem Picked.fill {Consume : Bool} {A A' : Responses TransId} (hA : Stored A)
    {e : Entry TransId} (he : ¬e.Filled) {r : Response} (hr : A.lookup e.transId = some r)
    (h : Picked Consume R L (if Consume then erase e.transId A else A) A') :
    Picked Consume (e :: R) (⟨r, e.transId⟩ :: L) A A' := by
  have hf : (⟨r, e.transId⟩ : Entry TransId).Filled := hA.nonempty _ (mem_of_lookup hr)
  have hs : (if Consume then erase e.transId A else A).Sublist A := by
    split
    · exact List.filter_sublist
    · exact .refl _
  refine ⟨h.extends_.cons ⟨rfl, fun h => absurd h he⟩, fun x hx => ?_, h.sublist.trans hs, fun hc => ?_, fun hc => ?_⟩
  · simp only [filledOf, if_pos hf, if_neg he, List.mem_cons] at hx ⊢
    rcases hx with rfl | hx
    · exact .inr (mem_of_lookup hr)
    · exact (h.found x hx).imp id (hs.subset ·)
  · simpa [hc] using h.kept hc
  · simp only [filledOf, if_pos hf, if_neg he]
    have ht := h.taken hc
    rw [if_pos hc] at ht
    calc
      (A ++ filledOf R).Perm ((e.transId, r) :: (erase e.transId A ++ filledOf R)) :=
        (perm_erase hA.nodup hr).append_right _
      List.Perm _ ((e.transId, r) :: (A' ++ filledOf L)) := ht.cons _
      List.Perm _ (A' ++ (e.transId, r) :: filledOf L) := List.perm_middle.symm

theorem recvAsyncsPickLoop_eq (Consume : Bool) (R L₀ : List (Entry TransId)) (Done FoundOne : Bool)
    (hA : Stored A) :
    ∃ L A', recvAsyncsPickLoop Consume R L₀ Done FoundOne A =
        (Done && decide (∀ e ∈ L, e.Filled), !(FoundOne || decide (∃ e ∈ L, e.Filled)), L₀.reverse ++ L, A') ∧
      Picked Consume R L A A' := by
  induction R generalizing L₀ Done FoundOne A with
  | nil =>
    refine ⟨[], A, by simp [recvAsyncsPickLoop], .nil, by simp [filledOf], .refl _, fun _ => rfl, fun _ => .refl _⟩
  | cons e R ih =>
    by_cases he : e.response = ([], [])
    · have hn : ¬e.Filled := fun h => h he
      cases hr : A.lookup e.transId with
      | none =>
        obtain ⟨L, A', hL, hP⟩ := ih (e :: L₀) false FoundOne hA
        refine ⟨e :: L, A', ?_, hP.cons e⟩
        simp [recvAsyncsPickLoop, he, hr, hL, hn]
      | some r =>
        have hs : (if Consume then erase e.transId A else A).Sublist A := by
          split
          · exact List.filter_sublist
          · exact .refl _
        have hf : (⟨r, e.transId⟩ : Entry TransId).Filled := hA.nonempty _ (mem_of_lookup hr)
        obtain ⟨L, A', hL, hP⟩ := ih (⟨r, e.transId⟩ :: L₀) Done true (hA.sublist hs)
        refine ⟨⟨r, e.transId⟩ :: L, A', ?_, hP.fill hA hn hr⟩
        simp [recvAsyncsPickLoop, he, hr, hL, hf]
    · have hf : e.Filled := he
      obtain ⟨L, A', hL, hP⟩ := ih (e :: L₀) Done true hA
      refine ⟨e :: L, A', ?_, hP.cons e⟩
      simp [recvAsyncsPickLoop, he, hL, hf]

def Message.consume : Message TransId → Bool
  | recvAsync _ _ Consume => Consume
  | recvAsyncs _ _ Consume => Consume

def Message.timeout : Message TransId → Nat
  | recvAsync Timeout _ _ => Timeout
  | recvAsyncs Timeout _ _ => Timeout

/-- The responses that a message has found. -/
def Message.found : Message TransId → Responses TransId
  | recvAsync _ _ _ => []
  | recvAsyncs _ Results _ => filledOf Results

/-- The responses that a message took out of the store. -/
def Message.held (m : Message TransId) : Responses TransId :=
  if m.consume then m.found else []

/-- The responses in a reply. -/
def Reply.found : Reply TransId → Responses TransId
  | ok r T => [(T, r)]
  | results L => filledOf L
  | timeout => []

/-- The responses that the reply to a message delivers and consumes. -/
def Message.consumed (m : Message TransId) (r : Reply TransId) : Responses TransId :=
  if m.consume then r.found else []

/-- A message and its retry. -/
inductive Retries : Message TransId → Message TransId → Prop
  | recvAsync {Timeout : Nat} (T : TransId) (Consume : Bool) : RECV_ASYNC_INTERVAL ≤ Timeout →
      Retries (.recvAsync Timeout T Consume) (.recvAsync (Timeout - RECV_ASYNC_INTERVAL) T Consume)
  | recvAsyncs {Timeout : Nat} {R R' : List (Entry TransId)} (Consume : Bool) : RECV_ASYNC_INTERVAL ≤ Timeout →
      List.Forall₂ Extends R R' →
      Retries (.recvAsyncs Timeout R Consume) (.recvAsyncs (Timeout - RECV_ASYNC_INTERVAL) R' Consume)

/-- A message and its reply. -/
inductive Replies (null : TransId) : Message TransId → Reply TransId → Prop
  | ok {Timeout : Nat} {T T' : TransId} (Consume : Bool) (r : Response) : (T ≠ null → T' = T) →
      Replies null (.recvAsync Timeout T Consume) (.ok r T')
  | timeout {Timeout : Nat} (T : TransId) (Consume : Bool) : Timeout < RECV_ASYNC_INTERVAL →
      Replies null (.recvAsync Timeout T Consume) .timeout
  | results {Timeout : Nat} {R L : List (Entry TransId)} (Consume : Bool) : List.Forall₂ Extends R L →
      (∀ e ∈ L, e.Filled) ∨ Timeout < RECV_ASYNC_INTERVAL ∧ (∃ e ∈ L, e.Filled) →
      Replies null (.recvAsyncs Timeout R Consume) (.results L)
  | timeouts {Timeout : Nat} {R : List (Entry TransId)} (Consume : Bool) : Timeout < RECV_ASYNC_INTERVAL →
      (∀ e ∈ R, ¬e.Filled) → Replies null (.recvAsyncs Timeout R Consume) .timeout

/-- What `handle` does to a message `m` and a store `A`. -/
inductive Handled (null : TransId) (m : Message TransId) (A : Responses TransId) : Outcome TransId → Prop
  | reply {r : Reply TransId} {A' : Responses TransId} : Replies null m r → A'.Sublist A →
      (∀ x ∈ r.found, x ∈ m.found ∨ x ∈ A) → (A ++ m.held).Perm (A' ++ m.consumed r) → Handled null m A (.reply r A')
  | retry {m' : Message TransId} {A' : Responses TransId} : Retries m m' → A'.Sublist A →
      (∀ x ∈ m'.found, x ∈ m.found ∨ x ∈ A) → (A ++ m.held).Perm (A' ++ m'.held) → Handled null m A (.retry m' A')

omit [DecidableEq TransId] in
theorem recvAsyncSelectOldestLoop_mem (time : TransId → Nat) (L : Responses TransId) (Time0 : Nat)
    (TransIdCurrent : TransId) :
    recvAsyncSelectOldestLoop time L Time0 TransIdCurrent ∈ TransIdCurrent :: L.map Prod.fst := by
  induction L generalizing Time0 TransIdCurrent with
  | nil => simp [recvAsyncSelectOldestLoop]
  | cons x L ih =>
    rw [recvAsyncSelectOldestLoop]
    split
    · exact List.mem_cons_of_mem _ (ih _ _)
    · rcases List.mem_cons.mp (ih Time0 TransIdCurrent) with h | h
      · rw [h]
        exact List.mem_cons_self
      · exact List.mem_cons_of_mem _ (List.mem_cons_of_mem _ h)

omit [DecidableEq TransId] in
theorem recvAsyncAgain_handled (null : TransId) (Timeout : Nat) (T : TransId) (Consume : Bool)
    (A : Responses TransId) :
    Handled null (.recvAsync Timeout T Consume) A (recvAsyncAgain Timeout T Consume A) := by
  rw [recvAsyncAgain]
  split
  case isTrue h =>
    refine .retry (.recvAsync T Consume h) (.refl _) (by simp [Message.found]) ?_
    simp [Message.held, Message.found]
  case isFalse h =>
    refine .reply (.timeout T Consume (by omega)) (.refl _) (by simp [Reply.found]) ?_
    simp [Message.held, Message.found, Message.consumed, Reply.found]

theorem recvAsync_found (null : TransId) (Timeout : Nat) {T T' : TransId} (Consume : Bool)
    (hA : Stored A) {r : Response} (hT : T ≠ null → T' = T) (hr : A.lookup T' = some r) :
    Handled null (.recvAsync Timeout T Consume) A (.reply (.ok r T') (if Consume then erase T' A else A)) := by
  refine .reply (.ok Consume r hT) ?_ (fun x hx => ?_) ?_
  · split
    · exact List.filter_sublist
    · exact .refl _
  · rw [Reply.found, List.mem_singleton] at hx
    rw [hx]
    exact .inr (mem_of_lookup hr)
  · cases Consume with
    | false => simp [Message.held, Message.consumed, Message.consume]
    | true =>
      simp only [Message.held, Message.found, Message.consumed, Message.consume, Reply.found, if_true, List.append_nil]
      exact (perm_erase hA.nodup hr).trans (List.perm_append_singleton _ _).symm

theorem recvAsync_handled (time : TransId → Nat) (null : TransId) (Timeout : Nat) (T : TransId) (Consume : Bool)
    (hA : Stored A) :
    Handled null (.recvAsync Timeout T Consume) A (recvAsync time null Timeout T Consume A) := by
  unfold recvAsync
  split
  case isTrue hT =>
    cases A with
    | nil => exact recvAsyncAgain_handled null Timeout T Consume []
    | cons x L =>
      -- the pick is a key of the store
      have hm := recvAsyncSelectOldestLoop_mem time L (time x.1) x.1
      obtain ⟨y, hy, hyT⟩ := List.mem_map.mp (show _ ∈ (x :: L).map Prod.fst from hm)
      obtain ⟨r, hr⟩ := lookup_of_mem hy
      rw [hyT] at hr
      simp only [hr]
      exact recvAsync_found null Timeout Consume hA (fun h => absurd hT h) hr
  case isFalse hT =>
    cases hr : A.lookup T with
    | none => exact recvAsyncAgain_handled null Timeout T Consume A
    | some r => exact recvAsync_found null Timeout Consume hA (fun _ => rfl) hr

omit [DecidableEq TransId] in
/-- What a pick takes, it holds. -/
theorem Picked.perm {Consume : Bool} {A A' : Responses TransId} (h : Picked Consume R L A A') :
    (A ++ if Consume then filledOf R else []).Perm (A' ++ if Consume then filledOf L else []) := by
  cases Consume with
  | false => simp [h.kept rfl]
  | true => exact h.taken rfl

theorem recvAsyncs_handled (null : TransId) (Timeout : Nat) (R : List (Entry TransId)) (Consume : Bool)
    (hA : Stored A) :
    Handled null (.recvAsyncs Timeout R Consume) A (recvAsyncs Timeout R Consume A) := by
  obtain ⟨L, A', hL, hP⟩ := recvAsyncsPickLoop_eq Consume R [] true false hA
  rw [recvAsyncs, hL]
  by_cases hf : ∀ e ∈ L, e.Filled
  · rw [decide_eq_true hf, List.reverse_nil, List.nil_append]
    exact .reply (.results Consume hP.extends_ (.inl hf)) hP.sublist hP.found hP.perm
  · rw [decide_eq_false hf, List.reverse_nil, List.nil_append]
    simp only [Bool.and_false, Bool.false_or]
    split
    case isTrue h => exact .retry (.recvAsyncs Consume h hP.extends_) hP.sublist hP.found hP.perm
    case isFalse h =>
      by_cases he : ∃ e ∈ L, e.Filled
      · rw [decide_eq_true he, if_neg (by simp)]
        exact .reply (.results Consume hP.extends_ (.inr ⟨by omega, he⟩)) hP.sublist hP.found hP.perm
      · rw [decide_eq_false he, if_pos (by simp)]
        have hn := not_filled_of_extends hP.extends_ fun e hm hf => he ⟨e, hm, hf⟩
        refine .reply (.timeouts Consume (by omega) hn) (.refl _) (by simp [Reply.found]) ?_
        simp [Message.held, Message.found, Message.consumed, Reply.found, filledOf_eq_nil hn]

theorem handle_handled (time : TransId → Nat) (null : TransId) (m : Message TransId)
    (hA : Stored A) : Handled null m A (handle time null m A) := by
  cases m with
  | recvAsync Timeout T Consume => exact recvAsync_handled time null Timeout T Consume hA
  | recvAsyncs Timeout R Consume => exact recvAsyncs_handled null Timeout R Consume hA

/-! ## Runs -/

/-- A call of a client, as it was made. -/
structure Call (TransId : Type) where
  client : Nat
  message : Message TransId

/-- A call that waits for a retry, and how often it was retried. -/
structure Waiting (TransId : Type) where
  call : Call TransId
  message : Message TransId
  retried : Nat

/-- A call that was answered, with the message that led to the reply. -/
structure Answer (TransId : Type) where
  call : Call TransId
  message : Message TransId
  retried : Nat
  reply : Reply TransId

/-- The dispatcher, with the timeouts and retries to come; `stored`, `expired`
and `answers` are what happened so far. -/
structure World (TransId : Type) where
  timeoutSync : Nat
  asyncResponses : Responses TransId
  timeouts : List TransId
  retries : List (Waiting TransId)
  clients : Nat
  stored : Responses TransId
  expired : Responses TransId
  answers : List (Answer TransId)

/-- `async_response_timeout_start/5` -/
def asyncResponseTimeoutStart (r : Response) (Timeout : Nat) (T : TransId) (w : World TransId) : World TransId :=
  if Timeout = 0 then w
  else { w with asyncResponses := (T, r) :: erase T w.asyncResponses, timeouts := T :: w.timeouts
                stored := (T, r) :: w.stored }

/-- `handle_info` of `cloudi_service_recv_async_timeout` -/
def recvAsyncTimeout (T : TransId) (w : World TransId) : World TransId :=
  { w with asyncResponses := erase T w.asyncResponses
           expired := w.asyncResponses.filter (fun x => x.1 = T) ++ w.expired }

/-- What becomes of a call: an answer, or a retry. -/
inductive Settles (c : Call TransId) (m : Message TransId) (n : Nat) (w : World TransId) :
    Outcome TransId → World TransId → Prop
  | reply (r : Reply TransId) (AsyncResponses : Responses TransId) :
      Settles c m n w (.reply r AsyncResponses)
        { w with asyncResponses := AsyncResponses, answers := ⟨c, m, n, r⟩ :: w.answers }
  | retry (m' : Message TransId) (AsyncResponses : Responses TransId) :
      Settles c m n w (.retry m' AsyncResponses)
        { w with asyncResponses := AsyncResponses, retries := ⟨c, m', n + 1⟩ :: w.retries }

/-- The message of a call; without a timeout it is `timeout_sync`. -/
def recvAsyncCall (timeoutSync : Nat) (Timeout : Option Nat) (T : TransId) (Consume : Bool) : Message TransId :=
  .recvAsync (Timeout.getD timeoutSync) T Consume

def recvAsyncsCall (timeoutSync : Nat) (Timeout : Option Nat) (TransIdList : List TransId) (Consume : Bool) :
    Message TransId :=
  .recvAsyncs (Timeout.getD timeoutSync) (TransIdList.map fun T => ⟨([], []), T⟩) Consume

/-- A message that a client sends. -/
inductive Calls (timeoutSync : Nat) : Message TransId → Prop
  | recvAsync (Timeout : Option Nat) (T : TransId) (Consume : Bool) :
      Calls timeoutSync (recvAsyncCall timeoutSync Timeout T Consume)
  | recvAsyncs (Timeout : Option Nat) (TransIdList : List TransId) (Consume : Bool) :
      Calls timeoutSync (recvAsyncsCall timeoutSync Timeout TransIdList Consume)

variable (time : TransId → Nat) (null : TransId)

inductive Step : World TransId → World TransId → Prop
  | store {w : World TransId} (r : Response) (Timeout : Nat) (T : TransId) : r ≠ ([], []) →
      T ∉ w.stored.map Prod.fst → Step w (asyncResponseTimeoutStart r Timeout T w)
  | timeout {w : World TransId} {T : TransId} {l₁ l₂ : List TransId} : w.timeouts = l₁ ++ T :: l₂ →
      Step w (recvAsyncTimeout T { w with timeouts := l₁ ++ l₂ })
  | update {w : World TransId} (timeoutSync : Nat) : Step w { w with timeoutSync := timeoutSync }
  | call {w w' : World TransId} {m : Message TransId} : Calls w.timeoutSync m →
      Settles ⟨w.clients, m⟩ m 0 { w with clients := w.clients + 1 } (handle time null m w.asyncResponses) w' →
      Step w w'
  | retry {w w' : World TransId} {p : Waiting TransId} {l₁ l₂ : List (Waiting TransId)} : w.retries = l₁ ++ p :: l₂ →
      Settles p.call p.message p.retried { w with retries := l₁ ++ l₂ }
        (handle time null p.message w.asyncResponses) w' →
      Step w w'

inductive Reachable : World TransId → Prop
  | init (timeoutSync : Nat) : Reachable ⟨timeoutSync, [], [], [], 0, [], [], []⟩
  | step {w w' : World TransId} : Reachable w → Step time null w w' → Reachable w'

end CloudI.Services.RecvAsync
