import CloudI.Services.PendingParts

/-!
# Multipart appends of `cloudi_service_filesystem`

The parts of each file and id that are accepted and neither written nor dropped
(`History`), against the pending parts in the record under the name with
`/post`, and the timers for them. `appends_accounted` is that they are the same
in every run whose events meet `Event.Meets`, and that no handler raises. The
condition excludes

* the events that put an older copy of a record under `/post` (`pending_lost`);
* a refused write of a last part that leaves parts without their timer;
* a last part that comes when the message of the timer is in the mailbox;
* a range that starts before the contents.
-/

namespace CloudI.Services.Filesystem

variable {Id Notify : Type} [LinearOrder Id]

/-! ## What is accepted -/

/-- The parts that were accepted and neither written nor dropped, of each file and id. -/
abbrev History (Id : Type) := Key Id → List (Int × Part)

/-- What a handled event does to them: a part that is not the last is accepted; the parts of an id are gone when they
are written, when their write is refused, and when the timer's message is handled. -/
def History.record (h : History Id) : Event Id Notify → Reply → History Id
  | .post stem p, .accepted =>
    match contentsRangesAppend p with
    | .ok (.ok (range, id, _, Index)) => Function.update h (stem, id) ((Index, ⟨range, p.request⟩) :: h (stem, id))
    | _ => h
  | .post stem p, .written _ _ | .post stem p, .writeRefused _ =>
    match contentsRangesAppend p with
    | .ok (.ok (_, id, _, _)) => Function.update h (stem, id) []
    | _ => h
  | .appendClear stem id, _ => Function.update h (stem, id) []
  | _, _ => h

/-- Where a part can be written: its range does not start before the contents, unless it is empty. -/
def Part.Fits (ContentLength : Nat) (part : Part) : Prop :=
  match part.bounds ContentLength with
  | .ok (Start, End) => 0 ≤ Start ∨ End < Start
  | .error _ => part.range = .undefined

/-- Each part can be written when it comes to it. -/
def AllFit : List UInt8 → List Part → Prop
  | _, [] => True
  | Contents, part :: parts =>
    part.Fits Contents.length ∧ ∀ NewContents, part.writeTo Contents = .ok (some NewContents) → AllFit NewContents parts

theorem writeAt_ok {Contents Request : List UInt8} {Start End : Int} (h : 0 ≤ Start ∨ End < Start) :
    ∃ r, writeAt Contents Request Start End = .ok r := by
  unfold writeAt
  by_cases hle : Start ≤ End
  · have h0 : ¬Start < 0 := by omega
    rw [if_pos hle, if_neg h0, if_neg h0]
    split
    · exact ⟨_, rfl⟩
    · split
      · exact ⟨_, rfl⟩
      · split
        · exact ⟨_, rfl⟩
        · exact ⟨_, rfl⟩
  · rw [if_neg hle]
    exact ⟨none, rfl⟩

theorem Part.writeTo_ok {Contents : List UInt8} {part : Part} (h : part.Fits Contents.length) :
    ∃ r, part.writeTo Contents = .ok r := by
  by_cases hr : part.range = .undefined
  · refine ⟨some (Contents ++ part.request), ?_⟩
    rw [Part.writeTo, hr]
  · have heq : part.writeTo Contents = part.bounds Contents.length >>= fun x =>
        writeAt Contents part.request x.1 x.2 := by
      unfold Part.writeTo
      split
      · rename_i h0
        exact absurd h0 hr
      · rfl
    rw [heq]
    unfold Part.Fits at h
    cases hb : part.bounds Contents.length with
    | error e =>
      rw [hb] at h
      exact absurd h hr
    | ok x =>
      rw [hb] at h
      exact writeAt_ok h

theorem writeParts_ok {Contents : List UInt8} {parts : List Part} (h : AllFit Contents parts) :
    ∃ r, writeParts Contents parts = .ok r := by
  induction parts generalizing Contents with
  | nil => exact ⟨_, rfl⟩
  | cons part parts ih =>
    obtain ⟨r, hr⟩ := Part.writeTo_ok h.1
    rw [writeParts, bind_ok hr]
    cases r with
    | none => exact ⟨none, rfl⟩
    | some NewContents => exact ih (h.2 NewContents hr)

/-- The parts of an id, with the last one, in the order of their indexes. -/
def InOrder (h : History Id) (stem : Stem) (id : WithBot Id) (last : Int × Part) (l : List (Int × Part)) : Prop :=
  l.Pairwise (fun a b => a.1 < b.1) ∧ l.Perm (last :: h (stem, id))

/-- The condition of an event. The headers of a part are read, and it has an index that no other part of its id has. A
last part comes when the message of the timer is not in the mailbox, its parts can be written, and if the write is
refused then no other part of the id is pending. What puts a copy of a record under all the names has a current one. -/
def Event.Meets (h : History Id) (s : State Id Notify) : Event Id Notify → Prop
  | .post stem p => ∀ file, s.files ⟨stem, .post⟩ = some file → file.redirect = none → Write.append ∈ file.write →
    p.Reads ∧ ∀ range id last Index, contentsRangesAppend p = .ok (.ok (range, id, last, Index)) →
      Index ∉ (h (stem, id)).map Prod.fst ∧ (last = true → (stem, id) ∉ s.timers.mailbox ∧
        ∀ l, InOrder h stem id (Index, ⟨range, p.request⟩) l → AllFit file.contents (l.map Prod.snd) ∧
          (p.outcome ≠ .ok ∨ writeParts file.contents (l.map Prod.snd) = .ok none → h (stem, id) = []))
  | .put stem p => ∀ file, s.files ⟨stem, .put⟩ = some file → file.redirect = none → Write.truncate ∈ file.write →
    p.hasRange = false → p.outcome = .ok → Current s.files file
  | .notify _ names => ∀ name ∈ names, ∀ file, s.files name = some file → Current s.files file
  | .notifyClear name => ∀ file, s.files name = some file → Current s.files file
  | .refresh found => FoundCurrent (!s.toggle) s.files found
  -- there is a message
  | .appendClear stem id => (stem, id) ∈ s.timers.mailbox

/-- The pending parts are those that were accepted, and their timer runs or its message is in the mailbox. -/
structure Tracking (h : History Id) (s : State Id Notify) : Prop where
  pending : ∀ stem id, ((entriesOf id (appendsAt s.files stem)).map Entry.numbered).Perm (h (stem, id))
  timer : ∀ stem id, entriesOf id (appendsAt s.files stem) ≠ [] → ∃ ref, s.timers.Pending ref (stem, id)

/-- What is written are the accepted parts of the id and the last one, in order, and the file has the contents that they
make. -/
def Written (h : History Id) (s s' : State Id Notify) (stem : Stem) (p : Post Id) (RangeRequests : List Part)
    (Contents : List UInt8) : Prop :=
  ∃ range id Index file file' l, contentsRangesAppend p = .ok (.ok (range, id, true, Index)) ∧
    s.files ⟨stem, .post⟩ = some file ∧ InOrder h stem id (Index, ⟨range, p.request⟩) l ∧
    RangeRequests = l.map Prod.snd ∧ writeParts file.contents RangeRequests = .ok (some Contents) ∧
    s'.files ⟨stem, .post⟩ = some file' ∧ file'.contents = Contents

/-- A service without pending parts and timers. -/
structure Initial (s : State Id Notify) : Prop where
  coherent : Coherent s.files
  appends : ∀ stem, appendsAt s.files stem = []
  timers : s.timers = Timers.new

/-- The runs from such a service: events that meet their condition, while time passes. -/
inductive Run : History Id → State Id Notify → Prop
  | start {s : State Id Notify} (h : Initial s) : Run (fun _ => []) s
  | step {h : History Id} {s s' : State Id Notify} {e : Event Id Notify} {reply : Reply} (hrun : Run h s)
      (hm : e.Meets h s) (hs : handle s e = .ok (reply, s')) : Run (h.record e reply) s'
  | elapse {h : History Id} {s : State Id Notify} {timers : Timers (Key Id)} (hrun : Run h s)
      (he : Timers.Elapse s.timers timers) : Run h { s with timers := timers }

/-- The invariant of a run. -/
structure Books (h : History Id) (s : State Id Notify) : Prop where
  coherent : Coherent s.files
  wellformed : ∀ stem, Wellformed (appendsAt s.files stem)
  pending : ∀ stem id, ((entriesOf id (appendsAt s.files stem)).map Entry.numbered).Perm (h (stem, id))
  booked : Booked (fun m => entriesOf m.2 (appendsAt s.files m.1)) s.timers

section Books

variable {h : History Id} {s : State Id Notify} {stem : Stem} {id : WithBot Id}

theorem Books.tracking (hb : Books h s) : Tracking h s := ⟨hb.pending, fun stem id => hb.booked.pending (stem, id)⟩

theorem Initial.books (hi : Initial s) : Books (fun _ => []) s where
  coherent := hi.coherent
  wellformed stem := hi.appends stem ▸ wellformed_nil
  pending stem id := by rw [hi.appends]; exact .nil
  booked := by
    have hE : (fun m : Key Id => entriesOf m.2 (appendsAt s.files m.1)) = fun _ => [] :=
      funext fun m => by rw [hi.appends]; rfl
    rw [hE, hi.timers]
    refine ⟨Timers.fresh_new, fun _ _ he => absurd he List.not_mem_nil, fun m => Timers.quiet_new.atMostOne,
      fun ref m hr => absurd hr Timers.not_runs_new, fun _ _ he => absurd he List.not_mem_nil,
      fun m hm => absurd hm List.not_mem_nil, fun _ h0 => absurd rfl h0⟩

/-- The pending parts of every file are kept, and the timers are the same. -/
theorem Books.keeps (hb : Books h s) {s' : State Id Notify} (hk : Keeps s.files s'.files) (ht : s'.timers = s.timers) :
    Books h s' where
  coherent := hk.1
  wellformed stem := hk.2 stem ▸ hb.wellformed stem
  pending stem id := hk.2 stem ▸ hb.pending stem id
  booked := by
    have hE : (fun m : Key Id => entriesOf m.2 (appendsAt s'.files m.1)) =
        fun m => entriesOf m.2 (appendsAt s.files m.1) := funext fun m => by rw [hk.2]
    rw [hE, ht]
    exact hb.booked

/-! ## One id -/

theorem entriesOf_ne_nil {Appends : List (Append Id)} (hw : Wellformed Appends) {a : Append Id}
    {next : List (Append Id)}
    (hk : keytake id Appends = some (a, next)) : entriesOf id Appends ≠ [] := by
  obtain ⟨-, hp, -, hparts⟩ := keytake_some hk
  rw [hparts]
  exact (hw.parts a (hp.mem_iff.mpr List.mem_cons_self)).2

theorem requestAppendTake_spec {Appends : List (Append Id)} (hw : Wellformed Appends) (hne : entriesOf id Appends ≠ [])
    (t : Timers (Key Id)) : ∃ rest, requestAppendTake id Appends t =
        some ((entriesOf id Appends).map Entry.part, rest, cancelTimers (entriesOf id Appends) t) ∧ Wellformed rest ∧
      ∀ id', entriesOf id' rest = if id' = id then [] else entriesOf id' Appends := by
  cases hk : keytake id Appends with
  | none => exact absurd (entriesOf_notMem (keytake_none hk)) hne
  | some x =>
    obtain ⟨a, next⟩ := x
    obtain ⟨-, -, hs, hparts⟩ := keytake_some hk
    obtain ⟨hid, hrest⟩ := keytake_rest hw hk
    refine ⟨next, by rw [requestAppendTake, hk, hparts]; rfl, hw.sublist hs, fun id' => ?_⟩
    by_cases heq : id' = id
    · rw [if_pos heq, heq]
      exact entriesOf_notMem hid
    · rw [if_neg heq]
      exact hrest id' heq

theorem requestAppendStore_eq {Appends : List (Append Id)} (hw : Wellformed Appends) (Index : Int) (part : Part)
    (Timeout : Nat) (t : Timers (Key Id)) : requestAppendStore id Index stem part Timeout Appends t =
      if entriesOf id Appends = [] then
        (putEntry id ⟨Index, some t.next, part⟩ Appends, (t.sendAfter Timeout (stem, id)).2)
      else (putEntry id ⟨Index, none, part⟩ Appends, t) := by
  unfold requestAppendStore putEntry
  cases hk : keytake id Appends with
  | none =>
    rw [if_pos (entriesOf_notMem (keytake_none hk))]
    rfl
  | some x =>
    obtain ⟨a, next⟩ := x
    rw [if_neg (entriesOf_ne_nil hw hk)]

theorem requestAppendStoreLast_eq (Index : Int) (part : Part) (Appends : List (Append Id)) :
    requestAppendStoreLast id Index part Appends = putEntry id ⟨Index, none, part⟩ Appends := by
  unfold requestAppendStoreLast putEntry
  cases keytake id Appends with
  | none => rfl
  | some x => rfl

/-- The index of a part is new, so it is that of no entry. -/
theorem Books.index_notMem (hb : Books h s) {Index : Int} (hi : Index ∉ (h (stem, id)).map Prod.fst) :
    Index ∉ (entriesOf id (appendsAt s.files stem)).map Entry.index := by
  intro hm
  have hp := (hb.pending stem id).map Prod.fst
  rw [List.map_map] at hp
  exact hi (hp.mem_iff.mp hm)

/-- The entries of one id are others, and all the others are as they were. -/
theorem Books.put (hb : Books h s) {h' : History Id} {files' : Dict Name (File Id Notify)} {t' : Timers (Key Id)}
    {new : List (Append Id)} {L : List Entry} (hcoh : Coherent files')
    (hfiles : ∀ stem', appendsAt files' stem' = if stem' = stem then new else appendsAt s.files stem')
    (hnew : Wellformed new)
    (hent : ∀ id', entriesOf id' new = if id' = id then L else entriesOf id' (appendsAt s.files stem))
    (hperm : (L.map Entry.numbered).Perm (h' (stem, id))) (hh : ∀ m, m ≠ (stem, id) → h' m = h m)
    (hbook : Booked (Function.update (fun m => entriesOf m.2 (appendsAt s.files m.1)) (stem, id) L) t') :
    Books h' { s with files := files', timers := t' } := by
  have hE (stem' : Stem) (id' : WithBot Id) : entriesOf id' (appendsAt files' stem') =
      if (stem', id') = (stem, id) then L else entriesOf id' (appendsAt s.files stem') := by
    rw [hfiles]
    by_cases hs : stem' = stem
    · rw [if_pos hs, hent, hs]
      by_cases hid : id' = id
      · rw [if_pos hid, if_pos (by rw [hid])]
      · rw [if_neg hid, if_neg fun heq => hid (Prod.mk.inj heq).2]
    · rw [if_neg hs, if_neg fun heq => hs (Prod.mk.inj heq).1]
  refine ⟨hcoh, fun stem' => ?_, fun stem' id' => ?_, ?_⟩
  · show Wellformed (appendsAt files' stem')
    rw [hfiles]
    split
    · exact hnew
    · exact hb.wellformed stem'
  · show ((entriesOf id' (appendsAt files' stem')).map Entry.numbered).Perm (h' (stem', id'))
    rw [hE]
    by_cases hm : (stem', id') = (stem, id)
    · rw [if_pos hm, hm]
      exact hperm
    · rw [if_neg hm, hh _ hm]
      exact hb.pending stem' id'
  · convert hbook using 1
    funext m
    rw [Function.update_apply]
    exact hE m.1 m.2

variable {file : File Id Notify}

omit [LinearOrder Id] in
/-- A record with other pending parts under `/post`. -/
theorem store_post (hc : Coherent s.files) (hf : s.files ⟨stem, .post⟩ = some file) (new : List (Append Id)) :
    Coherent (s.files.store ⟨stem, .post⟩ { file with writeAppends := new }) ∧
      ∀ stem', appendsAt (s.files.store ⟨stem, .post⟩ { file with writeAppends := new }) stem' =
        if stem' = stem then new else appendsAt s.files stem' := by
  refine ⟨⟨fun stem' file' hf' => ?_, fun F file' hf' => ?_⟩, fun stem' => ?_⟩
  · rw [Dict.store, Function.update_apply] at hf'
    split at hf'
    · rename_i heq
      cases hf'
      cases heq
      exact hc.post stem file hf
    · exact hc.post stem' file' hf'
  · rw [Dict.store, Function.update_apply, if_neg (by simp)] at hf'
    exact hc.get F file' hf'
  · unfold appendsAt
    rw [Dict.store, Function.update_apply]
    by_cases hs : stem' = stem
    · rw [if_pos (by rw [hs]), if_pos hs]
    · rw [if_neg (fun heq => hs (Name.mk.inj heq).1), if_neg hs]

omit [LinearOrder Id] in
theorem appendsAt_eq (hf : s.files ⟨stem, .post⟩ = some file) :
    appendsAt s.files stem = file.writeAppends := by
  rw [appendsAt, hf]

/-! ## The events -/

/-- A part that is not the last is stored. -/
theorem Books.accept (hb : Books h s) (hf : s.files ⟨stem, .post⟩ = some file) {Index : Int}
    (hi : Index ∉ (h (stem, id)).map Prod.fst) (part : Part) (Timeout : Nat) :
    Books (Function.update h (stem, id) ((Index, part) :: h (stem, id)))
      { s with
        files := s.files.store ⟨stem, .post⟩
          { file with writeAppends := (requestAppendStore id Index stem part Timeout file.writeAppends s.timers).1 }
        timers := (requestAppendStore id Index stem part Timeout file.writeAppends s.timers).2 } := by
  have hw := hb.wellformed stem
  have hindex := hb.index_notMem hi
  rw [appendsAt_eq hf] at hw hindex
  obtain ⟨hcoh, hfiles⟩ := store_post hb.coherent hf
    (requestAppendStore id Index stem part Timeout file.writeAppends s.timers).1
  have hperm : ((entriesOf id file.writeAppends).map Entry.numbered).Perm (h (stem, id)) :=
    appendsAt_eq hf ▸ hb.pending stem id
  have hbook := hb.booked
  rw [requestAppendStore_eq hw] at hcoh hfiles ⊢
  have hstore (e : Entry) (he : e.numbered = (Index, part)) :
      Wellformed (putEntry id e file.writeAppends) ∧ (∀ id', entriesOf id' (putEntry id e file.writeAppends) =
        if id' = id then umerge (entriesOf id file.writeAppends) [e] else entriesOf id' (appendsAt s.files stem)) ∧
      (umerge (entriesOf id file.writeAppends) [e]).Perm (e :: entriesOf id file.writeAppends) := by
    have hei : e.index ∉ (entriesOf id file.writeAppends).map Entry.index := by
      rw [show e.index = Index from congrArg Prod.fst he]
      exact hindex
    obtain ⟨hw', hent⟩ := putEntry_spec hw hei
    refine ⟨hw', fun id' => ?_, (indexed_insert (hw.indexed id) hei).2⟩
    rw [hent, appendsAt_eq hf]
    exact if_congr eq_comm rfl rfl
  have hne : ∀ m, m ≠ (stem, id) → Function.update h (stem, id) ((Index, part) :: h (stem, id)) m = h m :=
    fun m hm => Function.update_of_ne hm _ _
  by_cases hnil : entriesOf id file.writeAppends = []
  · rw [if_pos hnil] at hcoh hfiles ⊢
    obtain ⟨hw', hent, hp⟩ := hstore ⟨Index, some s.timers.next, part⟩ rfl
    refine hb.put hcoh hfiles hw' hent ?_ hne ?_
    · rw [Function.update_self]
      exact (hp.map _).trans (hperm.cons (Index, part))
    · rw [hnil, nil_umerge]
      exact hbook.first (by rw [appendsAt_eq hf]; exact hnil) Timeout rfl
  · rw [if_neg hnil] at hcoh hfiles ⊢
    obtain ⟨hw', hent, hp⟩ := hstore ⟨Index, none, part⟩ rfl
    refine hb.put hcoh hfiles hw' hent ?_ hne ?_
    · rw [Function.update_self]
      exact (hp.map _).trans (hperm.cons (Index, part))
    · exact hbook.add (by rw [appendsAt_eq hf]; exact hnil) rfl (by rw [appendsAt_eq hf]; exact hp)

/-- The parts of an id are taken, with an entry that was stored right before or none, and the message of the timer is
not in the mailbox afterwards. -/
theorem Books.cleared (hb : Books h s) {files' : Dict Name (File Id Notify)} {t' : Timers (Key Id)}
    {new : List (Append Id)} {L : List Entry} (hcoh : Coherent files')
    (hfiles : ∀ stem', appendsAt files' stem' = if stem' = stem then new else appendsAt s.files stem')
    (hnew : Wellformed new)
    (hent : ∀ id', entriesOf id' new = if id' = id then [] else entriesOf id' (appendsAt s.files stem))
    (hL : ∀ e, e.tref ≠ none → (e ∈ L ↔ e ∈ entriesOf id (appendsAt s.files stem)))
    (ht : t' = cancelTimers L { s.timers with mailbox := t'.mailbox }) (hmail : (stem, id) ∉ t'.mailbox)
    (hsub : t'.mailbox.Sublist s.timers.mailbox)
    (hkeep : ∀ m, m ≠ (stem, id) → m ∈ s.timers.mailbox → m ∈ t'.mailbox) :
    Books (Function.update h (stem, id) []) { s with files := files', timers := t' } := by
  obtain ⟨hruns, -, hnext⟩ := cancelTimers_spec L { s.timers with mailbox := t'.mailbox }
  rw [← ht] at hruns hnext
  refine hb.put hcoh hfiles hnew hent ?_ (fun m hm => Function.update_of_ne hm _ _)
    (hb.booked.clear hL hnext hruns hmail hsub hkeep)
  rw [Function.update_self]
  exact .nil

/-- What holds of an event that is handled. -/
structure Settles (h : History Id) (s : State Id Notify) (e : Event Id Notify) (reply : Reply) (s' : State Id Notify) :
    Prop where
  books : Books (h.record e reply) s'
  written : ∀ stem p RangeRequests Contents, e = .post stem p → reply = .written RangeRequests Contents →
    Written h s s' stem p RangeRequests Contents

/-- An event that is no accepted or written part keeps all the pending parts. -/
theorem Books.settles_keeps (hb : Books h s) {e : Event Id Notify} {reply : Reply} {s' : State Id Notify}
    (hk : Keeps s.files s'.files) (ht : s'.timers = s.timers) (hh : h.record e reply = h)
    (hr : ∀ RangeRequests Contents, reply ≠ .written RangeRequests Contents) : Settles h s e reply s' :=
  ⟨by rw [hh]; exact hb.keeps hk ht, fun _ _ _ _ _ heq => absurd heq (hr _ _)⟩

theorem Books.appendClear (hb : Books h s) (hm : (stem, id) ∈ s.timers.mailbox) :
    ∃ reply s', handle s (.appendClear stem id) = .ok (reply, s') ∧ Settles h s (.appendClear stem id) reply s' := by
  have hne := hb.booked.mail (stem, id) hm
  cases hf : s.files ⟨stem, .post⟩ with
  | none =>
    rw [appendsAt, hf] at hne
    exact absurd rfl hne
  | some file =>
    have hw := hb.wellformed stem
    rw [appendsAt_eq hf] at hw hne
    obtain ⟨rest, htake, hrest, hent⟩ := requestAppendTake_spec hw hne
      { s.timers with mailbox := s.timers.mailbox.erase (stem, id) }
    obtain ⟨hcoh, hfiles⟩ := store_post hb.coherent hf rest
    have hmailbox := (cancelTimers_spec (entriesOf id file.writeAppends)
      { s.timers with mailbox := s.timers.mailbox.erase (stem, id) }).2.1
    refine ⟨_, _, by rw [handle, hf]; simp only [htake]; rfl, ?_, fun _ _ _ _ heq _ => by cases heq⟩
    refine hb.cleared hcoh hfiles hrest (fun id' => appendsAt_eq hf ▸ hent id') (fun e _ => by rw [appendsAt_eq hf]) ?_
      ?_ ?_ ?_
    · rw [hmailbox]
    · rw [hmailbox]
      obtain ⟨l₁, l₂, -, hl, herase⟩ := List.exists_erase_eq hm
      intro hmem
      rw [herase] at hmem
      exact (Timers.Receive.intro hl).quiet (hb.booked.once (stem, id)) 0 (.inr hmem)
    · rw [hmailbox]
      exact List.erase_sublist
    · rw [hmailbox]
      exact fun m hne hmem => (List.mem_erase_of_ne hne).mpr hmem

/-- Nothing was pending of the id whose write is refused. -/
theorem Books.refused (hb : Books h s) (hnil : h (stem, id) = []) : Books (Function.update h (stem, id) []) s := by
  rw [← hnil, Function.update_eq_self]
  exact hb

/-- A last part is written with the parts of its id, or refused. -/
theorem Books.last (hb : Books h s) (hf : s.files ⟨stem, .post⟩ = some file)
    (ha : Write.append ∈ file.write) {p : Post Id} {range : Range} {Index : Int}
    (hp : contentsRangesAppend p = .ok (.ok (range, id, true, Index))) (hi : Index ∉ (h (stem, id)).map Prod.fst)
    (hmail : (stem, id) ∉ s.timers.mailbox)
    (hfit : ∀ l, InOrder h stem id (Index, ⟨range, p.request⟩) l → AllFit file.contents (l.map Prod.snd) ∧
      (p.outcome ≠ .ok ∨ writeParts file.contents (l.map Prod.snd) = .ok none → h (stem, id) = [])) :
    ∃ reply s', requestAppend file stem p s = .ok (reply, s') ∧ Settles h s (.post stem p) reply s' := by
  have hw := hb.wellformed stem
  have hindex := hb.index_notMem hi
  rw [appendsAt_eq hf] at hw hindex
  have hperm : ((entriesOf id file.writeAppends).map Entry.numbered).Perm (h (stem, id)) :=
    appendsAt_eq hf ▸ hb.pending stem id
  set e : Entry := ⟨Index, none, ⟨range, p.request⟩⟩ with he
  set L := umerge (entriesOf id file.writeAppends) [e] with hL
  obtain ⟨hLi, hLp⟩ := indexed_insert (hw.indexed id) (show e.index ∉ _ from hindex)
  obtain ⟨hw', hent⟩ := putEntry_spec hw (show e.index ∉ _ from hindex)
  have hLent : entriesOf id (putEntry id e file.writeAppends) = L := (hent id).trans (if_pos rfl)
  have hLne : L ≠ [] := fun h0 => by
    rw [← hL, h0] at hLp
    exact List.cons_ne_nil _ _ hLp.symm.eq_nil
  obtain ⟨rest, htake, hrest, hrent⟩ := requestAppendTake_spec hw' (hLent ▸ hLne) s.timers
  rw [hLent] at htake
  have hnumbered : L.map Entry.part = (L.map Entry.numbered).map Prod.snd := by
    rw [List.map_map]
    rfl
  have horder : InOrder h stem id (Index, ⟨range, p.request⟩) (L.map Entry.numbered) :=
    ⟨hLi.pairwise, (hLp.map _).trans (hperm.cons _)⟩
  obtain ⟨hall, hrefused⟩ := hfit _ horder
  rw [← hnumbered] at hall hrefused
  obtain ⟨r, hwrite⟩ := writeParts_ok hall
  have hrun : requestAppend file stem p s = requestAppendFile (L.map Entry.part) { file with writeAppends := rest }
      p.outcome { s with timers := cancelTimers L s.timers } := by
    rw [requestAppend, if_pos ha, hp]
    dsimp only
    rw [requestAppendStoreLast_eq, htake]
  have hrecord (status : Nat) : h.record (.post stem p : Event Id Notify) (.writeRefused status) =
      Function.update h (stem, id) [] := by
    rw [History.record, hp]
  -- the write is refused, and there was no other part and no timer
  have hsettled (status : Nat) (hno : p.outcome ≠ .ok ∨ writeParts file.contents (L.map Entry.part) = .ok none) :
      Settles h s (.post stem p) (.writeRefused status) { s with timers := cancelTimers L s.timers } := by
    have hnil := hrefused hno
    have hEnil : entriesOf id file.writeAppends = [] :=
      List.map_eq_nil_iff.mp (List.Perm.eq_nil (hnil ▸ hperm))
    have hLe : L = [e] := by rw [hL, hEnil, nil_umerge]
    have hs : ({ s with timers := cancelTimers L s.timers } : State Id Notify) = s := by
      rw [hLe]
      rfl
    rw [hs]
    exact ⟨by rw [hrecord]; exact hb.refused hnil, fun _ _ _ _ _ heq => by cases heq⟩
  rw [hrun, requestAppendFile, bind_ok hwrite]
  cases r with
  | none => exact ⟨_, _, rfl, hsettled 416 (.inr hwrite)⟩
  | some Contents =>
    cases ho : p.outcome with
    | failed => exact ⟨_, _, rfl, hsettled 500 (.inl (by rw [ho]; nofun))⟩
    | excluded => exact ⟨_, _, rfl, hsettled 400 (.inl (by rw [ho]; nofun))⟩
    | ok =>
      obtain ⟨hname, -⟩ := hb.coherent.post stem file hf
      refine ⟨_, _, rfl, ?_, ?_⟩
      · have hrec : h.record (.post stem p : Event Id Notify) (.written (L.map Entry.part) Contents) =
            Function.update h (stem, id) [] := by
          rw [History.record, hp]
        rw [hrec]
        obtain ⟨-, hmailbox, -⟩ := cancelTimers_spec L s.timers
        refine hb.cleared (L := L) (fileRefresh_coherent hb.coherent rfl) (fun stem' => ?_) hrest
          (fun id' => ?_) (fun e' he' => ?_) ?_ (hmailbox ▸ hmail) (by rw [hmailbox]) (fun m _ hm => hmailbox ▸ hm)
        · refine (fileRefresh_appends _ _ _ _).trans ?_
          rw [hname]
          exact if_congr (and_iff_left ha) rfl rfl
        · rw [hrent, appendsAt_eq hf]
          by_cases hid : id' = id
          · rw [if_pos hid, if_pos hid]
          · rw [if_neg hid, if_neg hid, hent, if_neg (Ne.symm hid)]
        · rw [appendsAt_eq hf, hLp.mem_iff, List.mem_cons]
          refine ⟨fun hm => hm.resolve_left ?_, .inr⟩
          rintro rfl
          exact he' rfl
        · rw [hmailbox]
      · intro stem' p' RangeRequests Contents' heq hreply
        cases heq
        cases hreply
        refine ⟨range, id, Index, file, { file with writeAppends := rest, contents := Contents },
            L.map Entry.numbered, hp,
          hf, horder, hnumbered, hwrite, ?_, rfl⟩
        exact (fileRefresh_post _ _ _ _).trans (if_pos ⟨hname, ha⟩)

theorem Books.settles_same (hb : Books h s) {e : Event Id Notify} {reply : Reply} (hh : h.record e reply = h)
    (hr : ∀ RangeRequests Contents, reply ≠ .written RangeRequests Contents) : Settles h s e reply s :=
  hb.settles_keeps ⟨hb.coherent, fun _ => rfl⟩ rfl hh hr

/-- A request that is refused leaves everything as it is. -/
theorem Books.refuses (hb : Books h s) {e : Event Id Notify} {result : Except Exn (Reply × State Id Notify)}
    (status : Nat) (hs : result = .ok (.refused status, s)) (hh : h.record e (.refused status) = h) :
    ∃ reply s', result = .ok (reply, s') ∧ Settles h s e reply s' :=
  ⟨.refused status, s, hs, hb.settles_same hh fun _ _ heq => by cases heq⟩

theorem Books.post (hb : Books h s) {p : Post Id} (hm : (Event.post stem p : Event Id Notify).Meets h s) :
    ∃ reply s', handle s (.post stem p) = .ok (reply, s') ∧ Settles h s (.post stem p) reply s' := by
  rw [handle]
  cases hf : s.files ⟨stem, .post⟩ with
  | none => exact hb.refuses 404 rfl rfl
  | some file =>
    dsimp only
    by_cases hr : file.redirect = none
    · rw [if_pos hr]
      by_cases ha : Write.append ∈ file.write
      · obtain ⟨hreads, hpart⟩ := hm file hf hr ha
        obtain ⟨x, hp⟩ := contentsRangesAppend_ok hreads
        cases x with
        | error status =>
          refine hb.refuses status ?_ rfl
          rw [requestAppend, if_pos ha, hp]
        | ok x =>
          obtain ⟨range, id, last, Index⟩ := x
          obtain ⟨hi, hlast⟩ := hpart range id last Index hp
          cases last with
          | true =>
            obtain ⟨hmail, hfit⟩ := hlast rfl
            exact hb.last hf ha hp hi hmail hfit
          | false =>
            refine ⟨.accepted, _, by rw [requestAppend, if_pos ha, hp], ?_, fun _ _ _ _ _ heq => by cases heq⟩
            have hrec : h.record (.post stem p : Event Id Notify) .accepted =
                Function.update h (stem, id) ((Index, ⟨range, p.request⟩) :: h (stem, id)) := by
              rw [History.record, hp]
            rw [hrec]
            exact hb.accept hf hi ⟨range, p.request⟩ p.timeout
      · refine hb.refuses 400 ?_ rfl
        rw [requestAppend, if_neg ha]
    · rw [if_neg hr]
      exact hb.refuses 301 rfl rfl

theorem Books.truncate (hb : Books h s) {p : Put} (hm : (Event.put stem p : Event Id Notify).Meets h s) :
    ∃ reply s', handle s (.put stem p) = .ok (reply, s') ∧ Settles h s (.put stem p) reply s' := by
  rw [handle]
  cases hf : s.files ⟨stem, .put⟩ with
  | none => exact hb.refuses 404 rfl rfl
  | some file =>
    dsimp only
    by_cases hr : file.redirect = none
    · rw [if_pos hr, requestTruncate]
      by_cases ht : Write.truncate ∈ file.write
      · rw [if_pos ht]
        cases hrange : p.hasRange with
        | true => exact hb.refuses 400 rfl rfl
        | false =>
          cases ho : p.outcome with
          | ok =>
            refine ⟨.done, _, rfl, hb.settles_keeps ?_ rfl rfl fun _ _ heq => by cases heq⟩
            exact (hm file hf hr ht hrange ho).keeps hb.coherent rfl _ rfl rfl rfl
          | failed => exact hb.refuses 500 rfl rfl
          | excluded => exact hb.refuses 400 rfl rfl
      · rw [if_neg ht]
        exact hb.refuses 400 rfl rfl
    · rw [if_neg hr]
      exact hb.refuses 301 rfl rfl

theorem Books.notifyClear (hb : Books h s) {name : Name} (hm : (Event.notifyClear name : Event Id Notify).Meets h s) :
    ∃ reply s', handle s (.notifyClear name) = .ok (reply, s') ∧ Settles h s (.notifyClear name) reply s' := by
  rw [handle]
  cases hf : s.files name with
  | none => exact ⟨.done, s, rfl, hb.settles_same rfl fun _ _ heq => by cases heq⟩
  | some file =>
    refine ⟨.done, _, rfl, hb.settles_keeps ?_ rfl rfl fun _ _ heq => by cases heq⟩
    exact (hm file hf).keeps hb.coherent rfl _ rfl rfl rfl

/-- Each event that meets its condition is handled. -/
theorem Books.settles (hb : Books h s) {e : Event Id Notify} (hm : e.Meets h s) :
    ∃ reply s', handle s e = .ok (reply, s') ∧ Settles h s e reply s' := by
  cases e with
  | post stem p => exact hb.post hm
  | put stem p => exact hb.truncate hm
  | notify notify names =>
    exact ⟨.done, { s with files := filesNotify notify names s.files }, rfl,
      hb.settles_keeps (filesNotify_keeps notify hb.coherent hm) rfl rfl fun _ _ heq => by cases heq⟩
  | notifyClear name => exact hb.notifyClear hm
  | refresh found =>
    exact ⟨.done, { s with files := readFilesRefresh found s (!s.toggle), toggle := !s.toggle }, rfl,
      hb.settles_keeps (readFilesRefresh_keeps _ hb.coherent hm) rfl rfl fun _ _ heq => by cases heq⟩
  | appendClear stem id => exact hb.appendClear hm

theorem Run.books (hrun : Run h s) : Books h s := by
  induction hrun with
  | start hi => exact hi.books
  | step _ hm hs ih =>
    obtain ⟨reply, s', hs', hsettles⟩ := ih.settles hm
    cases hs.symm.trans hs'
    exact hsettles.books
  | elapse _ he ih => exact ⟨ih.coherent, ih.wellformed, ih.pending, ih.booked.elapse he⟩

end Books

/-- In every run whose events meet their condition, the pending parts of each file and id are those that were accepted,
with their timer, and each event more that meets it is handled without an exception: a last part that is written is
written with the accepted parts, in order, and all of them are gone then. -/
theorem appends_accounted {h : History Id} {s : State Id Notify} (hrun : Run h s) :
    Tracking h s ∧ ∀ e : Event Id Notify, e.Meets h s → ∃ reply s', handle s e = .ok (reply, s') ∧
      Tracking (h.record e reply) s' ∧ ∀ stem p RangeRequests Contents, e = .post stem p →
        reply = .written RangeRequests Contents → Written h s s' stem p RangeRequests Contents := by
  refine ⟨hrun.books.tracking, fun e hm => ?_⟩
  obtain ⟨reply, s', hs, hsettles⟩ := hrun.books.settles hm
  exact ⟨reply, s', hs, hsettles.books.tracking, hsettles.written⟩

/-! ## A pending part that is lost -/

/-- A service with an empty file that can be appended to. -/
def oneFile : State Nat Unit where
  files name := if name.stem = .file ["a"] then some ⟨[], ["a"], true, [], [.append], [], none⟩ else none
  toggle := true
  readAll := true
  timers := Timers.new

/-- A part of the id 0 that is not the last one. -/
def onePart : Post Nat := ⟨WithBot.some 0, none, none, .ok .none, [7], 1000, .ok⟩

theorem oneFile_initial : Initial oneFile := by
  have hfile (name : Name) (file : File Nat Unit) (h : oneFile.files name = some file) :
      name.stem = .file ["a"] ∧ file = ⟨[], ["a"], true, [], [.append], [], none⟩ := by
    unfold oneFile at h
    dsimp only at h
    split at h
    · rename_i hs
      exact ⟨hs, (Option.some.inj h).symm⟩
    · cases h
  refine ⟨⟨fun stem file h => ?_, fun FileName file h => ?_⟩, fun stem => ?_, rfl⟩
  · obtain ⟨hs, rfl⟩ := hfile _ _ h
    exact ⟨hs, List.mem_singleton_self _⟩
  · obtain ⟨hs, rfl⟩ := hfile _ _ h
    exact (Stem.file.inj hs).symm
  · unfold appendsAt
    cases h : oneFile.files ⟨stem, .post⟩ with
    | none => rfl
    | some file =>
      obtain ⟨-, rfl⟩ := hfile _ _ h
      rfl

/-- The part is accepted. -/
theorem appends_accounted_part : ∃ (h : History Nat) (s : State Nat Unit), Tracking h s ∧
    h (.file ["a"], onePart.id) = [(0, ⟨.undefined, [7]⟩)] := by
  have hrun := Run.step (e := .post (.file ["a"]) onePart) (.start oneFile_initial)
    (fun file _ _ _ => ⟨⟨nofun, nofun, .none, rfl, nofun⟩, fun range id last Index hp => by
      cases hp
      exact ⟨List.not_mem_nil, nofun⟩⟩) rfl
  exact ⟨_, _, (appends_accounted hrun).1, rfl⟩

/-- A refresh puts the record under `/get` under `/post`, and the pending part is lost. Its timer runs, and its message
raises. -/
theorem pending_lost : ∃ (s₁ s₂ : State Nat Unit) (t₁ t₂ : Timers (Key Nat)),
    handle oneFile (.post (.file ["a"]) onePart) = .ok (.accepted, s₁) ∧
    (entriesOf onePart.id (appendsAt s₁.files (.file ["a"]))).map Entry.numbered = [(0, ⟨.undefined, [7]⟩)] ∧
    handle s₁ (.refresh [⟨["a"], true, .excluded⟩]) = .ok (.done, s₂) ∧
    entriesOf onePart.id (appendsAt s₂.files (.file ["a"])) = [] ∧
    Timers.Elapse s₂.timers t₁ ∧ Timers.Elapse t₁ t₂ ∧
    handle { s₂ with timers := t₂ } (.appendClear (.file ["a"]) onePart.id) = .error .badmatch := by
  refine ⟨_, _, _, _, rfl, ?_, rfl, rfl, .pass 1000, @Timers.Elapse.fire _ _ 0 (.file ["a"], onePart.id) rfl, rfl⟩
  show (entriesOf onePart.id (umerge [] [⟨onePart.id, [⟨0, some 0, ⟨.undefined, [7]⟩⟩]⟩])).map Entry.numbered = _
  rw [nil_umerge]
  rfl

end CloudI.Services.Filesystem
