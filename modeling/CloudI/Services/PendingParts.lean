import CloudI.Services.Filesystem

/-!
# The pending parts of a file

What the functions of `cloudi_service_filesystem` do to the pending parts of an
id, to the timers for them, and to the record under the name with `/post`.

* `putEntry_spec`: an entry is stored with the others of its id, in order;
* `Booked`: each id with pending parts has one timer, which runs or has put its
  message into the mailbox, and no other timers are left;
* `Keeps`: what the requests do that put a copy of a record under all the names,
  if the copy is `Current`.
-/

namespace CloudI.Services.Filesystem

variable {Id Notify : Type} [LinearOrder Id]

/-! ## The pending parts of an id -/

/-- The entries of an id. -/
def entriesOf (id : WithBot Id) : List (Append Id) → List Entry
  | [] => []
  | a :: Appends => if a.id = id then a.parts else entriesOf id Appends

/-- A part with its index. -/
def Entry.numbered (e : Entry) : Int × Part := (e.index, e.part)

/-- Entries in order, each with its own index. -/
structure Indexed (L : List Entry) : Prop where
  sorted : Sorted L
  indexes : (L.map Entry.index).Nodup

/-- The ids in order, each once and with parts. -/
structure Wellformed (Appends : List (Append Id)) : Prop where
  sorted : Sorted Appends
  ids : (Appends.map Append.id).Nodup
  parts : ∀ a ∈ Appends, Indexed a.parts ∧ a.parts ≠ []

section Entries

variable {id : WithBot Id} {Appends : List (Append Id)} {a : Append Id} {L : List Entry} {e : Entry}

theorem wellformed_nil : Wellformed ([] : List (Append Id)) :=
  ⟨sorted_nil, List.nodup_nil, fun _ h => absurd h List.not_mem_nil⟩

theorem entriesOf_mem (h : (Appends.map Append.id).Nodup) (ha : a ∈ Appends) : entriesOf a.id Appends = a.parts := by
  induction Appends with
  | nil => exact absurd ha List.not_mem_nil
  | cons b Appends ih =>
    rw [List.map_cons, List.nodup_cons] at h
    rw [entriesOf]
    rcases List.mem_cons.mp ha with rfl | ha
    · exact if_pos rfl
    · rw [if_neg fun hb : b.id = a.id => h.1 (hb ▸ List.mem_map_of_mem ha)]
      exact ih h.2 ha

theorem entriesOf_notMem (h : id ∉ Appends.map Append.id) : entriesOf id Appends = [] := by
  induction Appends with
  | nil => rfl
  | cons b Appends ih =>
    rw [List.map_cons, List.mem_cons, not_or] at h
    rw [entriesOf, if_neg (Ne.symm h.1)]
    exact ih h.2

theorem entriesOf_perm {Appends' : List (Append Id)} (h : (Appends.map Append.id).Nodup) (hp : Appends.Perm Appends') :
    entriesOf id Appends' = entriesOf id Appends := by
  have h' : (Appends'.map Append.id).Nodup := (hp.map _).nodup_iff.mp h
  by_cases hid : id ∈ Appends.map Append.id
  · obtain ⟨a, ha, rfl⟩ := List.mem_map.mp hid
    rw [entriesOf_mem h ha, entriesOf_mem h' (hp.mem_iff.mp ha)]
  · rw [entriesOf_notMem hid, entriesOf_notMem fun h => hid ((hp.map _).mem_iff.mpr h)]

theorem Wellformed.indexed (h : Wellformed Appends) (id : WithBot Id) : Indexed (entriesOf id Appends) := by
  by_cases hid : id ∈ Appends.map Append.id
  · obtain ⟨a, ha, rfl⟩ := List.mem_map.mp hid
    rw [entriesOf_mem h.ids ha]
    exact (h.parts a ha).1
  · rw [entriesOf_notMem hid]
    exact ⟨sorted_nil, List.nodup_nil⟩

/-- What is taken has the id, and the others are left. -/
theorem keytake_some {next : List (Append Id)} (h : keytake id Appends = some (a, next)) :
    a.id = id ∧ Appends.Perm (a :: next) ∧ next.Sublist Appends ∧ entriesOf id Appends = a.parts := by
  induction Appends generalizing next with
  | nil => cases h
  | cons b Appends ih =>
    rw [keytake] at h
    split at h
    · rename_i hb
      cases h
      exact ⟨hb, .refl _, List.sublist_cons_self _ _, if_pos hb⟩
    · rename_i hb
      obtain ⟨⟨a', next'⟩, hk, heq⟩ := Option.map_eq_some_iff.mp h
      cases heq
      obtain ⟨hid, hp, hs, he⟩ := ih hk
      exact ⟨hid, (hp.cons b).trans (.swap _ _ _), hs.cons_cons b, (if_neg hb).trans he⟩

theorem keytake_none (h : keytake id Appends = none) : id ∉ Appends.map Append.id := by
  induction Appends with
  | nil => exact List.not_mem_nil
  | cons b Appends ih =>
    rw [keytake] at h
    split at h
    · cases h
    · rename_i hb
      rw [List.map_cons, List.mem_cons, not_or]
      exact ⟨Ne.symm hb, ih (Option.map_eq_none_iff.mp h)⟩

theorem Wellformed.sublist {next : List (Append Id)} (h : Wellformed Appends) (hs : next.Sublist Appends) :
    Wellformed next :=
  ⟨List.Pairwise.sublist hs h.sorted, h.ids.sublist (hs.map _), fun a ha => h.parts a (hs.mem ha)⟩

/-- What is left without the id, and what is kept of the others. -/
theorem keytake_rest {next : List (Append Id)} (h : Wellformed Appends) (hk : keytake id Appends = some (a, next)) :
    id ∉ next.map Append.id ∧ ∀ id', id' ≠ id → entriesOf id' next = entriesOf id' Appends := by
  obtain ⟨rfl, hp, -, -⟩ := keytake_some hk
  have hnodup : (a.id :: next.map Append.id).Nodup := (hp.map Append.id).nodup_iff.mp h.ids
  refine ⟨(List.nodup_cons.mp hnodup).1, fun id' hne => ?_⟩
  rw [← entriesOf_perm h.ids hp, entriesOf, if_neg (Ne.symm hne)]

theorem wellformed_insert (h : Wellformed Appends) (hid : a.id ∉ Appends.map Append.id)
    (hparts : Indexed a.parts ∧ a.parts ≠ []) :
    Wellformed (umerge Appends [a]) ∧
      ∀ id, entriesOf id (umerge Appends [a]) = if a.id = id then a.parts else entriesOf id Appends := by
  have hp : (umerge Appends [a]).Perm (a :: Appends) :=
    umerge_perm h.sorted fun ha => hid (List.mem_map_of_mem ha)
  have hids : ((a :: Appends).map Append.id).Nodup := List.nodup_cons.mpr ⟨hid, h.ids⟩
  refine ⟨⟨umerge_sorted h.sorted (sorted_singleton a), (hp.map _).nodup_iff.mpr hids, fun b hb => ?_⟩, fun id => ?_⟩
  · rcases List.mem_cons.mp (hp.mem_iff.mp hb) with rfl | hb
    · exact hparts
    · exact h.parts b hb
  · exact entriesOf_perm hids hp.symm

theorem indexed_insert (h : Indexed L) (he : e.index ∉ L.map Entry.index) :
    Indexed (umerge L [e]) ∧ (umerge L [e]).Perm (e :: L) := by
  have hp : (umerge L [e]).Perm (e :: L) := umerge_perm h.sorted fun hm => he (List.mem_map_of_mem hm)
  exact ⟨⟨umerge_sorted h.sorted (sorted_singleton e),
    (hp.map _).nodup_iff.mpr (List.nodup_cons.mpr ⟨he, h.indexes⟩)⟩, hp⟩

theorem Entry.index_le {a b : Entry} (h : a < b) : a.index ≤ b.index := by
  have h : a.key < b.key := h
  rcases Prod.Lex.toLex_lt_toLex.mp h with h | h
  · exact h.le
  · exact h.1.le

theorem Indexed.pairwise (h : Indexed L) : (L.map Entry.numbered).Pairwise fun a b => a.1 < b.1 := by
  have hne := List.pairwise_map.mp h.indexes
  exact List.pairwise_map.mpr ((h.sorted.and hne).imp fun hab => lt_of_le_of_ne (Entry.index_le hab.1) hab.2)

/-- What both `request_append_store` do with an entry. -/
def putEntry (id : WithBot Id) (e : Entry) (Appends : List (Append Id)) : List (Append Id) :=
  match keytake id Appends with
  | some (a, NextAppends) => umerge NextAppends [⟨id, umerge a.parts [e]⟩]
  | none => umerge Appends [⟨id, [e]⟩]

theorem putEntry_spec (h : Wellformed Appends) (he : e.index ∉ (entriesOf id Appends).map Entry.index) :
    Wellformed (putEntry id e Appends) ∧ ∀ id', entriesOf id' (putEntry id e Appends) =
      if id = id' then umerge (entriesOf id Appends) [e] else entriesOf id' Appends := by
  unfold putEntry
  cases hk : keytake id Appends with
  | none =>
    have hid := keytake_none hk
    obtain ⟨hw, hent⟩ := wellformed_insert (a := ⟨id, [e]⟩) h hid
      ⟨⟨sorted_singleton e, List.nodup_singleton _⟩, List.cons_ne_nil _ _⟩
    refine ⟨hw, fun id' => ?_⟩
    rw [entriesOf_notMem hid, nil_umerge]
    exact hent id'
  | some x =>
    obtain ⟨a, next⟩ := x
    obtain ⟨-, -, hs, hparts⟩ := keytake_some hk
    obtain ⟨hid, hrest⟩ := keytake_rest h hk
    rw [hparts] at he
    obtain ⟨hi, hp⟩ := indexed_insert (hparts ▸ h.indexed id) he
    obtain ⟨hw, hent⟩ := wellformed_insert (a := ⟨id, umerge a.parts [e]⟩) (h.sublist hs) hid
      ⟨hi, fun h0 : umerge a.parts [e] = [] => by
        rw [h0] at hp
        exact List.cons_ne_nil _ _ hp.symm.eq_nil⟩
    refine ⟨hw, fun id' => (hent id').trans ?_⟩
    rw [hparts]
    by_cases hne : id = id'
    · rw [if_pos hne, if_pos hne]
    · rw [if_neg hne, if_neg hne, hrest id' (Ne.symm hne)]

end Entries

/-! ## Timers -/

/-- The file, by its stem, and the id that a timer is for. -/
abbrev Key (Id : Type) := Stem × WithBot Id

section Timers

variable {t t' : Timers (Key Id)} {E : Key Id → List Entry} {m : Key Id} {L : List Entry}

omit [LinearOrder Id] in
theorem cancelTimers_spec (L : List Entry) (t : Timers (Key Id)) :
    (∀ ref m, (cancelTimers L t).Runs ref m ↔ t.Runs ref m ∧ ∀ e ∈ L, e.tref ≠ some ref) ∧
      (cancelTimers L t).mailbox = t.mailbox ∧ (cancelTimers L t).next = t.next := by
  induction L generalizing t with
  | nil => exact ⟨fun ref m => ⟨fun h => ⟨h, fun _ he => absurd he List.not_mem_nil⟩, And.left⟩, rfl, rfl⟩
  | cons e L ih =>
    cases he : e.tref with
    | none =>
      have heq : cancelTimers (e :: L) t = cancelTimers L t := by rw [cancelTimers, List.foldl_cons, he]; rfl
      rw [heq]
      refine ⟨fun ref m => ((ih t).1 ref m).trans ?_, (ih t).2⟩
      rw [List.forall_mem_cons, he]
      exact ⟨fun ⟨h, hl⟩ => ⟨h, nofun, hl⟩, fun ⟨h, _, hl⟩ => ⟨h, hl⟩⟩
    | some Tref =>
      have heq : cancelTimers (e :: L) t = cancelTimers L (t.cancelTimer Tref).2 := by
        rw [cancelTimers, List.foldl_cons, he]; rfl
      rw [heq]
      refine ⟨fun ref m => ((ih _).1 ref m).trans ?_, (ih _).2⟩
      rw [List.forall_mem_cons, he, Timers.runs_cancelTimer]
      constructor
      · rintro ⟨⟨hne, h⟩, hl⟩
        exact ⟨h, fun h' => hne (Option.some.inj h').symm, hl⟩
      · rintro ⟨h, hne, hl⟩
        exact ⟨⟨fun h' => hne (congrArg some h'.symm), h⟩, hl⟩

/-- The timers are those of the pending parts: the first part of each id has the reference of its timer. -/
structure Booked (E : Key Id → List Entry) (t : Timers (Key Id)) : Prop where
  fresh : t.Fresh
  refs : ∀ m, ∀ e ∈ E m, ∀ ref, e.tref = some ref → ref < t.next
  once : ∀ m, t.AtMostOne m
  owned : ∀ ref m, t.Runs ref m → ∃ e ∈ E m, e.tref = some ref
  unique : ∀ m, ∀ e ∈ E m, ∀ ref m', e.tref = some ref → t.Runs ref m' → m' = m
  mail : ∀ m ∈ t.mailbox, E m ≠ []
  pending : ∀ m, E m ≠ [] → ∃ ref, t.Pending ref m

theorem Booked.quiet (h : Booked E t) (hm : E m = []) : t.Quiet m := by
  rintro ref (hr | hmail)
  · obtain ⟨e, he, -⟩ := h.owned ref m hr
    rw [hm] at he
    exact List.not_mem_nil he
  · exact h.mail m hmail hm

/-- The first part of an id starts the timer. -/
theorem Booked.first (h : Booked E t) (hm : E m = []) (Time : Nat) {e : Entry} (he : e.tref = some t.next) :
    Booked (Function.update E m [e]) (t.sendAfter Time m).2 where
  fresh := h.fresh.sendAfter
  refs m' e' he' ref href := by
    show ref < t.next + 1
    rw [Function.update_apply] at he'
    split at he'
    · rw [List.mem_singleton.mp he', he] at href
      cases href
      exact Nat.lt_succ_self _
    · exact Nat.lt_succ_of_lt (h.refs m' e' he' ref href)
  once m' := by
    by_cases hne : m' = m
    · rw [hne]
      exact (h.quiet hm).sendAfter
    · exact (h.once m').sendAfter_ne hne
  owned ref m' hr := by
    rcases Timers.runs_sendAfter.mp hr with ⟨rfl, rfl⟩ | ⟨-, hr⟩
    · exact ⟨e, by rw [Function.update_self]; exact List.mem_singleton_self e, he⟩
    · obtain ⟨e', he', href⟩ := h.owned ref m' hr
      have hne : m' ≠ m := fun h' => by rw [h', hm] at he'; exact List.not_mem_nil he'
      exact ⟨e', by rw [Function.update_of_ne hne]; exact he', href⟩
  unique m' e' he' ref m'' href hr := by
    rw [Function.update_apply] at he'
    split at he'
    · rename_i heq
      rw [List.mem_singleton.mp he', he] at href
      cases href
      rcases Timers.runs_sendAfter.mp hr with ⟨-, hm''⟩ | ⟨hne, -⟩
      · exact hm''.trans heq.symm
      · exact absurd rfl hne
    · have hlt := h.refs m' e' he' ref href
      rcases Timers.runs_sendAfter.mp hr with ⟨rfl, -⟩ | ⟨-, hr⟩
      · exact absurd hlt (lt_irrefl _)
      · exact h.unique m' e' he' ref m'' href hr
  mail m' hm' := by
    rw [Function.update_apply]
    split
    · exact List.cons_ne_nil _ _
    · exact h.mail m' hm'
  pending m' hm' := by
    by_cases hne : m' = m
    · exact ⟨t.next, .inl (Timers.runs_sendAfter.mpr (.inl ⟨rfl, hne⟩))⟩
    · rw [Function.update_of_ne hne] at hm'
      obtain ⟨ref, hp⟩ := h.pending m' hm'
      exact ⟨ref, h.fresh.pending_sendAfter hp⟩

/-- The entries may change, if the references are the same. -/
theorem Booked.congr {E' : Key Id → List Entry} (h : Booked E t)
    (hrefs : ∀ m ref, (∃ e ∈ E' m, e.tref = some ref) ↔ ∃ e ∈ E m, e.tref = some ref)
    (hnil : ∀ m, E' m = [] ↔ E m = []) : Booked E' t where
  fresh := h.fresh
  refs m e he ref href := by
    obtain ⟨e', he', href'⟩ := (hrefs m ref).mp ⟨e, he, href⟩
    exact h.refs m e' he' ref href'
  once := h.once
  owned ref m hr := (hrefs m ref).mpr (h.owned ref m hr)
  unique m e he ref m' href hr := by
    obtain ⟨e', he', href'⟩ := (hrefs m ref).mp ⟨e, he, href⟩
    exact h.unique m e' he' ref m' href' hr
  mail m hm := fun h0 => h.mail m hm ((hnil m).mp h0)
  pending m hm := h.pending m fun h0 => hm ((hnil m).mpr h0)

/-- One more part of an id that has parts. -/
theorem Booked.add (h : Booked E t) (hm : E m ≠ []) {e : Entry} (he : e.tref = none) (hL : L.Perm (e :: E m)) :
    Booked (Function.update E m L) t := by
  refine h.congr (fun m' ref => ?_) fun m' => ?_
  · by_cases hne : m' = m
    · subst hne
      rw [Function.update_self]
      constructor
      · rintro ⟨e', he', href⟩
        rcases List.mem_cons.mp (hL.mem_iff.mp he') with rfl | he'
        · rw [he] at href
          cases href
        · exact ⟨e', he', href⟩
      · rintro ⟨e', he', href⟩
        exact ⟨e', hL.mem_iff.mpr (List.mem_cons_of_mem _ he'), href⟩
    · rw [Function.update_of_ne hne]
  · by_cases hne : m' = m
    · subst hne
      rw [Function.update_self]
      exact ⟨fun h0 => by rw [h0] at hL; exact absurd hL.symm.eq_nil (List.cons_ne_nil _ _), fun h0 => absurd h0 hm⟩
    · rw [Function.update_of_ne hne]

/-- The parts of an id are gone, its timer is cancelled and its message is not in the mailbox. -/
theorem Booked.clear (h : Booked E t) (hL : ∀ e, e.tref ≠ none → (e ∈ L ↔ e ∈ E m)) (hnext : t'.next = t.next)
    (hruns : ∀ ref m', t'.Runs ref m' ↔ t.Runs ref m' ∧ ∀ e ∈ L, e.tref ≠ some ref) (hmail : m ∉ t'.mailbox)
    (hsub : t'.mailbox.Sublist t.mailbox) (hkeep : ∀ m', m' ≠ m → m' ∈ t.mailbox → m' ∈ t'.mailbox) :
    Booked (Function.update E m []) t' where
  fresh ref m' hr := hnext ▸ h.fresh ref m' ((hruns ref m').mp hr).1
  refs m' e he ref href := by
    rw [Function.update_apply] at he
    split at he
    · exact absurd he List.not_mem_nil
    · exact hnext ▸ h.refs m' e he ref href
  once m' := by
    have hto : ∀ ref, t'.Runs ref m' → t.Runs ref m' := fun ref hr => ((hruns ref m').mp hr).1
    exact (h.once m').sublist hto hsub
  owned ref m' hr := by
    obtain ⟨hr, hnot⟩ := (hruns ref m').mp hr
    obtain ⟨e, he, href⟩ := h.owned ref m' hr
    have hne : m' ≠ m := by
      rintro rfl
      exact hnot e ((hL e (href ▸ Option.some_ne_none ref)).mpr he) href
    exact ⟨e, by rw [Function.update_of_ne hne]; exact he, href⟩
  unique m' e he ref m'' href hr := by
    rw [Function.update_apply] at he
    split at he
    · exact absurd he List.not_mem_nil
    · exact h.unique m' e he ref m'' href ((hruns ref m'').mp hr).1
  mail m' hm' := by
    have hne : m' ≠ m := fun h' => hmail (h' ▸ hm')
    rw [Function.update_of_ne hne]
    exact h.mail m' (hsub.mem hm')
  pending m' hm' := by
    have hne : m' ≠ m := by
      rintro rfl
      exact hm' (Function.update_self _ _ _)
    rw [Function.update_of_ne hne] at hm'
    obtain ⟨ref, hr | hmem⟩ := h.pending m' hm'
    · refine ⟨ref, .inl ((hruns ref m').mpr ⟨hr, fun e he href => hne ?_⟩)⟩
      exact h.unique m e ((hL e (href ▸ Option.some_ne_none ref)).mp he) ref m' href hr
    · exact ⟨ref, .inr (hkeep m' hne hmem)⟩

theorem Booked.elapse (h : Booked E t) (he : Timers.Elapse t t') : Booked E t' where
  fresh := h.fresh.elapse he
  refs m e hmem ref href := he.next_eq ▸ h.refs m e hmem ref href
  once m := he.atMostOne (h.once m)
  owned ref m hr := h.owned ref m (he.runs hr)
  unique m e hmem ref m' href hr := h.unique m e hmem ref m' href (he.runs hr)
  mail m hm := by
    rcases he.mem_mailbox hm with hm | ⟨ref, hr⟩
    · exact h.mail m hm
    · obtain ⟨e, hmem, -⟩ := h.owned ref m hr
      exact List.ne_nil_of_mem hmem
  pending m hm := (h.pending m hm).imp fun _ hp => he.pending hp

end Timers

/-! ## The records -/

/-- The pending parts of a file, which are those in its record under `/post`. -/
def appendsAt (files : Dict Name (File Id Notify)) (stem : Stem) : List (Append Id) :=
  match files ⟨stem, .post⟩ with
  | some file => file.writeAppends
  | none => []

/-- The records under `/post` and `/get` are of the file, and that under `/post` can be appended to. -/
structure Coherent (files : Dict Name (File Id Notify)) : Prop where
  post : ∀ stem file, files ⟨stem, .post⟩ = some file → stem = .file file.fileName ∧ Write.append ∈ file.write
  get : ∀ FileName file, files ⟨.file FileName, .get⟩ = some file → file.fileName = FileName

/-- If the copy of a record gets under `/post`, it has the pending parts of the file. -/
def Current (files : Dict Name (File Id Notify)) (file : File Id Notify) : Prop :=
  Write.append ∈ file.write → file.writeAppends = appendsAt files (.file file.fileName)

section Files

variable {files : Dict Name (File Id Notify)} {file : File Id Notify} {FileName : List String} {stem : Stem}

omit [LinearOrder Id]

theorem storeRead_post (FileName : List String) (file : File Id Notify) (files : Dict Name (File Id Notify))
    (stem : Stem) : storeRead FileName file files ⟨stem, .post⟩ = files ⟨stem, .post⟩ := by
  unfold storeRead
  cases serviceNameSuffixReadRoot FileName with
  | none =>
    simp [Dict.store, serviceNameSuffixOptions, serviceNameSuffixHeader, serviceNameSuffixRead]
  | some SuffixRead =>
    simp [Dict.store, serviceNameSuffixOptions, serviceNameSuffixHeader, serviceNameSuffixRead]

theorem storeRead_get (FileName : List String) (file : File Id Notify) (files : Dict Name (File Id Notify))
    (FileName' : List String) : storeRead FileName file files ⟨.file FileName', .get⟩ =
      if FileName' = FileName then some file else files ⟨.file FileName', .get⟩ := by
  unfold storeRead
  cases serviceNameSuffixReadRoot FileName with
  | none =>
    simp [Dict.store, Function.update_apply, serviceNameSuffixOptions, serviceNameSuffixHeader, serviceNameSuffixRead]
  | some SuffixRead =>
    simp [Dict.store, Function.update_apply, serviceNameSuffixOptions, serviceNameSuffixHeader, serviceNameSuffixRead]

theorem fileRefresh_post (FileName : List String) (file : File Id Notify) (files : Dict Name (File Id Notify))
    (stem : Stem) : fileRefresh FileName file files ⟨stem, .post⟩ =
      if stem = .file FileName ∧ Write.append ∈ file.write then some file else files ⟨stem, .post⟩ := by
  rw [← storeRead_post FileName file files stem, fileRefresh]
  generalize storeRead FileName file files = Files6
  by_cases ht : Write.truncate ∈ file.write
  · by_cases ha : Write.append ∈ file.write
    · simp [Dict.store, Function.update_apply, serviceNameSuffixWriteTruncate, serviceNameSuffixWriteAppend, ht, ha]
    · simp [Dict.store, serviceNameSuffixWriteTruncate, ht, ha]
  · by_cases ha : Write.append ∈ file.write
    · simp [Dict.store, Function.update_apply, serviceNameSuffixWriteAppend, ht, ha]
    · simp [ht, ha]

theorem fileRefresh_get (FileName : List String) (file : File Id Notify) (files : Dict Name (File Id Notify))
    (FileName' : List String) : fileRefresh FileName file files ⟨.file FileName', .get⟩ =
      if FileName' = FileName then some file else files ⟨.file FileName', .get⟩ := by
  rw [← storeRead_get FileName file files FileName', fileRefresh]
  generalize storeRead FileName file files = Files6
  by_cases ht : Write.truncate ∈ file.write
  · by_cases ha : Write.append ∈ file.write
    · simp [Dict.store, serviceNameSuffixWriteTruncate, serviceNameSuffixWriteAppend, ht, ha]
    · simp [Dict.store, serviceNameSuffixWriteTruncate, ht, ha]
  · by_cases ha : Write.append ∈ file.write
    · simp [Dict.store, serviceNameSuffixWriteAppend, ht, ha]
    · simp [ht, ha]

theorem fileRemoveRead_post (FileName : List String) (files : Dict Name (File Id Notify)) (stem : Stem) :
    fileRemoveRead FileName files ⟨stem, .post⟩ = files ⟨stem, .post⟩ := by
  unfold fileRemoveRead
  cases serviceNameSuffixReadRoot FileName with
  | none =>
    simp [Dict.erase, serviceNameSuffixOptions, serviceNameSuffixHeader, serviceNameSuffixRead]
  | some SuffixRead =>
    simp [Dict.erase, serviceNameSuffixOptions, serviceNameSuffixHeader, serviceNameSuffixRead]

theorem fileRemoveRead_get (FileName : List String) (files : Dict Name (File Id Notify)) (FileName' : List String) :
    fileRemoveRead FileName files ⟨.file FileName', .get⟩ =
      if FileName' = FileName then none else files ⟨.file FileName', .get⟩ := by
  unfold fileRemoveRead
  cases serviceNameSuffixReadRoot FileName with
  | none =>
    simp [Dict.erase, Function.update_apply, serviceNameSuffixOptions, serviceNameSuffixHeader, serviceNameSuffixRead]
  | some SuffixRead =>
    simp [Dict.erase, Function.update_apply, serviceNameSuffixOptions, serviceNameSuffixHeader, serviceNameSuffixRead]

/-- A refresh keeps the records coherent, and the pending parts of the file are those of the copy. -/
theorem fileRefresh_coherent (h : Coherent files) (hname : file.fileName = FileName) :
    Coherent (fileRefresh FileName file files) := by
  constructor
  · intro stem file' hf
    rw [fileRefresh_post] at hf
    split at hf
    · rename_i hc
      cases hf
      exact ⟨hname ▸ hc.1, hc.2⟩
    · exact h.post stem file' hf
  · intro FileName' file' hf
    rw [fileRefresh_get] at hf
    split at hf
    · rename_i heq
      cases hf
      exact hname.trans heq.symm
    · exact h.get FileName' file' hf

theorem fileRefresh_appends (FileName : List String) (file : File Id Notify) (files : Dict Name (File Id Notify))
    (stem : Stem) : appendsAt (fileRefresh FileName file files) stem =
      if stem = .file FileName ∧ Write.append ∈ file.write then file.writeAppends else appendsAt files stem := by
  unfold appendsAt
  rw [fileRefresh_post]
  by_cases hc : stem = .file FileName ∧ Write.append ∈ file.write
  · rw [if_pos hc, if_pos hc]
  · rw [if_neg hc, if_neg hc]

/-- A refresh with a current copy keeps all the pending parts. -/
theorem Current.refresh (h : Current files file) (hname : file.fileName = FileName) (stem : Stem) :
    appendsAt (fileRefresh FileName file files) stem = appendsAt files stem := by
  rw [fileRefresh_appends]
  split
  · rename_i hc
    rw [h hc.2, hname, hc.1]
  · rfl

/-- What keeps the pending parts of every file. -/
def Keeps (files files' : Dict Name (File Id Notify)) : Prop :=
  Coherent files' ∧ ∀ stem, appendsAt files' stem = appendsAt files stem

theorem Current.keeps (h : Current files file) (hc : Coherent files) (hname : file.fileName = FileName)
    (file' : File Id Notify) (h1 : file'.fileName = file.fileName) (h2 : file'.write = file.write)
    (h3 : file'.writeAppends = file.writeAppends) : Keeps files (fileRefresh FileName file' files) := by
  have h' : Current files file' := fun ha => by
    rw [h3, h1]
    exact h (h2 ▸ ha)
  exact ⟨fileRefresh_coherent hc (h1.trans hname), h'.refresh (h1.trans hname)⟩

theorem Keeps.trans {files' files'' : Dict Name (File Id Notify)} (h : Keeps files files') (h' : Keeps files' files'') :
    Keeps files files'' :=
  ⟨h'.1, fun stem => (h'.2 stem).trans (h.2 stem)⟩

theorem filesNotify_keeps (notify : Notify) (hc : Coherent files) {names : List Name}
    (h : ∀ name ∈ names, ∀ file, files name = some file → Current files file) :
    Keeps files (filesNotify notify names files) := by
  suffices hfold : ∀ (l : List Name) (files' : Dict Name (File Id Notify)), l ⊆ names → Keeps files files' →
      Keeps files (l.foldl (fun Files name => match files name with
        | some file => fileRefresh file.fileName { file with notify := notify :: file.notify } Files
        | none => Files) files') from hfold names files (List.Subset.refl _) ⟨hc, fun _ => rfl⟩
  intro l
  induction l with
  | nil => exact fun _ _ hk => hk
  | cons name l ih =>
    intro files' hl hk
    refine ih _ (List.subset_of_cons_subset hl) ?_
    dsimp only
    cases hf : files name with
    | none => exact hk
    | some file =>
      refine ⟨fileRefresh_coherent hk.1 rfl, fun stem => ?_⟩
      have hcur : Current files' { file with notify := notify :: file.notify } :=
        fun ha => (h name (hl List.mem_cons_self) file hf ha).trans (hk.2 _).symm
      exact (hcur.refresh rfl stem).trans (hk.2 stem)

/-- The files that a refresh finds are current, each when it comes to it. -/
def FoundCurrent (toggle : Bool) : Dict Name (File Id Notify) → List Found → Prop
  | _, [] => True
  | files, found :: l =>
    (∀ file, files ⟨.file found.fileName, .get⟩ = some file → (found.same = true ∨ found.reading ≠ .excluded) →
      Current files file) ∧ FoundCurrent toggle (frefresh toggle files found) l

theorem frefresh_keeps (toggle : Bool) (hc : Coherent files) {found : Found}
    (h : ∀ file, files ⟨.file found.fileName, .get⟩ = some file → (found.same = true ∨ found.reading ≠ .excluded) →
      Current files file) : Keeps files (frefresh toggle files found) := by
  have hremove : Keeps files (fileRemoveRead found.fileName files) := by
    refine ⟨⟨fun stem file hf => hc.post stem file ((fileRemoveRead_post _ _ _).symm.trans hf), fun F file hf => ?_⟩,
      fun stem => by rw [appendsAt, appendsAt, fileRemoveRead_post]⟩
    rw [fileRemoveRead_get] at hf
    split at hf
    · cases hf
    · exact hc.get F file hf
  unfold frefresh
  cases hget : files ⟨.file found.fileName, .get⟩ with
  | some file =>
    have hname := hc.get _ file hget
    by_cases hsame : found.same = true
    · simp only [hsame, if_true]
      exact (h file hget (.inl hsame)).keeps hc hname _ rfl rfl rfl
    · simp only [hsame]
      cases hr : found.reading with
      | contents Contents => exact (h file hget (.inr (by rw [hr]; nofun))).keeps hc hname _ rfl rfl rfl
      | excluded => exact ⟨hc, fun _ => rfl⟩
      | error =>
        by_cases hw : file.write = []
        · simp only [hw, if_true]
          exact hremove
        · simp only [hw, if_false]
          exact (h file hget (.inr (by rw [hr]; nofun))).keeps hc hname _ rfl rfl rfl
  | none =>
    cases found.reading with
    | contents Contents =>
      refine ⟨⟨fun stem file hf => hc.post stem file ((storeRead_post _ _ _ _).symm.trans hf), fun F file hf => ?_⟩,
        fun stem => by simp only [appendsAt, fileAddRead, storeRead_post]⟩
      have hf := (storeRead_get _ _ _ _).symm.trans hf
      split at hf
      · rename_i heq
        cases hf
        exact heq.symm
      · exact hc.get F file hf
    | excluded => exact ⟨hc, fun _ => rfl⟩
    | error => exact hremove

theorem foldl_frefresh_keeps (toggle : Bool) {l : List Found} (hc : Coherent files) (h : FoundCurrent toggle files l) :
    Keeps files (l.foldl (frefresh toggle) files) := by
  induction l generalizing files with
  | nil => exact ⟨hc, fun _ => rfl⟩
  | cons found l ih =>
    have hk := frefresh_keeps toggle hc h.1
    exact hk.trans (ih hk.1 h.2)

/-- What removes the records of removed files keeps those that can be written. -/
theorem removeStale_keeps (toggle : Bool) (hc : Coherent files) :
    Keeps files fun name => (files name).bind (removeStale toggle) := by
  have hstale {file file' : File Id Notify} (h : removeStale toggle file = some file') :
      file'.fileName = file.fileName ∧ file'.write = file.write ∧ file'.writeAppends = file.writeAppends := by
    unfold removeStale at h
    split at h
    · split at h
      · cases h
      · cases h
        exact ⟨rfl, rfl, rfl⟩
    · cases h
      exact ⟨rfl, rfl, rfl⟩
  refine ⟨⟨fun stem file' hf => ?_, fun F file' hf => ?_⟩, fun stem => ?_⟩
  · obtain ⟨file, hfile, hs⟩ := Option.bind_eq_some_iff.mp hf
    obtain ⟨hn, hw, -⟩ := hstale hs
    rw [hn, hw]
    exact hc.post stem file hfile
  · obtain ⟨file, hfile, hs⟩ := Option.bind_eq_some_iff.mp hf
    exact (hstale hs).1.trans (hc.get F file hfile)
  · unfold appendsAt
    dsimp only
    cases hfile : files ⟨stem, .post⟩ with
    | none => rfl
    | some file =>
      -- it can be appended to, so it is not removed
      have hw : file.write ≠ [] := List.ne_nil_of_mem (hc.post stem file hfile).2
      obtain ⟨file', hs⟩ : ∃ file', removeStale toggle file = some file' := by
        unfold removeStale
        rw [if_neg hw]
        split
        · exact ⟨_, rfl⟩
        · exact ⟨_, rfl⟩
      simp only [Option.bind_some, hs]
      exact (hstale hs).2.2

theorem readFilesRefresh_keeps {s : State Id Notify} {found : List Found} (toggle : Bool) (hc : Coherent s.files)
    (h : FoundCurrent toggle s.files found) : Keeps s.files (readFilesRefresh found s toggle) := by
  have hk := foldl_frefresh_keeps toggle hc h
  unfold readFilesRefresh
  dsimp only
  split
  · exact hk.trans (removeStale_keeps toggle hk.1)
  · exact hk

end Files

end CloudI.Services.Filesystem
