import CloudI.Queue.WriteAheadLog

/-!
# The layout of the write-ahead log

The chunks of a log tile its file up to the position where the next one goes (`Layout`). `Layout` is stated
for any owners of the chunks, so that a chunk which is stored or erased can have an owner that is not an id.
The functions of the log keep it (`Layout.storeStart`, `Layout.eraseChunk`, `Layout.rename`), and so does each
operation that does not leave the id of an update behind (`apply_laid`).
-/

set_option linter.unusedSectionVars false

namespace CloudI.Queue

variable {Id R ι : Type} (encode : Encode R)

def usedBlock (chunk : Chunk R) : FileBlock := ⟨chunk.position, chunkBytes chunk.size (encode chunk.request)⟩

def freeBlock (e : Extent) : FileBlock := ⟨e.position, be 8 e.size ++ be 8 0 ++ zeros e.size⟩

/-- The blocks of the file: the chunks of the owners, and the free chunks. -/
def blocks (used : ι → Option (Chunk R)) (free : List Extent) : ι ⊕ Extent → Option FileBlock
  | .inl k => (used k).map (usedBlock encode)
  | .inr e => if e ∈ free then some (freeBlock e) else none

/-- The chunks of the owners and the free chunks tile the file. A free chunk had a request. -/
structure Layout (used : ι → Option (Chunk R)) (s : State Id R) : Prop where
  tiled : BlockFile s.file s.position (blocks encode used s.chunksFree)
  sized : ∀ {k c}, used k = some c → (encode c.request).length ≤ c.size
  sorted : Sorted s.chunksFree
  freed : ∀ {e}, e ∈ s.chunksFree → ∃ r, (encode r).length ≤ e.size

variable {encode} {used : ι → Option (Chunk R)} {free rest : List Extent} {s : State Id R} {c c' : Chunk R} {e : Extent}
  {k k' : ι} {r : R}

@[simp] theorem length_zeros (n : Nat) : (zeros n).length = n := List.length_replicate

theorem length_chunkBytes {size : Nat} {data : List UInt8} (h : data.length ≤ size) :
    (chunkBytes size data).length = chunkOverhead + size := by
  simp only [chunkBytes, List.length_append, length_be, length_zeros, chunkOverhead]
  omega

theorem length_usedBlock (h : (encode c.request).length ≤ c.size) :
    (usedBlock encode c).bytes.length = chunkOverhead + c.size := length_chunkBytes h

theorem length_freeBlock (e : Extent) : (freeBlock e).bytes.length = chunkOverhead + e.size := by
  simp only [freeBlock, List.length_append, length_be, length_zeros, chunkOverhead]

theorem zeros_overhead (n : Nat) : be 8 0 ++ be 8 0 ++ zeros n = zeros (chunkOverhead + n) := by
  rw [zeros, zeros, List.replicate_add]
  rfl

/-! ## Free chunks -/

theorem chunkFreeCheck_eq_some {cs l : List Extent} {n : Nat} (h : chunkFreeCheck cs l n = some (e, rest)) :
    ∃ xs ys, cs = xs ++ e :: ys ∧ rest = l.reverse ++ xs ++ ys ∧ n ≤ e.size := by
  induction cs generalizing l with
  | nil => cases h
  | cons c cs ih =>
    rw [chunkFreeCheck] at h
    split at h
    · rename_i hsize
      obtain ⟨rfl, rfl⟩ := Prod.mk.inj (Option.some.inj h)
      exact ⟨[], cs, rfl, by rw [List.append_nil], hsize⟩
    · obtain ⟨xs, ys, rfl, rfl, hsize⟩ := ih h
      exact ⟨c :: xs, ys, rfl, by simp, hsize⟩

/-- The chunk that is found is no longer free. -/
theorem chunkFreeCheck_spec {n : Nat} (hs : Sorted free) (h : chunkFreeCheck free [] n = some (e, rest)) :
    e ∈ free ∧ n ≤ e.size ∧ Sorted rest ∧ ∀ e', e' ∈ rest ↔ e' ≠ e ∧ e' ∈ free := by
  obtain ⟨xs, ys, rfl, rfl, hsize⟩ := chunkFreeCheck_eq_some h
  refine ⟨by simp, hsize, hs.sublist ?_, fun e' => ?_⟩
  · exact List.Sublist.append_left (List.sublist_cons_self e ys) xs
  · have hnodup := List.nodup_append.mp hs.nodup
    have hne : ∀ a ∈ xs, a ≠ e := fun a ha => hnodup.2.2 a ha e List.mem_cons_self
    have hne' : e ∉ ys := (List.nodup_cons.mp hnodup.2.1).1
    simp only [List.reverse_nil, List.nil_append, List.mem_append, List.mem_cons]
    constructor
    · rintro (h' | h')
      · exact ⟨hne e' h', .inl h'⟩
      · exact ⟨fun heq => hne' (heq ▸ h'), .inr (.inr h')⟩
    · rintro ⟨hnot, h' | h' | h'⟩
      · exact .inl h'
      · exact absurd h' hnot
      · exact .inr h'

/-! ## The blocks after an operation -/

theorem blocks_used (hk : used k = some c) :
    blocks encode used free (.inl k) = some (usedBlock encode c) := by
  show (used k).map (usedBlock encode) = _
  rw [hk, Option.map_some]

theorem blocks_unused (hk : used k = none) : blocks encode used free (.inl k) = none := by
  show (used k).map (usedBlock encode) = _
  rw [hk, Option.map_none]

theorem blocks_free (used : ι → Option (Chunk R)) (h : e ∈ free) :
    blocks encode used free (.inr e) = some (freeBlock e) := if_pos h

theorem mem_of_blocks {b : FileBlock} (h : blocks encode used free (.inr e) = some b) : e ∈ free := by
  by_contra hnot
  rw [blocks, if_neg hnot] at h
  cases h

variable [DecidableEq ι]

theorem blocks_store (used : ι → Option (Chunk R)) (free : List Extent) (k : ι) (c : Chunk R) :
    blocks encode (Function.update used k (some c)) free =
      Function.update (blocks encode used free) (.inl k) (some (usedBlock encode c)) := by
  funext o
  rcases o with j | e
  · rcases eq_or_ne j k with rfl | hj
    · simp only [blocks, Function.update_self, Option.map_some]
    · simp only [blocks, ne_eq, Sum.inl.injEq, hj, not_false_eq_true, Function.update_of_ne]
  · simp only [blocks, ne_eq, reduceCtorEq, not_false_eq_true, Function.update_of_ne]

theorem blocks_erase (used : ι → Option (Chunk R)) (free : List Extent) (k : ι) :
    blocks encode (Function.update used k none) free = Function.update (blocks encode used free) (.inl k) none := by
  funext o
  rcases o with j | e
  · rcases eq_or_ne j k with rfl | hj
    · simp only [blocks, Function.update_self, Option.map_none]
    · simp only [blocks, ne_eq, Sum.inl.injEq, hj, not_false_eq_true, Function.update_of_ne]
  · simp only [blocks, ne_eq, reduceCtorEq, not_false_eq_true, Function.update_of_ne]

theorem blocks_take (used : ι → Option (Chunk R)) (hrest : ∀ e', e' ∈ rest ↔ e' ≠ e ∧ e' ∈ free) :
    blocks encode used rest = Function.update (blocks encode used free) (.inr e) none := by
  funext o
  rcases o with j | e'
  · simp only [blocks, ne_eq, reduceCtorEq, not_false_eq_true, Function.update_of_ne]
  · rcases eq_or_ne e' e with rfl | he
    · rw [Function.update_self]
      exact if_neg fun hm => ((hrest _).mp hm).1 rfl
    · simp only [blocks, ne_eq, Sum.inr.injEq, he, not_false_eq_true, Function.update_of_ne, hrest, true_and]

theorem blocks_release (used : ι → Option (Chunk R)) (free : List Extent) (e : Extent) :
    blocks encode used (umerge free [e]) =
      Function.update (blocks encode used free) (.inr e) (some (freeBlock e)) := by
  funext o
  rcases o with j | e'
  · simp only [blocks, ne_eq, reduceCtorEq, not_false_eq_true, Function.update_of_ne]
  · rcases eq_or_ne e' e with rfl | he
    · rw [Function.update_self]
      exact if_pos (mem_umerge.mpr (.inr (List.mem_singleton_self _)))
    · simp only [blocks, ne_eq, Sum.inr.injEq, he, not_false_eq_true, Function.update_of_ne, mem_umerge,
        List.mem_singleton, or_false]

/-! ## The functions of the log keep the layout -/

theorem Layout.sized_store (h : Layout encode used s) (hc : (encode c.request).length ≤ c.size) {j : ι} {d : Chunk R}
    (hd : Function.update used k (some c) j = some d) : (encode d.request).length ≤ d.size := by
  rcases eq_or_ne j k with rfl | hj
  · rw [Function.update_self] at hd
    exact Option.some.inj hd ▸ hc
  · rw [Function.update_of_ne hj] at hd
    exact h.sized hd

theorem Layout.sized_erase (h : Layout encode used s) {j : ι} {d : Chunk R}
    (hd : Function.update used k none j = some d) : (encode d.request).length ≤ d.size := by
  rcases eq_or_ne j k with rfl | hj
  · rw [Function.update_self] at hd
    cases hd
  · rw [Function.update_of_ne hj] at hd
    exact h.sized hd

theorem Layout.storeStart (h : Layout encode used s) (hk : used k = none) :
    Layout encode (Function.update used k (some (storeStart encode r s).1)) (storeStart encode r s).2 := by
  rw [Queue.storeStart]
  split
  · -- the chunk goes to the end of the file
    have hlen := length_chunkBytes (Nat.le_refl (encode r).length)
    have happend := h.tiled.append (blocks_unused hk) (l := chunkBytes (encode r).length (encode r))
      (by rw [hlen, chunkOverhead]; omega)
    rw [hlen, ← Nat.add_assoc] at happend
    refine ⟨?_, h.sized_store (Nat.le_refl _), h.sorted, h.freed⟩
    rw [blocks_store]
    exact happend
  · -- a free chunk is written again, and gets the owner
    rename_i e rest hcheck
    obtain ⟨hmem, hsize, hsorted, hrest⟩ := chunkFreeCheck_spec h.sorted hcheck
    have hlen := (length_chunkBytes hsize).trans (length_freeBlock e).symm
    have hwrite := h.tiled.rewrite (blocks_free used hmem) hlen
    have hrename := hwrite.rename (.inl k) (Function.update_self _ _ _)
      (.inr (by rw [Function.update_of_ne Sum.inl_ne_inr, blocks_unused hk]))
    rw [Function.update_idem] at hrename
    refine ⟨?_, h.sized_store hsize, hsorted, fun he => h.freed ((hrest _).mp he).2⟩
    rw [blocks_store, blocks_take used hrest]
    exact hrename

theorem Layout.eraseChunk (h : Layout encode used s) (hk : used k = some c) :
    Layout encode (Function.update used k none) (eraseChunk c s) := by
  have hblock : blocks encode used s.chunksFree (.inl k) = some (usedBlock encode c) := blocks_used hk
  have hlen := length_usedBlock (h.sized hk)
  rw [Queue.eraseChunk]
  split
  · rename_i hlast
    refine ⟨?_, h.sized_erase, h.sorted, h.freed⟩
    have hstop : (usedBlock encode c).stop = s.position := by
      rw [FileBlock.stop, hlen, ← Nat.add_assoc]
      exact hlast
    have hdrop := h.tiled.dropLast hblock hstop
    rw [hlen] at hdrop
    rw [chunkEraseLast, zeros_overhead, blocks_erase]
    exact hdrop
  · refine ⟨?_, h.sized_erase, umerge_sorted h.sorted (sorted_singleton _), fun he => ?_⟩
    rotate_left
    · rcases mem_umerge.mp he with he | he
      · exact h.freed he
      · exact ⟨c.request, List.mem_singleton.mp he ▸ h.sized hk⟩
    -- no free chunk is in the place of this one
    have hnot : c.toExtent ∉ s.chunksFree := fun hmem => by
      have hlen' := length_freeBlock c.toExtent
      have hsame := h.tiled.disjoint (i := c.position) hblock
        (blocks_free used hmem) ⟨Nat.le_refl _, ?_⟩ ⟨Nat.le_refl _, ?_⟩
      · cases hsame
      · rw [FileBlock.stop, hlen, chunkOverhead]
        exact Nat.lt_add_of_pos_right (by omega)
      · rw [FileBlock.stop, hlen', chunkOverhead]
        exact Nat.lt_add_of_pos_right (by omega)
    have hwrite := h.tiled.rewrite (l := (freeBlock c.toExtent).bytes) hblock ((length_freeBlock _).trans hlen.symm)
    have hrename := hwrite.rename (.inr c.toExtent) (Function.update_self _ _ _)
      (.inr (by rw [Function.update_of_ne Sum.inr_ne_inl]; exact if_neg hnot))
    rw [Function.update_idem] at hrename
    rw [blocks_release, blocks_erase]
    exact hrename

theorem Layout.rename (h : Layout encode used s) (k' : ι) (c' : Chunk R) (hk : used k = some c)
    (hk' : k' = k ∨ used k' = none) (hextent : c'.toExtent = c.toExtent) (hrequest : c'.request = c.request) :
    Layout encode (Function.update (Function.update used k none) k' (some c')) s := by
  have hsame : usedBlock encode c' = usedBlock encode c := by rw [usedBlock, usedBlock, hextent, hrequest]
  have hrename := h.tiled.rename (.inl k') (blocks_used hk) (hk'.imp (congrArg Sum.inl) blocks_unused)
  have hsized : (encode c'.request).length ≤ c'.size := by
    rw [hrequest, hextent]
    exact h.sized hk
  refine ⟨?_, fun {j d} hd => ?_, h.sorted, h.freed⟩
  · rw [blocks_store, blocks_erase, hsame]
    exact hrename
  · rcases eq_or_ne j k' with rfl | hj
    · rw [Function.update_self] at hd
      exact Option.some.inj hd ▸ hsized
    · rw [Function.update_of_ne hj] at hd
      exact h.sized_erase hd

/-! ## The operations of the log -/

/-- The owners of the chunks: the ids, and `none` for the chunk that an operation has in hand. -/
def owners (held : Option (Chunk R)) (chunks : Dict Id (Chunk R)) : Option Id → Option (Chunk R) :=
  fun o => o.elim held chunks

variable [DecidableEq Id] {chunks : Dict Id (Chunk R)} {m : Stored Id R} {s' : State Id R} {id id' : Id}

theorem owners_hold (held held' : Option (Chunk R)) (chunks : Dict Id (Chunk R)) :
    Function.update (owners held chunks) none held' = owners held' chunks := by
  funext o
  cases o with
  | none => rw [Function.update_self]; rfl
  | some k => rw [Function.update_of_ne (Option.some_ne_none k)]; rfl

theorem owners_update (held : Option (Chunk R)) (chunks : Dict Id (Chunk R)) (id : Id) (x : Option (Chunk R)) :
    Function.update (owners held chunks) (some id) x = owners held (Function.update chunks id x) := by
  funext o
  cases o with
  | none => rw [Function.update_of_ne (Option.some_ne_none id).symm]; rfl
  | some k =>
    rcases eq_or_ne k id with rfl | hk
    · rw [Function.update_self]
      exact (Function.update_self k x chunks).symm
    · rw [Function.update_of_ne (fun h => hk (Option.some.inj h))]
      exact (Function.update_of_ne hk x chunks).symm

/-- The chunks of the ids have the layout of the file, and hold the requests that are stored. -/
structure Tracks (encode : Encode R) (s : State Id R) (m : Stored Id R) : Prop where
  layout : Layout encode (owners none s.chunks) s
  stored : ∀ k, (s.chunks k).map (fun c => (c.request, c.retries)) = m k

theorem storeStart_chunks (r : R) (s : State Id R) : (storeStart encode r s).2.chunks = s.chunks := by
  rw [storeStart]
  split <;> rfl

theorem storeStart_request (encode : Encode R) (r : R) (s : State Id R) :
    (storeStart encode r s).1.request = r ∧ (storeStart encode r s).1.retries = 0 := by
  rw [storeStart]
  split <;> exact ⟨rfl, rfl⟩

theorem eraseChunk_chunks (c : Chunk R) (s : State Id R) : (eraseChunk c s).chunks = s.chunks := by
  rw [eraseChunk]
  split <;> rfl

/-- An update writes the new chunk as a request that is stored, and then erases the chunk. -/
theorem update_eq {updateF : UpdateF Id R} {r' : R} (hc : s.chunks id = some c)
    (hF : updateF c.request = some (id', r')) :
    update encode id updateF s = .ok (some r', eraseChunk c
      { (storeStart encode r' s).2 with chunks := s.chunks.store id' (storeStart encode r' s).1 }) := by
  rw [update, bind_ok (Dict.fetch_eq_ok.mpr hc)]
  simp only [hF]
  refine congrArg (fun x => Except.ok (some r', eraseChunk c x)) ?_
  rw [storeStart]
  cases chunkFreeCheck s.chunksFree [] (encode r').length <;> rfl

theorem Tracks.find (h : Tracks encode s m) (hc : s.chunks id = some c) : m id = some (c.request, c.retries) := by
  rw [← h.stored id, hc, Option.map_some]

theorem Tracks.find_none (h : Tracks encode s m) (hm : m id = none) : s.chunks id = none :=
  Option.map_eq_none_iff.mp ((h.stored id).trans hm)

theorem map_store {chunks : Dict Id (Chunk R)} {m : Stored Id R}
    (h : ∀ k, (chunks k).map (fun c => (c.request, c.retries)) = m k) (id : Id) (x : Option (Chunk R)) (k : Id) :
    (Function.update chunks id x k).map (fun c => (c.request, c.retries)) =
      Function.update m id (x.map fun c => (c.request, c.retries)) k := by
  rcases eq_or_ne k id with rfl | hk
  · rw [Function.update_self, Function.update_self]
  · rw [Function.update_of_ne hk, Function.update_of_ne hk, h k]

/-- A chunk that is erased from the log is no longer among the ids. -/
theorem Tracks.erase (h : Tracks encode s m) (hc : s.chunks id = some c) :
    Tracks encode { eraseChunk c s with chunks := s.chunks.erase id } (m.erase id) := by
  have hl := h.layout.eraseChunk (k := some id) hc
  rw [owners_update] at hl
  exact ⟨⟨hl.tiled, hl.sized, hl.sorted, hl.freed⟩, map_store h.stored id none⟩

theorem Tracks.store (h : Tracks encode s m) (hid : m id = none) (r : R) :
    Tracks encode (storeEnd id (storeStart encode r s).1 (storeStart encode r s).2) (m.store id (r, 0)) := by
  have hl := h.layout.storeStart (k := some id) (r := r) (h.find_none hid)
  have hr := storeStart_request encode r s
  rw [owners_update] at hl
  refine ⟨?_, fun k => ?_⟩
  · rw [storeEnd, storeStart_chunks]
    exact ⟨hl.tiled, hl.sized, hl.sorted, hl.freed⟩
  · show (((storeStart encode r s).2.chunks.store id _) k).map _ = _
    rw [storeStart_chunks, Dict.store, map_store h.stored, Option.map_some, hr.1, hr.2]
    rfl

theorem Tracks.storeFail (h : Tracks encode s m) (r : R) :
    Tracks encode (storeFail (storeStart encode r s).1 (storeStart encode r s).2) m := by
  have hl := (h.layout.storeStart (k := none) (r := r) rfl).eraseChunk (Function.update_self _ _ _)
  rw [Function.update_idem, owners_hold] at hl
  refine ⟨?_, fun k => ?_⟩
  · rw [Queue.storeFail, eraseChunk_chunks, storeStart_chunks]
    exact ⟨hl.tiled, hl.sized, hl.sorted, hl.freed⟩
  · rw [Queue.storeFail, eraseChunk_chunks, storeStart_chunks]
    exact h.stored k

theorem Tracks.retry (h : Tracks encode s m) (hc : s.chunks id = some c) (hid : id' = id ∨ m id' = none) :
    Tracks encode { s with chunks := (s.chunks.erase id).store id' { c with retries := c.retries + 1 } }
      ((m.erase id).store id' (c.request, c.retries + 1)) := by
  have hl := h.layout.rename (some id') { c with retries := c.retries + 1 }
    (show owners none s.chunks (some id) = _ from hc) (hid.imp (congrArg some) h.find_none) rfl rfl
  rw [owners_update, owners_update] at hl
  exact ⟨⟨hl.tiled, hl.sized, hl.sorted, hl.freed⟩, map_store (map_store h.stored id none) id' _⟩

/-- The chunk of an update that keeps the id takes the place of the one before. -/
theorem Tracks.update (h : Tracks encode s m) (hc : s.chunks id = some c) (r' : R) :
    Tracks encode (eraseChunk c
        { (storeStart encode r' s).2 with chunks := s.chunks.store id (storeStart encode r' s).1 })
      ((m.erase id).store id (r', 0)) := by
  have hheld := h.layout.storeStart (k := none) (r := r') rfl
  have herased := hheld.eraseChunk (k := some id) (c := c)
    (by rw [Function.update_of_ne (Option.some_ne_none id)]; exact hc)
  have hl := herased.rename (k := none) (some id) (storeStart encode r' s).1
    (by rw [Function.update_of_ne (Option.some_ne_none id).symm, Function.update_self])
    (.inr (Function.update_self _ _ _)) rfl rfl
  have hr := storeStart_request encode r' s
  rw [owners_hold, owners_update, owners_hold, owners_update, Function.update_idem] at hl
  have hlayout : Layout encode (owners none (s.chunks.store id (storeStart encode r' s).1))
      (eraseChunk c (storeStart encode r' s).2) := hl
  -- erasing the chunk reads no chunk of the ids
  have hsame : eraseChunk c { (storeStart encode r' s).2 with chunks := s.chunks.store id (storeStart encode r' s).1 } =
      { eraseChunk c (storeStart encode r' s).2 with chunks := s.chunks.store id (storeStart encode r' s).1 } := by
    rw [eraseChunk, eraseChunk]
    split <;> rfl
  rw [hsame]
  refine ⟨⟨hlayout.tiled, hlayout.sized, hlayout.sorted, hlayout.freed⟩, fun k => ?_⟩
  show ((s.chunks.store id _) k).map _ = ((m.erase id).store id (r', 0)) k
  rw [Dict.store, map_store h.stored, Option.map_some, hr.1, hr.2, Dict.store, Dict.erase, Function.update_idem]

/-- Each operation of the log keeps the layout, unless it is an update that leaves its id behind. -/
theorem Tracks.apply (h : Tracks encode s m) {op : Op Id R} (hd : op.Distinct m) (hk : op.KeepsId m)
    (ha : op.apply encode s = .ok s') : Tracks encode s' (op.expected m) := by
  cases op with
  | store r id =>
    cases ha
    exact h.store hd r
  | storeFail r =>
    cases ha
    exact h.storeFail r
  | erase id =>
    obtain ⟨erased, hs, ha⟩ := bind_eq_ok ha
    obtain ⟨c, hc, hs⟩ := bind_eq_ok hs
    cases hs
    cases ha
    exact h.erase (Dict.fetch_eq_ok.mp hc)
  | eraseRetry id retryMax retryF =>
    obtain ⟨c, hfetch, ha⟩ := bind_eq_ok ha
    have hc := Dict.fetch_eq_ok.mp hfetch
    have hm := h.find hc
    cases hF : retryF c.request (decide (c.retries < retryMax)) with
    | none =>
      simp only [hF] at ha
      cases ha
      simp only [Op.expected, hm, hF]
      exact h.erase hc
    | some id' =>
      simp only [hF] at ha
      cases ha
      simp only [Op.expected, hm, hF]
      exact h.retry hc (hd _ _ _ hm hF).symm
  | update id updateF =>
    obtain ⟨updated, hs, ha⟩ := bind_eq_ok ha
    cases ha
    obtain ⟨c, hfetch, hs'⟩ := bind_eq_ok hs
    have hc := Dict.fetch_eq_ok.mp hfetch
    have hm := h.find hc
    cases hF : updateF c.request with
    | none =>
      simp only [hF] at hs'
      obtain ⟨erased, he, hs'⟩ := bind_eq_ok hs'
      obtain ⟨c', hfetch', he⟩ := bind_eq_ok he
      obtain rfl := Except.ok.inj (hfetch.symm.trans hfetch')
      cases he
      cases hs'
      simp only [Op.expected, hm, hF]
      exact h.erase hc
    | some next =>
      obtain ⟨id', r'⟩ := next
      obtain rfl := hk _ _ _ _ hm hF
      rw [update_eq hc hF] at hs
      cases hs
      simp only [Op.expected, hm, hF]
      exact h.update hc r'

/-! ## Runs of the log -/

/-- The states of a log, with the requests that are stored in it, when each operation meets the condition. -/
inductive Reachable (encode : Encode R) (ok : Stored Id R → Op Id R → Prop) : State Id R → Stored Id R → Prop where
  | empty : Reachable encode ok State.empty Dict.new
  | step {s s' : State Id R} {m : Stored Id R} (op : Op Id R) : Reachable encode ok s m → op.Distinct m → ok m op →
      op.apply encode s = .ok s' → Reachable encode ok s' (op.expected m)

theorem tracks_empty : Tracks encode (State.empty : State Id R) Dict.new where
  layout := by
    refine ⟨?_, fun {k c} hk => ?_, sorted_nil, fun he => absurd he (List.not_mem_nil)⟩
    · have hnone : blocks encode (owners none (State.empty : State Id R).chunks) [] = fun _ => none := by
        funext o
        rcases o with (_ | k) | e <;> rfl
      show BlockFile [] 0 (blocks encode (owners none (State.empty : State Id R).chunks) [])
      rw [hnone]
      exact BlockFile.empty
    · cases k <;> cases hk
  stored _ := rfl

theorem Reachable.tracks (h : Reachable encode (fun m op => Op.KeepsId m op) s m) : Tracks encode s m := by
  induction h with
  | empty => exact tracks_empty
  | step op _ hd hk ha ih => exact ih.apply hd hk ha

/-- The position of the file is in the chunk. -/
def Extent.Has (e : Extent) (i : Nat) : Prop := e.position ≤ i ∧ i < e.position + chunkOverhead + e.size

/-- The chunks of the ids and the free chunks tile the file, and each request that is stored is in its chunk. -/
structure WellLaid (encode : Encode R) (s : State Id R) (m : Stored Id R) : Prop where
  tiles : ∀ i, i < s.position ↔
    (∃ k c, s.chunks k = some c ∧ c.toExtent.Has i) ∨ ∃ e, e ∈ s.chunksFree ∧ e.Has i
  disjoint_used : ∀ k k' c c' i, s.chunks k = some c → s.chunks k' = some c' →
    c.toExtent.Has i → c'.toExtent.Has i → k = k'
  disjoint_free : ∀ e e' i, e ∈ s.chunksFree → e' ∈ s.chunksFree → e.Has i → e'.Has i → e = e'
  disjoint : ∀ k c e i, s.chunks k = some c → e ∈ s.chunksFree → ¬ (c.toExtent.Has i ∧ e.Has i)
  stored : ∀ k, (s.chunks k).map (fun c => (c.request, c.retries)) = m k
  encoded : ∀ k c, s.chunks k = some c →
    (encode c.request).length ≤ c.size ∧ Holds s.file c.position (chunkBytes c.size (encode c.request))
  sorted : Sorted s.chunksFree

theorem Layout.has_used {chunks : Dict Id (Chunk R)} (h : Layout encode (owners none chunks) s)
    (hc : chunks id = some c) {i : Nat} : (usedBlock encode c).Has i ↔ c.toExtent.Has i := by
  have hlen := length_usedBlock (h.sized (k := some id) hc)
  rw [FileBlock.Has, FileBlock.stop, hlen, ← Nat.add_assoc]
  exact Iff.rfl

theorem has_free {i : Nat} : (freeBlock e).Has i ↔ e.Has i := by
  rw [FileBlock.Has, FileBlock.stop, length_freeBlock, ← Nat.add_assoc]
  exact Iff.rfl

theorem Tracks.wellLaid (h : Tracks encode s m) : WellLaid encode s m := by
  have hl := h.layout
  have hused : ∀ {k c}, s.chunks k = some c →
      blocks encode (owners none s.chunks) s.chunksFree (.inl (some k)) = some (usedBlock encode c) :=
    fun {k c} hc => blocks_used (show owners none s.chunks (some k) = some c from hc)
  refine ⟨fun i => ⟨fun hi => ?_, ?_⟩, fun k k' c c' i hc hc' hi hi' => ?_, fun e e' i he he' hi hi' => ?_,
    fun k c e i hc he hi => ?_, h.stored,
    fun k c hc => ⟨hl.sized (k := some k) hc, hl.tiled.holds (hused hc)⟩, hl.sorted⟩
  · obtain ⟨o, b, hb, hi⟩ := (hl.tiled.cover i).mp hi
    rcases o with (_ | k) | e
    · cases hb
    · obtain ⟨c, hc, rfl⟩ := Option.map_eq_some_iff.mp hb
      exact .inl ⟨k, c, hc, (hl.has_used hc).mp hi⟩
    · by_cases he : e ∈ s.chunksFree
      · obtain rfl := Option.some.inj ((blocks_free _ he).symm.trans hb)
        exact .inr ⟨e, he, has_free.mp hi⟩
      · rw [blocks, if_neg he] at hb
        cases hb
  · rintro (⟨k, c, hc, hi⟩ | ⟨e, he, hi⟩)
    · exact (hl.tiled.cover i).mpr ⟨_, _, hused hc, (hl.has_used hc).mpr hi⟩
    · exact (hl.tiled.cover i).mpr ⟨_, _, blocks_free _ he, has_free.mpr hi⟩
  · have hsame := hl.tiled.disjoint (hused hc) (hused hc') ((hl.has_used hc).mpr hi) ((hl.has_used hc').mpr hi')
    exact Option.some.inj (Sum.inl.inj hsame)
  · exact Sum.inr.inj (hl.tiled.disjoint (blocks_free _ he) (blocks_free _ he') (has_free.mpr hi) (has_free.mpr hi'))
  · cases hl.tiled.disjoint (hused hc) (blocks_free _ he) ((hl.has_used hc).mpr hi.1) (has_free.mpr hi.2)

/-- An update that does not keep its id leaves it to the chunk that was erased. -/
theorem Tracks.not_stored (h : Tracks encode s m) {updateF : UpdateF Id R} {r r' : R} {retries : Nat}
    (hm : m id = some (r, retries)) (hF : updateF r = some (id', r')) (hid : id' ≠ id)
    (ha : (Op.update id updateF).apply encode s = .ok s') :
    ¬ WellLaid encode s' ((Op.update id updateF).expected m) := by
  intro hw
  obtain ⟨c, hc, hr⟩ := Option.map_eq_some_iff.mp ((h.stored id).trans hm)
  obtain ⟨rfl, rfl⟩ := Prod.mk.inj hr
  obtain ⟨updated, hs, ha⟩ := bind_eq_ok ha
  cases ha
  rw [update_eq hc hF] at hs
  cases hs
  have hstale := hw.stored id
  simp only [Op.expected, hm, hF, eraseChunk_chunks, Dict.store, Dict.erase, Function.update_of_ne hid.symm,
    Function.update_self, hc, Option.map_some, reduceCtorEq] at hstale

/-- In a run whose updates keep their ids, the chunks tile the file and hold the requests that are stored. One more
operation keeps that unless it is an update that does not keep its id. -/
theorem reachable_wellLaid {Id R : Type} [DecidableEq Id] {encode : Encode R} {s : State Id R} {m : Stored Id R}
    (h : Reachable encode (fun m op => Op.KeepsId m op) s m) :
    WellLaid encode s m ∧ ∀ (op : Op Id R) (s' : State Id R), op.Distinct m → op.apply encode s = .ok s' →
      (WellLaid encode s' (op.expected m) ↔ op.KeepsId m) := by
  refine ⟨h.tracks.wellLaid, fun op s' hd ha => ⟨fun hw => ?_, fun hk => (h.tracks.apply hd hk ha).wellLaid⟩⟩
  cases op with
  | update id updateF =>
    intro r retries id' r' hm hF
    by_contra hid
    exact h.tracks.not_stored hm hF hid ha hw
  | store r id => trivial
  | storeFail r => trivial
  | erase id => trivial
  | eraseRetry id retryMax retryF => trivial

/-- A request that is stored, and then updated under its id. -/
theorem reachable_wellLaid_updated : ∃ (s : State Nat (List UInt8)) (m : Stored Nat (List UInt8)),
    Reachable (fun r => r) (fun m op => Op.KeepsId m op) s m ∧ m 0 = some ([2, 3], 0) ∧ WellLaid (fun r => r) s m := by
  have hstore : Reachable (fun r => r) (fun m op => Op.KeepsId m op) _ _ :=
    Reachable.empty.step (Op.store [1] (0 : Nat)) rfl trivial rfl
  have hupdate := hstore.step (Op.update 0 fun _ => some (0, [2, 3]))
    (fun _ _ _ _ _ hF => .inr (Prod.mk.inj (Option.some.inj hF)).1.symm)
    (fun _ _ _ _ _ hF => (Prod.mk.inj (Option.some.inj hF)).1.symm) rfl
  exact ⟨_, _, hupdate, rfl, (reachable_wellLaid hupdate).1⟩

/-- The chunk of a request is still under its id after an update that has another one. -/
theorem reachable_stale : ∃ (s : State Nat (List UInt8)) (m : Stored Nat (List UInt8)),
    Reachable (fun r => r) (fun _ _ => True) s m ∧ ¬ WellLaid (fun r => r) s m := by
  have hstore : Reachable (fun r => r) (fun _ _ => True) _ _ :=
    Reachable.empty.step (Op.store [1] (0 : Nat)) rfl trivial rfl
  have hupdate := hstore.step (Op.update 0 fun _ => some (1, [2, 3]))
    (fun _ _ _ _ _ hF => .inl ((Prod.mk.inj (Option.some.inj hF)).1 ▸ rfl)) trivial rfl
  refine ⟨_, _, hupdate, fun hw => ?_⟩
  have hstale : some (([1] : List UInt8), 0) = none := hw.stored 0
  cases hstale

end CloudI.Queue
