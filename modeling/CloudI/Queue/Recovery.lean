import CloudI.Queue.Layout

/-!
# Recovery of the write-ahead log

A log that is opened on a file reads the chunks in it and retries their requests (`new`). The chunks of a log
that was in use are recovered (`new_recovers`) when the file has nothing or at least a size after the last
chunk, and no retry times out for a request that is smaller than its chunk: the function that frees such a
chunk does not read to its end.
-/

set_option linter.unusedSectionVars false

namespace CloudI.Queue

variable {Id R : Type} [DecidableEq Id]

/-- The arguments of `chunks_recover`, with what is in the file, where it is read, and the requests retried so far. -/
structure Recover (Id R : Type) where
  file : List UInt8
  cursor : Nat
  position : Nat
  chunks : Dict Id (Chunk R)
  chunksFree : List Extent
  retried : List R

/-- `file:read/2`, which is `eof` at the end of the file. -/
def read (file : List UInt8) (cursor n : Nat) : Option (List UInt8) :=
  if file.length ≤ cursor then none else some ((file.drop cursor).take n)

/-- `binary_to_term`, which raises `badarg`. -/
abbrev Decode (R : Type) := List UInt8 → Option R

variable (decode : Decode R)

/-- The retry function at each of its calls. -/
abbrev Retries (Id R : Type) := Nat → RetryF Id R

variable (retryF : Retries Id R)

def chunkRecoverFree (position chunkSize : Nat) (r : Recover Id R) : Recover Id R :=
  { r with
    position := position + chunkOverhead + chunkSize
    chunksFree := umerge r.chunksFree [⟨chunkSize, position⟩] }

def chunkRecoverUsed (position chunkSize chunkSizeUsed : Nat) (r : Recover Id R) : Except Exn (Recover Id R) :=
  match read r.file r.cursor chunkSizeUsed with
  | none => .error .caseClause
  | some chunkData =>
    match decode chunkData with
    | none => .error .badarg
    | some chunkRequest =>
      let chunk : Chunk R := ⟨⟨chunkSize, position⟩, chunkRequest, 0⟩
      let cursor := r.cursor + chunkData.length
      let retried := r.retried ++ [chunkRequest]
      match retryF r.retried.length chunkRequest true with
      | none => .ok (chunkRecoverFree position chunkSize
          { r with file := chunkFree chunkSize position r.file, cursor, retried })
      | some chunkId =>
        if chunkSize = chunkSizeUsed then
          .ok { r with
            cursor
            position := position + chunkOverhead + chunkSize
            chunks := r.chunks.store chunkId chunk
            retried }
        else
          let chunkEnd := chunkSize - chunkSizeUsed
          .ok { r with
            cursor := cursor + chunkEnd
            position := cursor + chunkEnd
            chunks := r.chunks.store chunkId chunk
            retried }

/-- An error that is returned does not match in `new`. -/
def chunkRecover (position chunkSize : Nat) (r : Recover Id R) : Except Exn (Recover Id R) :=
  match read r.file r.cursor 8 with
  | none => .error .badmatch
  | some b =>
    if b.length ≠ 8 then .error .caseClause
    else if ofBe b = 0 then
      .ok (chunkRecoverFree position chunkSize { r with cursor := r.cursor + 8 + chunkSize })
    else if chunkSize ≥ ofBe b then
      chunkRecoverUsed decode retryF position chunkSize (ofBe b) { r with cursor := r.cursor + 8 }
    else .error .badmatch

/-- Read chunks up to the end of the file or a size of zero, `none` when that takes more than `fuel` chunks. -/
def chunksRecover : Nat → Recover Id R → Option (Except Exn (Recover Id R))
  | 0, _ => none
  | fuel + 1, r =>
    match read r.file r.cursor 8 with
    | none => some (.ok r)
    | some b =>
      if b.length ≠ 8 then some (.error .caseClause)
      else if ofBe b = 0 then some (.ok r)
      else
        match chunkRecover decode retryF r.position (ofBe b) { r with cursor := r.cursor + 8 } with
        | .error e => some (.error e)
        | .ok r' => chunksRecover fuel r'

/-- The log on the file, and the requests that were retried in order. -/
def new (fuel : Nat) (file : List UInt8) : Option (Except Exn (State Id R × List R)) :=
  (chunksRecover decode retryF fuel ⟨file, 0, 0, Dict.new, [], []⟩).map fun recovered =>
    recovered.map fun r => (⟨r.file, r.position, r.chunks, r.chunksFree⟩, r.retried)

/-! ## Reading a chunk -/

variable {decode} {retryF} {encode : Encode R} {file l rest data : List UInt8} {cursor fuel : Nat} {r : Recover Id R}
  {c : Chunk R} {e : Extent} {s : State Id R} {m : Stored Id R}

theorem read_append (h : file.drop cursor = l ++ rest) (hl : 0 < l.length) : read file cursor l.length = some l := by
  have hlen := congrArg List.length h
  rw [List.length_drop, List.length_append] at hlen
  rw [read, if_neg (by omega), h, List.take_left]

theorem drop_advance (h : file.drop cursor = l ++ rest) : file.drop (cursor + l.length) = rest := by
  rw [← List.drop_drop, h, List.drop_left]

theorem read_size {n : Nat} (h : file.drop cursor = be 8 n ++ rest) : read file cursor 8 = some (be 8 n) := by
  have hread := read_append h (by rw [length_be]; decide)
  rwa [length_be] at hread

theorem drop_size {n : Nat} (h : file.drop cursor = be 8 n ++ rest) : file.drop (cursor + 8) = rest := by
  have hdrop := drop_advance h
  rwa [length_be] at hdrop

theorem chunksRecover_size {n : Nat} (h : r.file.drop r.cursor = be 8 n ++ rest) (hn : 0 < n) (hlt : n < 256 ^ 8) :
    chunksRecover decode retryF (fuel + 1) r =
      match chunkRecover decode retryF r.position n { r with cursor := r.cursor + 8 } with
      | .error e => some (.error e)
      | .ok r' => chunksRecover decode retryF fuel r' := by
  rw [chunksRecover, read_size h]
  simp only [length_be, ne_eq, not_true_eq_false, if_false, ofBe_be_of_lt hlt]
  rw [if_neg (by omega)]

/-- Reading goes over a free chunk. -/
theorem chunksRecover_free (h : r.file.drop r.cursor = (freeBlock e).bytes ++ rest) (hp : r.position = e.position)
    (hn : 0 < e.size) (hlt : e.size < 256 ^ 8) :
    chunksRecover decode retryF (fuel + 1) r = chunksRecover decode retryF fuel
      { r with
        cursor := r.cursor + chunkOverhead + e.size
        position := r.position + chunkOverhead + e.size
        chunksFree := umerge r.chunksFree [e] } := by
  rw [freeBlock, List.append_assoc, List.append_assoc] at h
  have hused : read r.file (r.cursor + 8) 8 = some (be 8 0) := read_size (drop_size h)
  rw [chunksRecover_size h hn hlt, chunkRecover]
  simp only [hused, length_be, ne_eq, not_true_eq_false, if_false, ofBe_be_of_lt (show 0 < 256 ^ 8 by decide), if_true]
  rw [chunkRecoverFree, hp]
  rfl

/-- What recovery does with a chunk, when it goes on after it. -/
def Recover.next (retryF : Retries Id R) (c : Chunk R) (r : Recover Id R) : Recover Id R :=
  let after := { r with
    cursor := r.cursor + chunkOverhead + c.size
    position := r.position + chunkOverhead + c.size
    retried := r.retried ++ [c.request] }
  match retryF r.retried.length c.request true with
  | none => { after with file := chunkFree c.size c.position r.file, chunksFree := umerge r.chunksFree [c.toExtent] }
  | some chunkId => { after with chunks := r.chunks.store chunkId { c with retries := 0 } }

/-- Reading goes over a chunk that has a request, unless it times out and does not fill the chunk. -/
theorem chunksRecover_used (h : r.file.drop r.cursor = (usedBlock encode c).bytes ++ rest)
    (hp : r.position = c.position) (hcur : r.cursor = r.position) (hdecode : decode (encode c.request) = some c.request)
    (hpos : 0 < (encode c.request).length) (hle : (encode c.request).length ≤ c.size) (hlt : c.size < 256 ^ 8)
    (hpad : retryF r.retried.length c.request true = none → c.size = (encode c.request).length) :
    chunksRecover decode retryF (fuel + 1) r = chunksRecover decode retryF fuel (r.next retryF c) := by
  rw [usedBlock, chunkBytes, List.append_assoc, List.append_assoc, List.append_assoc] at h
  have hused := read_size (drop_size h)
  have hdata := read_append (drop_size (drop_size h)) hpos
  have hstep : chunkRecoverUsed decode retryF r.position c.size (encode c.request).length
      { r with cursor := r.cursor + 8 + 8 } = .ok (r.next retryF c) := by
    rw [chunkRecoverUsed]
    simp only [hdata, hdecode]
    cases hF : retryF r.retried.length c.request true with
    | none =>
      have hsame : (⟨(encode c.request).length, c.position⟩ : Extent) = c.toExtent := by rw [← hpad hF]
      simp only [Recover.next, hF, chunkRecoverFree, hpad hF, hp, chunkOverhead, Nat.add_assoc, hsame]
    | some chunkId =>
      have hend : r.cursor + 8 + 8 + (encode c.request).length + (c.size - (encode c.request).length) =
        r.cursor + chunkOverhead + c.size := by rw [chunkOverhead]; omega
      simp only [Recover.next, hF, hend]
      split
      · rename_i hsame
        simp only [hp, ← hsame, chunkOverhead, Nat.add_assoc]
      · simp only [hcur, hp]
  rw [chunksRecover_size h (by omega) hlt, chunkRecover]
  simp only [hused, length_be, ne_eq, not_true_eq_false, if_false, ofBe_be_of_lt (Nat.lt_of_le_of_lt hle hlt)]
  rw [if_neg (by omega), if_pos hle, hstep]

/-! ## Reading the chunks in order -/

/-- The chunks among the blocks of the file, with their ids. -/
def chunksIn (s : State Id R) (L : List (Option Id ⊕ Extent)) : List (Id × Chunk R) :=
  L.filterMap fun
    | .inl (some k) => (s.chunks k).map (k, ·)
    | _ => none

/-- The chunks under the ids of their retries, from the call `n` of the retry function. -/
def kept (retryF : Retries Id R) : Nat → List (Id × Chunk R) → Dict Id (Chunk R) → Dict Id (Chunk R)
  | _, [], chunks => chunks
  | n, c :: l, chunks =>
    match retryF n c.2.request true with
    | none => kept retryF (n + 1) l chunks
    | some id => kept retryF (n + 1) l (chunks.store id { c.2 with retries := 0 })

/-- The places of the chunks whose retries timed out. -/
def timedOut (retryF : Retries Id R) : Nat → List (Id × Chunk R) → List Extent
  | _, [] => []
  | n, c :: l =>
    match retryF n c.2.request true with
    | none => c.2.toExtent :: timedOut retryF (n + 1) l
    | some _ => timedOut retryF (n + 1) l

/-- No retry times out for a request that is smaller than its chunk. -/
def RetriesFill (encode : Encode R) (retryF : Retries Id R) (n : Nat) (l : List (Id × Chunk R)) : Prop :=
  ∀ j c, l[j]? = some c → retryF (n + j) c.2.request true = none → c.2.size = (encode c.2.request).length

theorem RetriesFill.tail {n : Nat} {c : Id × Chunk R} {l : List (Id × Chunk R)}
    (h : RetriesFill encode retryF n (c :: l)) : RetriesFill encode retryF (n + 1) l := fun j d hd hF =>
  h (j + 1) d hd (by rwa [show n + (j + 1) = n + 1 + j by omega])

/-- A file that has nothing after its chunks, or at least a size. -/
def TailReadable (s : State Id R) : Prop := s.file.length ≤ s.position ∨ s.position + 8 ≤ s.file.length

/-- What comes after the chunks is not read as one. -/
theorem chunksRecover_end (ht : BlockFile s.file s.position (blocks encode (owners none s.chunks) s.chunksFree))
    (htail : TailReadable s) (hdrop : r.file.drop r.cursor = s.file.drop s.position) :
    chunksRecover decode retryF (fuel + 1) r = some (.ok r) := by
  rw [chunksRecover]
  rcases htail with h | h
  · have hlen := congrArg List.length hdrop
    rw [List.length_drop, List.length_drop] at hlen
    rw [read, if_pos (by omega)]
  · have hzero : Holds s.file s.position (be 8 0) := by
      refine ⟨by rw [length_be]; exact h, fun i hi => ?_⟩
      rw [ht.tail _ (Nat.le_add_right _ _), show be 8 0 = List.replicate 8 0 by rfl, List.getD_eq_getElem?_getD,
        List.getElem?_replicate]
      split <;> rfl
    rw [read_size (hdrop.trans hzero.drop)]
    simp only [length_be, ne_eq, not_true_eq_false, if_false, ofBe_be_of_lt (show 0 < 256 ^ 8 by decide), if_true]

/-- What is recovered from `r` on when the blocks are read. -/
structure Recovered (retryF : Retries Id R) (s : State Id R) (L : List (Option Id ⊕ Extent)) (r r' : Recover Id R) :
    Prop where
  position : r'.position = s.position
  retried : r'.retried = r.retried ++ (chunksIn s L).map (fun c => c.2.request)
  chunks : r'.chunks = kept retryF r.retried.length (chunksIn s L) r.chunks
  chunksFree : ∀ e, e ∈ r'.chunksFree ↔
    e ∈ r.chunksFree ∨ .inr e ∈ L ∨ e ∈ timedOut retryF r.retried.length (chunksIn s L)

variable {L : List (Option Id ⊕ Extent)} {r' : Recover Id R} {k : Id}

theorem chunksIn_used (hc : s.chunks k = some c) : chunksIn s (.inl (some k) :: L) = (k, c) :: chunksIn s L := by
  rw [chunksIn, List.filterMap_cons]
  simp only [hc, Option.map_some]
  rfl

theorem Recovered.free (cursor position : Nat) (h : Recovered retryF s L
      { r with cursor := cursor, position := position, chunksFree := umerge r.chunksFree [e] } r') :
    Recovered retryF s (.inr e :: L) r r' where
  position := h.position
  retried := h.retried
  chunks := h.chunks
  chunksFree e' := by
    have hmem := h.chunksFree e'
    simp only [mem_umerge, List.mem_singleton] at hmem
    rw [hmem, List.mem_cons, Sum.inr.injEq]
    exact or_assoc.trans (or_congr_right or_assoc.symm)

theorem Recovered.used (hc : s.chunks k = some c) (h : Recovered retryF s L (r.next retryF c) r') :
    Recovered retryF s (.inl (some k) :: L) r r' := by
  obtain ⟨hpos, hret, hchunks, hmem⟩ := h
  rw [Recover.next] at hret hchunks hmem
  cases hF : retryF r.retried.length c.request true with
  | none =>
    simp only [hF, List.length_append, List.length_singleton] at hret hchunks hmem
    refine ⟨hpos, ?_, ?_, fun e => ?_⟩
    · rw [hret, chunksIn_used hc, List.append_assoc]
      rfl
    · rw [hchunks, chunksIn_used hc, kept]
      simp only [hF]
    · rw [hmem, chunksIn_used hc, timedOut]
      simp only [hF, mem_umerge, List.mem_cons, List.not_mem_nil, or_false, reduceCtorEq, false_or]
      rw [or_assoc, or_left_comm (a := e = c.toExtent)]
  | some id =>
    simp only [hF, List.length_append, List.length_singleton] at hret hchunks hmem
    refine ⟨hpos, ?_, ?_, fun e => ?_⟩
    · rw [hret, chunksIn_used hc, List.append_assoc]
      rfl
    · rw [hchunks, chunksIn_used hc, kept]
      simp only [hF]
    · rw [hmem, chunksIn_used hc, timedOut]
      simp only [hF, List.mem_cons, reduceCtorEq, false_or]

theorem next_position : (r.next retryF c).position = r.position + chunkOverhead + c.size := by
  rw [Recover.next]
  split <;> rfl

theorem next_cursor : (r.next retryF c).cursor = r.cursor + chunkOverhead + c.size := by
  rw [Recover.next]
  split <;> rfl

theorem next_retried : (r.next retryF c).retried = r.retried ++ [c.request] := by
  rw [Recover.next]
  split <;> rfl

/-- A chunk that is freed is behind what is read next. -/
theorem next_drop : (r.next retryF c).file.drop (c.position + chunkOverhead + c.size) =
    r.file.drop (c.position + chunkOverhead + c.size) := by
  have hlen : (be 8 c.size ++ be 8 0 ++ zeros c.size).length = chunkOverhead + c.size := length_freeBlock c.toExtent
  rw [Recover.next]
  split
  · exact drop_pwrite (by rw [hlen, Nat.add_assoc])
  · rfl

/-- Reading goes over all the chunks. -/
theorem chunksRecover_listing (ht : Tracks encode s m) (hdecode : ∀ x, decode (encode x) = some x)
    (hne : ∀ x, 0 < (encode x).length) (hbig : s.position < 256 ^ 8) {p n : Nat} (hn : n = s.position)
    (hL : BlockFile.Listing (blocks encode (owners none s.chunks) s.chunksFree) p L n)
    (hp : r.position = p) (hcur : r.cursor = p) (hdrop : r.file.drop p = s.file.drop p)
    (hfill : RetriesFill encode retryF r.retried.length (chunksIn s L)) (fuel : Nat) :
    ∃ r', chunksRecover decode retryF (fuel + L.length) r = chunksRecover decode retryF fuel r' ∧
      r'.file.drop r'.cursor = s.file.drop s.position ∧ Recovered retryF s L r r' := by
  have hl := ht.layout
  have hover : chunkOverhead = 16 := rfl
  induction hL generalizing r with
  | nil n =>
    refine ⟨r, rfl, by rw [hcur, hdrop, hn], hp.trans hn, ?_, rfl, fun e => ?_⟩
    · exact (List.append_nil _).symm
    · simp only [chunksIn, timedOut, List.filterMap_nil, List.not_mem_nil, or_false]
  | @cons o b L n hb hL ih =>
    rw [List.length_cons, ← Nat.add_assoc]
    have hhold := (hl.tiled.holds hb).drop
    have hstop := hl.tiled.stop_le hb
    have hdropAfter : r.file.drop b.stop = s.file.drop b.stop := by
      rw [FileBlock.stop, ← List.drop_drop, hdrop, List.drop_drop]
    rw [← hdrop, ← hcur] at hhold
    rcases o with (_ | k) | e
    · cases hb
    · -- a chunk with a request
      obtain ⟨c, hc, rfl⟩ := Option.map_eq_some_iff.mp hb
      have hsized := hl.sized (k := some k) hc
      have hafter : (usedBlock encode c).stop = c.position + chunkOverhead + c.size := by
        rw [FileBlock.stop, length_usedBlock hsized, ← Nat.add_assoc]
        rfl
      rw [chunksIn_used hc] at hfill
      rw [hafter] at hL hdropAfter hstop ih
      rw [chunksRecover_used hhold hp (hcur.trans hp.symm) (hdecode _) (hne _) hsized (by omega)
        (fun hF => hfill 0 (k, c) rfl hF)]
      obtain ⟨r', hr', hend, h⟩ := @ih (r.next retryF c) hn (next_position.trans (by rw [hp]; rfl))
        (next_cursor.trans (by rw [hcur]; rfl)) (next_drop.trans hdropAfter)
        (by rw [next_retried, List.length_append]; exact hfill.tail)
      exact ⟨r', hr', hend, h.used hc⟩
    · -- a free chunk
      have he : e ∈ s.chunksFree := mem_of_blocks hb
      obtain rfl := Option.some.inj ((blocks_free _ he).symm.trans hb)
      obtain ⟨x, hx⟩ := hl.freed he
      have hxpos := hne x
      have hafter : (freeBlock e).stop = e.position + chunkOverhead + e.size := by
        rw [FileBlock.stop, length_freeBlock, ← Nat.add_assoc]
        rfl
      rw [hafter] at hL hdropAfter hstop ih
      rw [chunksRecover_free hhold hp (by omega) (by omega)]
      obtain ⟨r', hr', hend, h⟩ := @ih
        { r with
          cursor := r.cursor + chunkOverhead + e.size
          position := r.position + chunkOverhead + e.size
          chunksFree := umerge r.chunksFree [e] } hn
        (by simp only [hp]; rfl) (by simp only [hcur]; rfl) hdropAfter hfill
      exact ⟨r', hr', hend, h.free _ _⟩

/-! ## What is recovered -/

/-- The retries of two chunks have different ids. -/
def RetriesDistinct (retryF : Retries Id R) (n : Nat) (l : List (Id × Chunk R)) : Prop :=
  ∀ i j c d id, l[i]? = some c → l[j]? = some d → retryF (n + i) c.2.request true = some id →
    retryF (n + j) d.2.request true = some id → i = j

theorem RetriesDistinct.tail {n : Nat} {c : Id × Chunk R} {l : List (Id × Chunk R)}
    (h : RetriesDistinct retryF n (c :: l)) : RetriesDistinct retryF (n + 1) l := by
  intro i j d d' id hd hd' hF hF'
  rw [Nat.add_assoc, Nat.add_comm 1] at hF hF'
  exact Nat.succ.inj (h (i + 1) (j + 1) d d' id hd hd' hF hF')

theorem kept_other {n : Nat} {l : List (Id × Chunk R)} {chunks : Dict Id (Chunk R)} {id : Id}
    (h : ∀ j c, l[j]? = some c → retryF (n + j) c.2.request true ≠ some id) :
    kept retryF n l chunks id = chunks id := by
  induction l generalizing n chunks with
  | nil => rfl
  | cons c l ih =>
    have htail := fun chunks => @ih (n + 1) chunks fun j d hd => by
      rw [Nat.add_assoc, Nat.add_comm 1]
      exact h (j + 1) d hd
    rw [kept]
    cases hF : retryF n c.2.request true with
    | none => exact htail chunks
    | some id' =>
      have hne : id ≠ id' := fun heq => h 0 c rfl (heq ▸ hF)
      exact (htail _).trans (Function.update_of_ne hne _ _)

theorem kept_retried {n j : Nat} {l : List (Id × Chunk R)} {chunks : Dict Id (Chunk R)} {c : Id × Chunk R} {id : Id}
    (hd : RetriesDistinct retryF n l) (hc : l[j]? = some c) (hF : retryF (n + j) c.2.request true = some id) :
    kept retryF n l chunks id = some { c.2 with retries := 0 } := by
  induction l generalizing n j chunks with
  | nil => cases hc
  | cons d l ih =>
    rw [kept]
    cases j with
    | zero =>
      obtain rfl := Option.some.inj hc
      have hF₀ : retryF n d.2.request true = some id := hF
      simp only [hF₀]
      rw [kept_other fun i x hx hx' => ?_]
      · exact Function.update_self _ _ _
      · rw [Nat.add_assoc, Nat.add_comm 1] at hx'
        exact absurd (hd 0 (i + 1) d x id rfl hx hF hx') (Nat.succ_ne_zero i).symm
    | succ j =>
      rw [← Nat.add_assoc, Nat.add_right_comm] at hF
      cases retryF n d.2.request true with
      | none => exact ih hd.tail hc hF
      | some id' => exact ih hd.tail hc hF

theorem mem_timedOut {n : Nat} {l : List (Id × Chunk R)} :
    e ∈ timedOut retryF n l ↔
      ∃ j c, l[j]? = some c ∧ retryF (n + j) c.2.request true = none ∧ e = c.2.toExtent := by
  induction l generalizing n with
  | nil => simp [timedOut]
  | cons d l ih =>
    have hsplit : (∃ j c, (d :: l)[j]? = some c ∧ retryF (n + j) c.2.request true = none ∧ e = c.2.toExtent) ↔
        (retryF n d.2.request true = none ∧ e = d.2.toExtent) ∨ e ∈ timedOut retryF (n + 1) l := by
      rw [ih]
      constructor
      · rintro ⟨j, c, hc, hF, he⟩
        cases j with
        | zero =>
          obtain rfl := Option.some.inj hc
          exact .inl ⟨hF, he⟩
        | succ j => exact .inr ⟨j, c, hc, by rwa [Nat.add_assoc, Nat.add_comm 1], he⟩
      · rintro (⟨hF, he⟩ | ⟨j, c, hc, hF, he⟩)
        · exact ⟨0, d, rfl, hF, he⟩
        · exact ⟨j + 1, c, hc, by rwa [Nat.add_assoc, Nat.add_comm 1] at hF, he⟩
    rw [hsplit, timedOut]
    cases hF : retryF n d.2.request true with
    | none => simp only [List.mem_cons, true_and]
    | some id => simp only [reduceCtorEq, false_and, false_or]

/-- The chunks of the requests that are stored, in the order of the file. -/
structure InOrder (s : State Id R) (m : Stored Id R) (l : List (Id × Chunk R)) : Prop where
  stored : ∀ k, (s.chunks k).map (fun c => (c.request, c.retries)) = m k
  mem : ∀ k c, (k, c) ∈ l ↔ s.chunks k = some c
  sorted : l.Pairwise fun a b => a.2.position < b.2.position

/-- Each request is retried once. The chunk of one that is retried is under the new id, and the others are free. -/
structure Reopened (retryF : Retries Id R) (s : State Id R) (l : List (Id × Chunk R)) (s' : State Id R)
    (retried : List R) : Prop where
  retried : retried = l.map fun c => c.2.request
  kept : ∀ id c', s'.chunks id = some c' ↔
    ∃ j c, l[j]? = some c ∧ retryF j c.2.request true = some id ∧ c' = { c.2 with retries := 0 }
  freed : ∀ e, e ∈ s'.chunksFree ↔
    e ∈ s.chunksFree ∨ ∃ j c, l[j]? = some c ∧ retryF j c.2.request true = none ∧ e = c.2.toExtent
  position : s'.position = s.position

theorem mem_chunksIn : (k, c) ∈ chunksIn s L ↔ .inl (some k) ∈ L ∧ s.chunks k = some c := by
  rw [chunksIn, List.mem_filterMap]
  constructor
  · rintro ⟨(_ | k') | e, ho, hsome⟩
    · cases hsome
    · obtain ⟨c', hc', heq⟩ := Option.map_eq_some_iff.mp hsome
      obtain ⟨rfl, rfl⟩ := Prod.mk.inj heq
      exact ⟨ho, hc'⟩
    · cases hsome
  · rintro ⟨ho, hc⟩
    exact ⟨_, ho, by simp only [hc, Option.map_some]⟩

theorem Tracks.inOrder (ht : Tracks encode s m)
    (hL : BlockFile.Listing (blocks encode (owners none s.chunks) s.chunksFree) 0 L s.position) :
    InOrder s m (chunksIn s L) where
  stored := ht.stored
  mem k c := by
    rw [mem_chunksIn, and_iff_right_iff_imp]
    intro hc
    exact hL.mem ht.layout.tiled (blocks_used (show owners none s.chunks (some k) = some c from hc)) (Nat.zero_le _)
  sorted := by
    refine List.pairwise_filterMap.mpr ((hL.sorted ht.layout.tiled).imp fun {o o'} hlt x hx x' hx' => ?_)
    rcases o with (_ | k) | e
    · cases hx
    · rcases o' with (_ | k') | e'
      · cases hx'
      · obtain ⟨c, hc, rfl⟩ := Option.map_eq_some_iff.mp hx
        obtain ⟨c', hc', rfl⟩ := Option.map_eq_some_iff.mp hx'
        exact hlt _ _ (blocks_used (show owners none s.chunks (some k) = some c from hc))
          (blocks_used (show owners none s.chunks (some k') = some c' from hc'))
      · cases hx'
    · cases hx

theorem Tracks.mem_listing (ht : Tracks encode s m)
    (hL : BlockFile.Listing (blocks encode (owners none s.chunks) s.chunksFree) 0 L s.position) :
    .inr e ∈ L ↔ e ∈ s.chunksFree := by
  constructor
  · intro he
    obtain ⟨b, hb⟩ := hL.exists_block he
    exact mem_of_blocks hb
  · intro he
    exact hL.mem ht.layout.tiled (blocks_free _ he) (Nat.zero_le _)

/-- Less than a size after the chunks does not match. -/
theorem chunksRecover_short (hlt : s.position < s.file.length) (hshort : s.file.length < s.position + 8)
    (hdrop : r.file.drop r.cursor = s.file.drop s.position) :
    chunksRecover decode retryF (fuel + 1) r = some (.error .caseClause) := by
  have hlen := congrArg List.length hdrop
  rw [List.length_drop, List.length_drop] at hlen
  have hread : ((r.file.drop r.cursor).take 8).length ≠ 8 := by
    rw [List.length_take, List.length_drop]
    omega
  rw [chunksRecover, read, if_neg (by omega)]
  simp only [hread, ne_eq, not_false_eq_true, if_true]

theorem Recovered.reopened (ht : Tracks encode s m)
    (hL : BlockFile.Listing (blocks encode (owners none s.chunks) s.chunksFree) 0 L s.position)
    (hd : RetriesDistinct retryF 0 (chunksIn s L)) (h : Recovered retryF s L ⟨s.file, 0, 0, Dict.new, [], []⟩ r') :
    Reopened retryF s (chunksIn s L) ⟨r'.file, r'.position, r'.chunks, r'.chunksFree⟩ r'.retried where
  retried := h.retried
  kept id c' := by
    show r'.chunks id = some c' ↔ _
    rw [h.chunks]
    constructor
    · intro hc'
      by_cases hex : ∃ j c, (chunksIn s L)[j]? = some c ∧ retryF j c.2.request true = some id
      · obtain ⟨j, c, hc, hF⟩ := hex
        have hkept : kept retryF 0 (chunksIn s L) Dict.new id = some { c.2 with retries := 0 } :=
          kept_retried hd hc (show retryF (0 + j) c.2.request true = some id by rwa [Nat.zero_add])
        exact ⟨j, c, hc, hF, Option.some.inj (hc'.symm.trans hkept)⟩
      · have hother : kept retryF 0 (chunksIn s L) Dict.new id = (Dict.new : Dict Id (Chunk R)) id :=
          kept_other fun j c hc hF => hex ⟨j, c, hc, by rwa [Nat.zero_add] at hF⟩
        cases hc'.symm.trans hother
    · rintro ⟨j, c, hc, hF, rfl⟩
      exact kept_retried hd hc (show retryF (0 + j) c.2.request true = some id by rwa [Nat.zero_add])
  freed e := by
    have hmem := h.chunksFree e
    rw [ht.mem_listing hL, mem_timedOut] at hmem
    simp only [List.not_mem_nil, false_or, List.length_nil, Nat.zero_add] at hmem
    exact hmem
  position := h.position

theorem Tracks.new (ht : Tracks encode s m) (hdecode : ∀ x, decode (encode x) = some x)
    (hne : ∀ x, 0 < (encode x).length) (hbig : s.position < 256 ^ 8)
    (hL : BlockFile.Listing (blocks encode (owners none s.chunks) s.chunksFree) 0 L s.position)
    (hfill : RetriesFill encode retryF 0 (chunksIn s L)) (hd : RetriesDistinct retryF 0 (chunksIn s L)) (fuel : Nat) :
    (∃ s' retried, new decode retryF (fuel + 1 + L.length) s.file = some (.ok (s', retried)) ∧
      Reopened retryF s (chunksIn s L) s' retried) ↔ TailReadable s := by
  obtain ⟨r', hr', hdrop, h⟩ :=
    chunksRecover_listing (r := ⟨s.file, 0, 0, Dict.new, [], []⟩) ht hdecode hne hbig rfl hL rfl
    rfl rfl hfill (fuel + 1)
  rw [Queue.new, hr']
  constructor
  · rintro ⟨s', retried, hnew, -⟩
    by_contra htail
    rw [TailReadable, not_or, Nat.not_le, Nat.not_le] at htail
    rw [chunksRecover_short htail.1 htail.2 hdrop] at hnew
    cases hnew
  · intro htail
    rw [chunksRecover_end ht.layout.tiled htail hdrop]
    exact ⟨_, _, rfl, h.reopened ht hL hd⟩

/-- A log whose updates keep their ids is opened on its file again, and each request that is stored is retried
once, if no retry times out for a request smaller than its chunk and the ids of the retries are distinct, exactly
when the file has nothing after its chunks or at least a size. -/
theorem new_recovers {Id R : Type} [DecidableEq Id] {encode : Encode R} {decode : Decode R} {s : State Id R}
    {m : Stored Id R} (h : Reachable encode (fun m op => Op.KeepsId m op) s m)
    (hdecode : ∀ x, decode (encode x) = some x) (hne : ∀ x, 0 < (encode x).length) (hbig : s.position < 256 ^ 8) :
    ∃ (l : List (Id × Chunk R)) (n : Nat), InOrder s m l ∧
      ∀ (retryF : Retries Id R) (fuel : Nat), n < fuel → RetriesFill encode retryF 0 l → RetriesDistinct retryF 0 l →
        ((∃ s' retried, new decode retryF fuel s.file = some (.ok (s', retried)) ∧ Reopened retryF s l s' retried) ↔
          TailReadable s) := by
  have ht := h.tracks
  obtain ⟨L, hL⟩ := ht.layout.tiled.exists_listing
  refine ⟨chunksIn s L, L.length, ht.inOrder hL, fun retryF fuel hlt hfill hd => ?_⟩
  obtain ⟨d, rfl⟩ := Nat.exists_eq_add_of_lt hlt
  have hnew := ht.new hdecode hne hbig hL hfill hd d
  rwa [show d + 1 + L.length = L.length + d + 1 by omega] at hnew

/-! ## A log of binaries -/

/-- `term_to_binary` of a binary. -/
def encodeBinary : Encode (List UInt8) := fun r => [131, 109] ++ be 4 r.length ++ r

/-- `binary_to_term` of a binary. -/
def decodeBinary : Decode (List UInt8) := fun b => some (b.drop 6)

theorem decodeBinary_encodeBinary (r : List UInt8) : decodeBinary (encodeBinary r) = some r := by
  rw [decodeBinary, encodeBinary, List.drop_left' (by rw [List.length_append, length_be]; rfl)]

theorem length_encodeBinary (r : List UInt8) : 0 < (encodeBinary r).length := by
  simp only [encodeBinary, List.length_append, length_be, List.length_cons]
  omega

/-- The requests that are stored, one of them where another was erased, are retried once when the log is opened
again. -/
theorem new_recovers_stored : ∃ (s : State Nat (List UInt8)) (m : Stored Nat (List UInt8)),
    m 1 = some ([7], 0) ∧ m 2 = some ([5, 6], 0) ∧ ∃ l n s' retried, InOrder s m l ∧
      new decodeBinary (fun n _ _ => some n) (n + 1) s.file = some (.ok (s', retried)) ∧
      Reopened (fun n _ _ => some n) s l s' retried := by
  have h₁ : Reachable encodeBinary (fun m op => Op.KeepsId m op) _ _ :=
    Reachable.empty.step (Op.store [1, 2] (0 : Nat)) rfl trivial rfl
  have h₂ := h₁.step (Op.store [7] 1) rfl trivial rfl
  have h₃ := h₂.step (Op.erase 0) trivial trivial rfl
  have h₄ := h₃.step (Op.store [5, 6] 2) rfl trivial rfl
  obtain ⟨l, n, hl, hnew⟩ := new_recovers h₄ decodeBinary_encodeBinary length_encodeBinary (by decide +kernel)
  obtain ⟨s', retried, h⟩ := (hnew (fun n _ _ => some n) (n + 1) (Nat.lt_succ_self n) (fun _ _ _ hF => by cases hF)
    (fun i j _ _ id _ _ hF hF' => by
      have hi := (Option.some.inj hF).trans (Option.some.inj hF').symm
      omega)).mpr (.inl (by decide +kernel))
  exact ⟨_, _, rfl, rfl, l, n, s', retried, hl, h⟩

/-- A request that is stored after a larger one was erased: one byte is left after its chunk. -/
theorem not_new_short : ∃ (s : State Nat (List UInt8)) (m : Stored Nat (List UInt8)),
    Reachable encodeBinary (fun m op => Op.KeepsId m op) s m ∧ m 0 = some ([1], 0) ∧
      ∀ fuel s' retried, new decodeBinary (fun n _ _ => some n) fuel s.file ≠ some (.ok (s', retried)) := by
  have hstore : Reachable encodeBinary (fun m op => Op.KeepsId m op) _ _ :=
    Reachable.empty.step (Op.store [1, 2] (0 : Nat)) rfl trivial rfl
  have herase := hstore.step (Op.erase 0) trivial trivial rfl
  have hagain := herase.step (Op.store [1] 0) rfl trivial rfl
  refine ⟨_, _, hagain, rfl, fun fuel s' retried hnew => ?_⟩
  rcases fuel with _ | _ | fuel
  · cases hnew
  · cases hnew
  · cases hnew

end CloudI.Queue
