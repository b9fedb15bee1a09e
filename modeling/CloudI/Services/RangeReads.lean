import CloudI.Services.Filesystem

/-!
# Range reads of `cloudi_service_filesystem`

`content_range_read` makes the response of a `GET` with ranges, and
`content_range_list_check` the one of a `HEAD`. `rangeResponse` is what they are
meant to be: `range_reads_iff` says for which ranges they are that. A suffix
that is longer than the contents starts before them, which raises, and a
`HEAD` does not look whether a range ends behind the contents.
-/

namespace CloudI.Services.Filesystem

/-! ## Texts -/

def integerToBinary (n : Int) : List UInt8 := text (toString n)

/-- The name and the value of a header. -/
abbrev Header := List UInt8 × List UInt8

/-- `contents_ranges_headers(true)` -/
def contentsRangesHeaders : List Header := [(text "accept-ranges", text "bytes")]

/-- The header `content-range` of a part. -/
def contentRange (ByteStart ByteEnd : Int) (ContentLength : Nat) : Header :=
  (text "content-range", text "bytes " ++ integerToBinary ByteStart ++ text "-" ++ integerToBinary ByteEnd ++
    text "/" ++ integerToBinary ContentLength)

/-- The headers of a response with the status 416. -/
def notSatisfiable (ContentLength : Nat) : List Header :=
  (text "status", text "416") :: (text "content-range", text "bytes */" ++ integerToBinary ContentLength) ::
    contentsRangesHeaders

/-! ## `cloudi_x_cow_multipart` -/

/-- `headers_to_iolist/2` -/
def headersToIolist (Headers : List Header) : List UInt8 :=
  (Headers.flatMap fun h => h.1 ++ text ": " ++ h.2 ++ text "\r\n") ++ text "\r\n"

/-- `part/2` -/
def multipartPart (Boundary : List UInt8) (Headers : List Header) : List UInt8 :=
  text "\r\n--" ++ Boundary ++ text "\r\n" ++ headersToIolist Headers

/-- `close/1` -/
def multipartClose (Boundary : List UInt8) : List UInt8 := text "\r\n--" ++ Boundary ++ text "--\r\n"

/-! ## `content_range_read` -/

/-- An element of `Output`: of the only range, or of one of several. -/
inductive ReadPart
  | single (Headers : List Header) (Response : List UInt8)
  | multi (data : List UInt8)

def contentRangeReadPartGet (Boundary : Option (List UInt8)) (ByteStart ByteEnd : Int) (ContentLength : Nat)
    (Part : List UInt8) : ReadPart :=
  match Boundary with
  | none => .single [contentRange ByteStart ByteEnd ContentLength] Part
  | some Boundary => .multi (multipartPart Boundary [contentRange ByteStart ByteEnd ContentLength] ++ Part)

/-- `binary:part/3`, for a length that is not negative -/
def binaryPart (Subject : List UInt8) (Start Length : Int) : Except Exn (List UInt8) :=
  if 0 ≤ Start ∧ Start + Length ≤ Subject.length then .ok ((Subject.drop Start.toNat).take Length.toNat)
  else .error .badarg

/-- `content_range_read_part_check/8`: the entry for a range, or `none` for the status 416. -/
def contentRangeReadPartCheck (ByteStart ByteEnd : Int) (Boundary : Option (List UInt8)) (Contents : List UInt8) :
    Except Exn (Option ReadPart) :=
  let ByteSize := ByteEnd - ByteStart + 1
  if ByteStart ≤ ByteEnd ∧ ByteSize ≤ Contents.length - ByteStart then do
    let Part ← binaryPart Contents ByteStart ByteSize
    return some (contentRangeReadPartGet Boundary ByteStart ByteEnd Contents.length Part)
  else .ok none

/-- `ByteStart` of a range. -/
def byteStart (ContentLength : Nat) (I : Int) : Int := if I < 0 then ContentLength + I else I

/-- `ByteStart` and `ByteEnd` of a range. -/
def Range.bytes (ContentLength : Nat) : Range → Except Exn (Int × Int)
  | infinity I => .ok (byteStart ContentLength I, ContentLength - 1)
  | between IStart IEnd => .ok (byteStart ContentLength IStart, IEnd)
  | last I => .ok (byteStart ContentLength I, ContentLength - 1)
  | undefined => .error .functionClause

/-- A response: the status, the headers and the body. -/
structure Response where
  status : Nat
  headers : List Header
  body : List UInt8

/-- The clauses of `content_range_read/6` for the empty list. -/
def contentRangeReadEnd (Output : List ReadPart) (Boundary : Option (List UInt8)) : Except Exn Response :=
  match Output, Boundary with
  | [.single Headers Response], none =>
    .ok ⟨206, (text "status", text "206") :: (text "content-type", text "application/octet-stream") :: Headers,
      Response⟩
  | Output, some Boundary =>
    .ok ⟨206, [(text "status", text "206"),
        (text "content-type", text "multipart/byteranges; boundary=" ++ Boundary)],
      (Output.reverse.flatMap fun
        | .multi data => data
        | .single _ Part => Part) ++ multipartClose Boundary⟩
  | _, none => .error .badarg

/-- `content_range_read/6` -/
def contentRangeReadLoop (Boundary : Option (List UInt8)) (Contents : List UInt8) :
    List Range → List ReadPart → Except Exn Response
  | [], Output => contentRangeReadEnd Output Boundary
  | range :: RangeList, Output => do
    let (ByteStart, ByteEnd) ← range.bytes Contents.length
    match ← contentRangeReadPartCheck ByteStart ByteEnd Boundary Contents with
    | some Entry => contentRangeReadLoop Boundary Contents RangeList (Entry :: Output)
    | none => return ⟨416, notSatisfiable Contents.length, []⟩

/-- The boundary of a list of ranges, where `boundary` is a new one. -/
def boundaryOf (boundary : List UInt8) (RangeList : List Range) : Option (List UInt8) :=
  if RangeList.length = 1 then none else some boundary

/-- `content_range_read/2` -/
def contentRangeRead (boundary : List UInt8) (RangeList : List Range) (Contents : List UInt8) : Except Exn Response :=
  if RangeList = [] then .error .functionClause
  else contentRangeReadLoop (boundaryOf boundary RangeList) Contents RangeList []

/-! ## `content_range_list_check` -/

/-- `content_range_list_check/4`, where `many` is whether there is a boundary -/
def contentRangeListCheckLoop (many : Bool) (ContentLength : Nat) : List Range → Except Exn (Nat × List Header)
  | [] => .ok (206, [(text "status", text "206"),
      (text "content-type", if many then text "multipart/byteranges" else text "application/octet-stream")])
  | range :: RangeList => do
    let (ByteStart, ByteEnd) ← range.bytes ContentLength
    if ByteStart ≤ ByteEnd then contentRangeListCheckLoop many ContentLength RangeList
    else return (416, notSatisfiable ContentLength)

/-- `content_range_list_check/2` -/
def contentRangeListCheck (RangeList : List Range) (Contents : List UInt8) : Except Exn (Nat × List Header) :=
  if RangeList = [] then .error .functionClause
  else contentRangeListCheckLoop (RangeList.length ≠ 1) Contents.length RangeList

/-! ## What is meant -/

/-- The ranges that a header can have. -/
def Range.WellFormed : Range → Prop
  | last I => I < 0
  | infinity I => 0 ≤ I
  | between IStart IEnd => 0 ≤ IStart ∧ 0 ≤ IEnd
  | undefined => False

/-- The first and the last position of a range that lies in the contents. A suffix that is longer is all of them. -/
def Range.span (ContentLength : Nat) : Range → Option (Nat × Nat)
  | last I => if 0 < ContentLength then some (ContentLength - I.natAbs, ContentLength - 1) else none
  | infinity I => if I < ContentLength then some (I.toNat, ContentLength - 1) else none
  | between IStart IEnd =>
    if IStart ≤ IEnd ∧ IEnd < ContentLength then some (IStart.toNat, IEnd.toNat) else none
  | undefined => none

/-- The bytes from the first to the last position. -/
def sliceOf (Contents : List UInt8) (s : Nat × Nat) : List UInt8 := (Contents.drop s.1).take (s.2 - s.1 + 1)

/-- The response with the bytes of each range and their positions. -/
def spansResponse (boundary Contents : List UInt8) : List (Nat × Nat) → Response
  | [s] => ⟨206, [(text "status", text "206"), (text "content-type", text "application/octet-stream"),
      contentRange s.1 s.2 Contents.length], sliceOf Contents s⟩
  | spans => ⟨206, [(text "status", text "206"),
      (text "content-type", text "multipart/byteranges; boundary=" ++ boundary)],
    (spans.flatMap fun s =>
      multipartPart boundary [contentRange s.1 s.2 Contents.length] ++ sliceOf Contents s) ++ multipartClose boundary⟩

/-- The status is 416 when a range does not lie in the contents. -/
def rangeResponse (boundary : List UInt8) (RangeList : List Range) (Contents : List UInt8) : Response :=
  if ∀ range ∈ RangeList, range.span Contents.length ≠ none then
    spansResponse boundary Contents (RangeList.filterMap fun range => range.span Contents.length)
  else ⟨416, notSatisfiable Contents.length, []⟩

/-! ## One range -/

/-- A suffix that is longer than the contents. -/
def Range.Longer (ContentLength : Nat) : Range → Prop
  | last I => ContentLength < I.natAbs
  | _ => False

/-- A range that ends before it starts, where one without an end goes to the end of the contents. -/
def Range.Reversed (ContentLength : Nat) : Range → Prop
  | infinity I => ContentLength ≤ I
  | between IStart IEnd => IEnd < IStart
  | _ => False

variable {Contents boundary : List UInt8} {Boundary : Option (List UInt8)} {range : Range} {RangeList : List Range}

/-- The entry for the positions of a range. -/
def entryOf (Boundary : Option (List UInt8)) (Contents : List UInt8) (s : Nat × Nat) : ReadPart :=
  contentRangeReadPartGet Boundary s.1 s.2 Contents.length (sliceOf Contents s)

theorem partCheck_inside {s : Nat × Nat} (hle : s.1 ≤ s.2) (hlt : s.2 < Contents.length) :
    contentRangeReadPartCheck s.1 s.2 Boundary Contents = .ok (some (entryOf Boundary Contents s)) := by
  have hsize : ((s.2 : Int) - s.1 + 1).toNat = s.2 - s.1 + 1 := by omega
  have hpart : binaryPart Contents s.1 (s.2 - s.1 + 1) = .ok (sliceOf Contents s) := by
    rw [binaryPart, if_pos (by omega), hsize, Int.toNat_natCast]
    rfl
  unfold contentRangeReadPartCheck
  dsimp only
  rw [if_pos (by omega), bind_ok hpart]
  rfl

theorem partCheck_outside {a b : Int} (h : b < a ∨ Contents.length ≤ b) :
    contentRangeReadPartCheck a b Boundary Contents = .ok none := by
  unfold contentRangeReadPartCheck
  dsimp only
  rw [if_neg (by omega)]

/-- The start before the contents is no position of them. -/
theorem partCheck_before {a b : Int} (ha : a < 0) (hab : a ≤ b) (hb : b < Contents.length) :
    contentRangeReadPartCheck a b Boundary Contents = .error .badarg := by
  unfold contentRangeReadPartCheck binaryPart
  dsimp only
  rw [if_pos (by omega), if_neg (by omega)]
  rfl

/-- A range that lies in the contents and is no longer suffix. -/
theorem range_inside {s : Nat × Nat} (hl : ¬range.Longer Contents.length)
    (hw : range.WellFormed) (hs : range.span Contents.length = some s) :
    range.bytes Contents.length = .ok ((s.1 : Int), (s.2 : Int)) ∧ s.1 ≤ s.2 ∧ s.2 < Contents.length ∧
      ¬range.Reversed Contents.length := by
  cases range with
  | undefined => cases hw
  | last I =>
    have hI : I < 0 := hw
    have hle : ¬Contents.length < I.natAbs := hl
    rw [Range.span] at hs
    split at hs
    · cases hs
      refine ⟨?_, by omega, by omega, id⟩
      rw [Range.bytes, byteStart, if_pos hI]
      congr 2 <;> omega
    · cases hs
  | infinity I =>
    have hI : 0 ≤ I := hw
    rw [Range.span] at hs
    split at hs
    · rename_i hlt
      cases hs
      refine ⟨?_, by omega, by omega, Int.not_le.mpr hlt⟩
      rw [Range.bytes, byteStart, if_neg (by omega)]
      congr 2 <;> omega
    · cases hs
  | between IStart IEnd =>
    obtain ⟨h0, h1⟩ : 0 ≤ IStart ∧ 0 ≤ IEnd := hw
    rw [Range.span] at hs
    split at hs
    · rename_i hlt
      cases hs
      refine ⟨?_, by omega, by omega, Int.not_lt.mpr hlt.1⟩
      rw [Range.bytes, byteStart, if_neg (by omega)]
      congr 2 <;> omega
    · cases hs

/-- A range that does not lie in the contents. -/
theorem range_outside (hl : ¬range.Longer Contents.length) (hw : range.WellFormed)
    (hs : range.span Contents.length = none) :
    ∃ a b, range.bytes Contents.length = .ok (a, b) ∧ (b < a ∨ Contents.length ≤ b) ∧
      (b < a ↔ range.Reversed Contents.length) := by
  cases range with
  | undefined => cases hw
  | last I =>
    have hI : I < 0 := hw
    have hle : ¬Contents.length < I.natAbs := hl
    rw [Range.span] at hs
    split at hs
    · cases hs
    · omega
  | infinity I =>
    have hI : 0 ≤ I := hw
    rw [Range.span] at hs
    split at hs
    · cases hs
    · refine ⟨I, Contents.length - 1, ?_, by omega, ?_⟩
      · rw [Range.bytes, byteStart, if_neg (by omega)]
      · show _ ↔ (Contents.length : Int) ≤ I
        omega
  | between IStart IEnd =>
    obtain ⟨h0, h1⟩ : 0 ≤ IStart ∧ 0 ≤ IEnd := hw
    rw [Range.span] at hs
    split at hs
    · cases hs
    · refine ⟨IStart, IEnd, ?_, by omega, Iff.rfl⟩
      rw [Range.bytes, byteStart, if_neg (by omega)]

/-- A longer suffix starts before the contents. -/
theorem range_longer (hl : range.Longer Contents.length) (hw : range.WellFormed) :
    ∃ a, range.bytes Contents.length = .ok (a, (Contents.length : Int) - 1) ∧ a < 0 ∧ a ≤ Contents.length - 1 ∧
      ¬range.Reversed Contents.length := by
  cases range with
  | undefined => cases hw
  | last I =>
    have hI : I < 0 := hw
    have hlt : Contents.length < I.natAbs := hl
    refine ⟨Contents.length + I, ?_, by omega, by omega, id⟩
    rw [Range.bytes, byteStart, if_pos hI]
  | infinity I => exact hl.elim
  | between IStart IEnd => exact hl.elim

/-! ## All the ranges -/

/-- Every range lies in the contents, and no suffix is longer. -/
def Readable (ContentLength : Nat) (RangeList : List Range) : Prop :=
  ∀ range ∈ RangeList, range.span ContentLength ≠ none ∧ ¬range.Longer ContentLength

/-- A range that does not lie in the contents comes before any longer suffix. -/
def Refused (ContentLength : Nat) : List Range → Prop
  | [] => False
  | range :: RangeList =>
    ¬range.Longer ContentLength ∧ (range.span ContentLength = none ∨ Refused ContentLength RangeList)

/-- A range that lies in the contents is an entry of the output. -/
theorem readLoop_inside {s : Nat × Nat} (hl : ¬range.Longer Contents.length) (hw : range.WellFormed)
    (hs : range.span Contents.length = some s) (RangeList : List Range) (Output : List ReadPart) :
    contentRangeReadLoop Boundary Contents (range :: RangeList) Output =
      contentRangeReadLoop Boundary Contents RangeList (entryOf Boundary Contents s :: Output) := by
  obtain ⟨hbytes, hle, hlt, -⟩ := range_inside hl hw hs
  rw [contentRangeReadLoop, bind_ok hbytes]
  dsimp only
  rw [bind_ok (partCheck_inside hle hlt)]

theorem readLoop_readable (hw : ∀ range ∈ RangeList, range.WellFormed) (hr : Readable Contents.length RangeList)
    (Output : List ReadPart) :
    contentRangeReadLoop Boundary Contents RangeList Output =
      contentRangeReadEnd (((RangeList.filterMap fun range => range.span Contents.length).map
        (entryOf Boundary Contents)).reverse ++ Output) Boundary := by
  induction RangeList generalizing Output with
  | nil => rfl
  | cons range RangeList ih =>
    obtain ⟨hs, hl⟩ := hr range List.mem_cons_self
    obtain ⟨s, hs⟩ := Option.ne_none_iff_exists'.mp hs
    rw [readLoop_inside hl (hw range List.mem_cons_self) hs, List.filterMap_cons_some hs, List.map_cons,
      List.reverse_cons, List.append_assoc]
    exact ih (fun r hr => hw r (List.mem_cons_of_mem _ hr)) (fun r h => hr r (List.mem_cons_of_mem _ h)) _

theorem readLoop_refused (hw : ∀ range ∈ RangeList, range.WellFormed) (hr : Refused Contents.length RangeList)
    (Output : List ReadPart) :
    contentRangeReadLoop Boundary Contents RangeList Output = .ok ⟨416, notSatisfiable Contents.length, []⟩ := by
  induction RangeList generalizing Output with
  | nil => cases hr
  | cons range RangeList ih =>
    obtain ⟨hl, hr⟩ := hr
    have hwr := hw range List.mem_cons_self
    cases hs : range.span Contents.length with
    | none =>
      obtain ⟨a, b, hbytes, hout, -⟩ := range_outside hl hwr hs
      rw [contentRangeReadLoop, bind_ok hbytes]
      dsimp only
      rw [bind_ok (partCheck_outside hout)]
      rfl
    | some s =>
      rw [readLoop_inside hl hwr hs]
      exact ih (fun r hr => hw r (List.mem_cons_of_mem _ hr)) (hr.resolve_left (by rw [hs]; nofun)) _

/-- Otherwise a longer suffix comes first, and raises. -/
theorem readLoop_raises (hw : ∀ range ∈ RangeList, range.WellFormed) (hr : ¬Readable Contents.length RangeList)
    (hn : ¬Refused Contents.length RangeList) (Output : List ReadPart) :
    contentRangeReadLoop Boundary Contents RangeList Output = .error .badarg := by
  induction RangeList generalizing Output with
  | nil => exact absurd (fun _ => nofun) hr
  | cons range RangeList ih =>
    have hwr := hw range List.mem_cons_self
    by_cases hl : range.Longer Contents.length
    · obtain ⟨a, hbytes, ha, hab, -⟩ := range_longer hl hwr
      rw [contentRangeReadLoop, bind_ok hbytes]
      dsimp only
      rw [partCheck_before ha hab (by omega)]
      rfl
    · have hs : range.span Contents.length ≠ none := fun hs => hn ⟨hl, .inl hs⟩
      obtain ⟨s, hs'⟩ := Option.ne_none_iff_exists'.mp hs
      rw [readLoop_inside hl hwr hs']
      refine ih (fun r hr => hw r (List.mem_cons_of_mem _ hr)) (fun hrest => hr ?_) (fun hrest => hn ⟨hl, .inr hrest⟩) _
      exact List.forall_mem_cons.mpr ⟨⟨hs, hl⟩, hrest⟩

theorem checkLoop_eq (hw : ∀ range ∈ RangeList, range.WellFormed) (many : Bool) :
    ∃ headers, contentRangeListCheckLoop many Contents.length RangeList = .ok headers ∧
      ((∃ range ∈ RangeList, range.Reversed Contents.length) → headers.1 = 416) ∧
      ((∀ range ∈ RangeList, ¬range.Reversed Contents.length) → headers.1 = 206) := by
  induction RangeList with
  | nil => exact ⟨_, rfl, fun ⟨_, h, _⟩ => absurd h List.not_mem_nil, fun _ => rfl⟩
  | cons range RangeList ih =>
    have hwr := hw range List.mem_cons_self
    have hrange : ∃ a b, range.bytes Contents.length = .ok (a, b) ∧ (b < a ↔ range.Reversed Contents.length) := by
      by_cases hl : range.Longer Contents.length
      · obtain ⟨a, hbytes, -, hab, hn⟩ := range_longer hl hwr
        exact ⟨a, _, hbytes, iff_of_false (by omega) hn⟩
      · cases hs : range.span Contents.length with
        | none =>
          obtain ⟨a, b, hbytes, -, hiff⟩ := range_outside hl hwr hs
          exact ⟨a, b, hbytes, hiff⟩
        | some s =>
          obtain ⟨hbytes, hle, -, hn⟩ := range_inside hl hwr hs
          exact ⟨_, _, hbytes, iff_of_false (by omega) hn⟩
    obtain ⟨a, b, hbytes, hiff⟩ := hrange
    obtain ⟨headers, hloop, h416, h206⟩ := ih fun r hr => hw r (List.mem_cons_of_mem _ hr)
    rw [contentRangeListCheckLoop, bind_ok hbytes]
    dsimp only
    by_cases hab : a ≤ b
    · rw [if_pos hab]
      have hn : ¬range.Reversed Contents.length := fun h => absurd (hiff.mpr h) (by omega)
      refine ⟨headers, hloop, fun ⟨r, hr, h⟩ => ?_, fun h => h206 fun r hr => h r (List.mem_cons_of_mem _ hr)⟩
      obtain rfl | hr := List.mem_cons.mp hr
      · exact absurd h hn
      · exact h416 ⟨r, hr, h⟩
    · rw [if_neg hab]
      exact ⟨_, rfl, fun _ => rfl, fun h => absurd (hiff.mp (by omega)) (h range List.mem_cons_self)⟩

/-- The response for ranges that can be read. -/
theorem contentRangeReadEnd_spans (boundary : List UInt8) {spans : List (Nat × Nat)} {n : Nat}
    (hn : spans.length = n) (hpos : n ≠ 0) :
    contentRangeReadEnd ((spans.map (entryOf (if n = 1 then none else some boundary) Contents)).reverse ++ [])
      (if n = 1 then none else some boundary) = .ok (spansResponse boundary Contents spans) := by
  match spans with
  | [] => exact absurd hn.symm hpos
  | [s] =>
    obtain rfl : n = 1 := hn.symm
    rfl
  | s :: s' :: spans =>
    have hne : n ≠ 1 := by
      rw [← hn]
      simp
    rw [if_neg hne, contentRangeReadEnd, List.append_nil, List.reverse_reverse, List.flatMap_map]
    rfl

theorem spansResponse_status (boundary : List UInt8) (spans : List (Nat × Nat)) :
    (spansResponse boundary Contents spans).status = 206 := by
  unfold spansResponse
  split <;> rfl

theorem contentRangeRead_readable (boundary : List UInt8) (hne : RangeList ≠ [])
    (hw : ∀ range ∈ RangeList, range.WellFormed) (hr : Readable Contents.length RangeList) :
    contentRangeRead boundary RangeList Contents = .ok (rangeResponse boundary RangeList Contents) := by
  have hlen : (RangeList.filterMap fun range => range.span Contents.length).length = RangeList.length := by
    rw [← List.length_map Option.some, List.map_filterMap_some_eq_filter_map_isSome, List.filter_eq_self.mpr,
      List.length_map]
    intro x hx
    obtain ⟨range, hrange, rfl⟩ := List.mem_map.mp hx
    exact Option.isSome_iff_ne_none.mpr (hr range hrange).1
  rw [contentRangeRead, if_neg hne, readLoop_readable hw hr, rangeResponse, if_pos fun range h => (hr range h).1]
  exact contentRangeReadEnd_spans boundary hlen fun h0 => hne (List.length_eq_zero_iff.mp h0)

theorem not_span_of_refused (hr : Refused Contents.length RangeList) :
    ¬∀ range ∈ RangeList, range.span Contents.length ≠ none := by
  induction RangeList with
  | nil => cases hr
  | cons range RangeList ih =>
    obtain hs | hr := hr.2
    · exact fun h => h range List.mem_cons_self hs
    · exact fun h => ih hr fun r hmem => h r (List.mem_cons_of_mem _ hmem)

theorem contentRangeRead_refused (boundary : List UInt8) (hne : RangeList ≠ [])
    (hw : ∀ range ∈ RangeList, range.WellFormed) (hr : Refused Contents.length RangeList) :
    contentRangeRead boundary RangeList Contents = .ok (rangeResponse boundary RangeList Contents) := by
  rw [contentRangeRead, if_neg hne, readLoop_refused hw hr, rangeResponse, if_neg (not_span_of_refused hr)]

/-- A range that can be read is not reversed. -/
theorem Readable.not_reversed (hr : Readable Contents.length RangeList) (hw : ∀ range ∈ RangeList, range.WellFormed) :
    ∀ range ∈ RangeList, ¬range.Reversed Contents.length := by
  intro range hrange
  obtain ⟨hs, hl⟩ := hr range hrange
  obtain ⟨s, hs⟩ := Option.ne_none_iff_exists'.mp hs
  obtain ⟨-, -, -, hn⟩ := range_inside hl (hw range hrange) hs
  exact hn

/-- A `GET` reads the ranges, or refuses them as a `HEAD` does, exactly if all of them lie in the contents and no
suffix is longer than these, or a range outside comes before any longer suffix and some range is reversed. -/
theorem range_reads_iff (boundary Contents : List UInt8) (hne : RangeList ≠ [])
    (hw : ∀ range ∈ RangeList, range.WellFormed) :
    (contentRangeRead boundary RangeList Contents = .ok (rangeResponse boundary RangeList Contents) ∧
      ∃ headers, contentRangeListCheck RangeList Contents =
        .ok ((rangeResponse boundary RangeList Contents).status, headers)) ↔
    Readable Contents.length RangeList ∨
      (Refused Contents.length RangeList ∧ ∃ range ∈ RangeList, range.Reversed Contents.length) := by
  obtain ⟨headers, hcheck, h416, h206⟩ := checkLoop_eq hw (decide (RangeList.length ≠ 1))
  have hlist : contentRangeListCheck RangeList Contents = .ok headers := by
    rw [contentRangeListCheck, if_neg hne, hcheck]
  constructor
  · rintro ⟨hread, headers', hhead⟩
    by_cases hr : Readable Contents.length RangeList
    · exact .inl hr
    · have hrefused : Refused Contents.length RangeList := by
        by_contra hn
        rw [contentRangeRead, if_neg hne, readLoop_raises hw hr hn] at hread
        cases hread
      refine .inr ⟨hrefused, ?_⟩
      by_contra hn
      cases hlist.symm.trans hhead
      have := h206 fun range hrange h => hn ⟨range, hrange, h⟩
      rw [rangeResponse, if_neg (not_span_of_refused hrefused)] at this
      cases this
  · rintro (hr | ⟨hr, hrev⟩)
    · refine ⟨contentRangeRead_readable boundary hne hw hr, headers.2, ?_⟩
      have hstatus : (rangeResponse boundary RangeList Contents).status = 206 := by
        rw [rangeResponse, if_pos fun range h => (hr range h).1]
        exact spansResponse_status boundary _
      rw [hlist, hstatus, ← h206 (hr.not_reversed hw)]
    · refine ⟨contentRangeRead_refused boundary hne hw hr, headers.2, ?_⟩
      rw [hlist, rangeResponse, if_neg (not_span_of_refused hr), ← h416 hrev]

/-- The second of three bytes, and the last two. -/
theorem range_reads_iff_second :
    contentRangeRead [48] [.between 1 1, .last (-2)] [1, 2, 3] =
      .ok (rangeResponse [48] [.between 1 1, .last (-2)] [1, 2, 3]) ∧
    ∃ headers, contentRangeListCheck [.between 1 1, .last (-2)] [1, 2, 3] =
      .ok ((rangeResponse [48] [.between 1 1, .last (-2)] [1, 2, 3]).status, headers) := by
  refine (range_reads_iff [48] [1, 2, 3] (by simp) fun range h => ?_).mpr (.inl fun range h => ?_)
  · rcases List.mem_pair.mp h with rfl | rfl
    · exact ⟨by decide, by decide⟩
    · exact show (-2 : Int) < 0 by decide
  · rcases List.mem_pair.mp h with rfl | rfl
    · exact ⟨by decide, id⟩
    · exact ⟨by decide, show ¬3 < 2 by decide⟩

/-- The last four of three bytes raise, and `bytes=0-9` is refused by a `GET` alone. -/
theorem range_reads_wrong : contentRangeRead [48] [.last (-4)] [1, 2, 3] = .error .badarg ∧
    contentRangeRead [48] [.between 0 9] [1, 2, 3] = .ok ⟨416, notSatisfiable 3, []⟩ ∧
    (contentRangeListCheck [.between 0 9] [1, 2, 3]).map Prod.fst = .ok 206 :=
  ⟨rfl, rfl, rfl⟩

end CloudI.Services.Filesystem
