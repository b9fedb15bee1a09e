import CloudI.Services.RangeReads

/-!
# Range appends of `cloudi_service_filesystem`

`request_append_file` puts the parts into the contents one after another.
`Part.Puts` is what a part is meant to do: its request stands at its start, and
every byte outside its range stays where it is. `range_appends_iff` says when
all the parts do so. A suffix that is longer than the contents raises, and a
request that is not as long as its range moves the bytes behind the range.
-/

namespace CloudI.Services.Filesystem

/-! ## What a part is meant to do -/

/-- A part without a range, or with one that a header can have. -/
def Part.WellFormed (part : Part) : Prop := part.range = .undefined ∨ part.range.WellFormed

/-- The start and the end of a part, at the end of the contents where it has no range. -/
def Part.positions (ContentLength : Nat) (part : Part) : Int × Int :=
  match part.range with
  | .undefined => (ContentLength, ContentLength + part.request.length - 1)
  | .last I => (ContentLength + I, ContentLength + I + part.request.length - 1)
  | .infinity I => (I, I + part.request.length - 1)
  | .between IStart IEnd => (IStart, IEnd)

/-- The request stands at the start, the bytes outside the range stay where they are, zero bytes fill a gap behind the
contents, and there is nothing else. -/
structure Placed (Contents Request : List UInt8) (Start : Nat) (End : Int) (NewContents : List UInt8) : Prop where
  request : ∀ i < Request.length, NewContents[Start + i]? = Request[i]?
  kept : ∀ i < Contents.length, (i < Start ∨ End < i) → NewContents[i]? = Contents[i]?
  gap : ∀ i < Start, Contents.length ≤ i → NewContents[i]? = some 0
  only : ∀ i < NewContents.length, (Start ≤ i ∧ i < Start + Request.length) ∨
    (i < Contents.length ∧ (i < Start ∨ End < i)) ∨ (Contents.length ≤ i ∧ i < Start)

def Part.Puts (Contents : List UInt8) (part : Part) (NewContents : List UInt8) : Prop :=
  0 ≤ (part.positions Contents.length).1 ∧ Placed Contents part.request (part.positions Contents.length).1.toNat
    (part.positions Contents.length).2 NewContents

/-- The contents after the parts, each of which does what it is meant to. -/
def Applied : List UInt8 → List Part → List UInt8 → Prop
  | Contents, [], NewContents => NewContents = Contents
  | Contents, part :: parts, NewContents => ∃ NextContents, part.writeTo Contents = .ok (some NextContents) ∧
      part.Puts Contents NextContents ∧ Applied NextContents parts NewContents

/-! ## The condition -/

/-- The range ends before it starts. -/
def Part.Refused (ContentLength : Nat) (part : Part) : Prop :=
  part.range ≠ .undefined ∧ (part.positions ContentLength).2 < (part.positions ContentLength).1

/-- The range starts before the contents. -/
def Part.Before (ContentLength : Nat) (part : Part) : Prop :=
  (part.positions ContentLength).1 < 0 ∧ (part.positions ContentLength).1 ≤ (part.positions ContentLength).2

/-- The request is as long as the range, or nothing stands behind the range. -/
def Part.Whole (ContentLength : Nat) (part : Part) : Prop :=
  part.request.length = (part.positions ContentLength).2 - (part.positions ContentLength).1 + 1 ∨
    ContentLength ≤ (part.positions ContentLength).2 + 1

/-- The length of the contents after a part. -/
def Part.lengthAfter (ContentLength : Nat) (part : Part) : Nat :=
  (part.positions ContentLength).1.toNat + part.request.length +
    (ContentLength - ((part.positions ContentLength).2 + 1)).toNat

/-- Some part is refused. -/
def SomeRefused : Nat → List Part → Prop
  | _, [] => False
  | ContentLength, part :: parts => part.Refused ContentLength ∨ SomeRefused (part.lengthAfter ContentLength) parts

/-- No part starts before the contents, up to the first one that is refused. -/
def NoneBefore : Nat → List Part → Prop
  | _, [] => True
  | ContentLength, part :: parts => ¬part.Before ContentLength ∧
    (part.Refused ContentLength ∨ NoneBefore (part.lengthAfter ContentLength) parts)

def AllWhole : Nat → List Part → Prop
  | _, [] => True
  | ContentLength, part :: parts => part.Whole ContentLength ∧ AllWhole (part.lengthAfter ContentLength) parts

/-! ## One part -/

variable {Contents Request NewContents : List UInt8} {part : Part}

theorem Part.writeTo_positions (Contents : List UInt8) (hw : part.WellFormed) (hr : part.range ≠ .undefined) :
    part.writeTo Contents = writeAt Contents part.request (part.positions Contents.length).1
      (part.positions Contents.length).2 := by
  have hwr := hw.resolve_left hr
  obtain ⟨range, request⟩ := part
  cases range with
  | undefined => exact absurd rfl hr
  | last I =>
    have hI : I < 0 := hwr
    rw [Part.writeTo, Part.bounds]
    dsimp only
    rw [if_pos hI]
    rfl
  | infinity I =>
    have hI : 0 ≤ I := hwr
    rw [Part.writeTo, Part.bounds]
    dsimp only
    rw [if_neg (by omega)]
    rfl
  | between IStart IEnd =>
    have hI : 0 ≤ IStart := hwr.1
    rw [Part.writeTo, Part.bounds]
    dsimp only
    rw [if_neg (by omega)]
    rfl

/-- A request in the place of a range within the contents. -/
theorem placed_within {Start End : Nat} (hle : Start ≤ End) (hlt : End < Contents.length) :
    Placed Contents Request Start End (Contents.take Start ++ Request ++ Contents.drop (End + 1)) ↔
      (Request.length = (End : Int) - Start + 1 ∨ (Contents.length : Int) ≤ End + 1) := by
  have htake : (Contents.take Start).length = Start := by rw [List.length_take]; omega
  have hlen : (Contents.take Start ++ Request ++ Contents.drop (End + 1)).length =
      Start + Request.length + (Contents.length - (End + 1)) := by
    rw [List.length_append, List.length_append, htake, List.length_drop]
  constructor
  · intro h
    by_contra hn
    rcases Nat.lt_or_ge Request.length (End - Start + 1) with hshort | hlong
    · -- the last byte is not where it was
      have hlast := h.kept (Contents.length - 1) (by omega) (.inr (by omega))
      rw [List.getElem?_eq_none (by rw [hlen]; omega), List.getElem?_eq_getElem (by omega)] at hlast
      cases hlast
    · -- there is a byte more than there were
      have := h.only (Contents.length + (Request.length - (End - Start + 1)) - 1) (by rw [hlen]; omega)
      omega
  · intro hfits
    refine ⟨fun i hi => ?_, fun i hi hout => ?_, fun i hi hgap => ?_, fun i hi => ?_⟩
    · rw [List.append_assoc, List.getElem?_append_right (by omega), htake, Nat.add_sub_cancel_left,
        List.getElem?_append_left hi]
    · by_cases hbefore : i < Start
      · rw [List.append_assoc, List.getElem?_append_left (by omega), List.getElem?_take_of_lt hbefore]
      · rw [List.getElem?_append_right (by rw [List.length_append, htake]; omega), List.length_append, htake,
          List.getElem?_drop]
        congr 1
        omega
    · omega
    · rw [hlen] at hi
      omega

/-- A request whose range goes to the end of the contents, or behind it. -/
theorem placed_end (Request : List UInt8) {Start : Nat} {End : Int} (hle : Start ≤ Contents.length)
    (hend : (Contents.length : Int) ≤ End + 1) :
    Placed Contents Request Start End (Contents.take Start ++ Request) := by
  have htake : (Contents.take Start).length = Start := by rw [List.length_take]; omega
  refine ⟨fun i hi => ?_, fun i hi hout => ?_, fun i hi hgap => ?_, fun i hi => ?_⟩
  · rw [List.getElem?_append_right (by omega), htake, Nat.add_sub_cancel_left]
  · rw [List.getElem?_append_left (by omega), List.getElem?_take_of_lt (by omega)]
  · omega
  · rw [List.length_append, htake] at hi
    omega

/-- A request behind the contents. -/
theorem placed_gap {Start : Nat} {End : Int} (hlt : Contents.length < Start) :
    Placed Contents Request Start End
      (Contents ++ List.replicate (Start - Contents.length) 0 ++ Request) := by
  have hlen : (Contents ++ List.replicate (Start - Contents.length) (0 : UInt8)).length = Start := by
    rw [List.length_append, List.length_replicate]
    omega
  refine ⟨fun i hi => ?_, fun i hi _ => ?_, fun i hi hgap => ?_, fun i hi => ?_⟩
  · rw [List.getElem?_append_right (by omega), hlen, Nat.add_sub_cancel_left]
  · rw [List.append_assoc, List.getElem?_append_left hi]
  · rw [List.getElem?_append_left (by omega), List.getElem?_append_right hgap,
      List.getElem?_replicate_of_lt (by omega)]
  · rw [List.length_append, hlen] at hi
    omega

/-- A part that starts before the contents raises, and one that ends before it starts is refused. Any other one is
written, with the length that the positions give, and does what it is meant to exactly if it is whole. -/
theorem Part.writeTo_spec (Contents : List UInt8) (hw : part.WellFormed) :
    (part.Before Contents.length → part.writeTo Contents = .error .badmatch) ∧
    (¬part.Before Contents.length → part.Refused Contents.length → part.writeTo Contents = .ok none) ∧
    (¬part.Before Contents.length → ¬part.Refused Contents.length → ∃ NewContents,
      part.writeTo Contents = .ok (some NewContents) ∧ NewContents.length = part.lengthAfter Contents.length ∧
        (part.Puts Contents NewContents ↔ part.Whole Contents.length)) := by
  by_cases hr : part.range = .undefined
  · have hpos : part.positions Contents.length =
        ((Contents.length : Int), (Contents.length : Int) + part.request.length - 1) := by
      rw [Part.positions, hr]
    refine ⟨fun hb => ?_, fun _ h => absurd hr h.1, fun _ _ => ⟨Contents ++ part.request, ?_, ?_, ?_⟩⟩
    · rw [Part.Before, hpos] at hb
      omega
    · rw [Part.writeTo, hr]
    · rw [Part.lengthAfter, hpos, List.length_append]
      dsimp only
      omega
    · rw [Part.Puts, Part.Whole, hpos]
      refine iff_of_true ⟨Int.natCast_nonneg _, ?_⟩ (.inl (by omega))
      rw [Int.toNat_natCast]
      have hplaced := placed_end part.request (Nat.le_refl Contents.length)
        (show (Contents.length : Int) ≤ Contents.length + part.request.length - 1 + 1 by omega)
      rwa [List.take_length] at hplaced
  · have hwrite := Part.writeTo_positions Contents hw hr
    unfold Part.Before Part.Refused Part.Puts Part.Whole Part.lengthAfter
    generalize part.positions Contents.length = p at hwrite
    obtain ⟨Start, End⟩ := p
    rw [hwrite]
    dsimp only
    refine ⟨fun ⟨h0, hle⟩ => ?_, fun _ h => ?_, fun hb hn => ?_⟩
    · rw [writeAt, if_pos hle, if_pos h0, if_pos h0, if_pos (show Start < Contents.length by omega), ite_self]
    · rw [writeAt, if_neg (by omega)]
    · have hle : Start ≤ End := by
        by_contra hlt
        exact hn ⟨hr, by omega⟩
      obtain ⟨start, rfl⟩ := Int.eq_ofNat_of_zero_le (show 0 ≤ Start by omega)
      obtain ⟨last, rfl⟩ := Int.eq_ofNat_of_zero_le (show 0 ≤ End by omega)
      have hnot : ¬(start : Int) < 0 := by omega
      rw [writeAt, if_pos hle, if_neg hnot, if_neg hnot]
      simp only [Int.toNat_natCast]
      rcases Nat.lt_or_ge last Contents.length with hlast | hlast
      · rw [if_pos (by omega)]
        refine ⟨_, rfl, ?_, ?_⟩
        · simp only [List.length_append, List.length_take, List.length_drop]
          omega
        · exact (and_iff_right (Int.natCast_nonneg _)).trans (placed_within (by omega) hlast)
      · rw [if_neg (by omega)]
        rcases Nat.lt_trichotomy start Contents.length with hstart | hstart | hstart
        · rw [if_pos (by omega)]
          refine ⟨_, rfl, ?_, ?_⟩
          · simp only [List.length_append, List.length_take]
            omega
          · exact iff_of_true ⟨Int.natCast_nonneg _, placed_end _ (by omega) (by omega)⟩ (.inr (by omega))
        · subst hstart
          rw [if_neg (by omega), if_pos rfl]
          refine ⟨_, rfl, ?_, ?_⟩
          · rw [List.length_append]
            omega
          · refine iff_of_true ⟨Int.natCast_nonneg _, ?_⟩ (.inr (by omega))
            have hplaced := placed_end part.request (Nat.le_refl Contents.length)
              (show (Contents.length : Int) ≤ (last : Int) + 1 by omega)
            rwa [List.take_length] at hplaced
        · rw [if_neg (by omega), if_neg (by omega)]
          refine ⟨_, rfl, ?_, ?_⟩
          · simp only [List.length_append, List.length_replicate]
            omega
          · exact iff_of_true ⟨Int.natCast_nonneg _, placed_gap hstart⟩ (.inr (by omega))

/-! ## All the parts -/

variable {parts : List Part}

theorem writeParts_before (hw : ∀ part ∈ parts, part.WellFormed) (h : ¬NoneBefore Contents.length parts) :
    writeParts Contents parts = .error .badmatch := by
  induction parts generalizing Contents with
  | nil => exact absurd trivial h
  | cons part parts ih =>
    obtain ⟨hbefore, -, hwritten⟩ := Part.writeTo_spec Contents (hw part List.mem_cons_self)
    rw [writeParts]
    by_cases hb : part.Before Contents.length
    · rw [hbefore hb]
      rfl
    · have hr : ¬part.Refused Contents.length := fun hr => h ⟨hb, .inl hr⟩
      obtain ⟨NewContents, hwrite, hlen, -⟩ := hwritten hb hr
      rw [bind_ok hwrite]
      refine ih (fun p hp => hw p (List.mem_cons_of_mem _ hp)) fun hrest => h ⟨hb, .inr ?_⟩
      rwa [hlen] at hrest

theorem writeParts_refused (hw : ∀ part ∈ parts, part.WellFormed) (h : NoneBefore Contents.length parts)
    (hr : SomeRefused Contents.length parts) : writeParts Contents parts = .ok none := by
  induction parts generalizing Contents with
  | nil => cases hr
  | cons part parts ih =>
    obtain ⟨hb, hrest⟩ := h
    obtain ⟨-, hrefused, hwritten⟩ := Part.writeTo_spec Contents (hw part List.mem_cons_self)
    rw [writeParts]
    by_cases hpr : part.Refused Contents.length
    · rw [bind_ok (hrefused hb hpr)]
      rfl
    · obtain ⟨NewContents, hwrite, hlen, -⟩ := hwritten hb hpr
      rw [bind_ok hwrite]
      refine ih (fun p hp => hw p (List.mem_cons_of_mem _ hp)) ?_ ?_
      · rw [hlen]
        exact hrest.resolve_left hpr
      · rw [hlen]
        exact hr.resolve_left hpr

theorem writeParts_written (hw : ∀ part ∈ parts, part.WellFormed) (h : NoneBefore Contents.length parts)
    (hr : ¬SomeRefused Contents.length parts) :
    ∃ NewContents, writeParts Contents parts = .ok (some NewContents) ∧
      (Applied Contents parts NewContents ↔ AllWhole Contents.length parts) := by
  induction parts generalizing Contents with
  | nil => exact ⟨Contents, rfl, ⟨fun _ => trivial, fun _ => rfl⟩⟩
  | cons part parts ih =>
    obtain ⟨hb, hrest⟩ := h
    obtain ⟨hpr, hrr⟩ := not_or.mp hr
    obtain ⟨-, -, hwritten⟩ := Part.writeTo_spec Contents (hw part List.mem_cons_self)
    obtain ⟨NextContents, hwrite, hlen, hputs⟩ := hwritten hb hpr
    obtain ⟨NewContents, hnew, happlied⟩ := @ih NextContents
      (fun p hp => hw p (List.mem_cons_of_mem _ hp)) (by rw [hlen]; exact hrest.resolve_left hpr)
      (by rw [hlen]; exact hrr)
    refine ⟨NewContents, ?_, ?_⟩
    · rw [writeParts, bind_ok hwrite]
      exact hnew
    · rw [AllWhole, ← hputs, ← hlen, ← happlied]
      constructor
      · rintro ⟨NextContents', hwrite', hputs', happlied'⟩
        cases hwrite.symm.trans hwrite'
        exact ⟨hputs', happlied'⟩
      · rintro ⟨hputs', happlied'⟩
        exact ⟨NextContents, hwrite, hputs', happlied'⟩

variable {Id Notify : Type}

/-- The reply is 416 or 400 with everything as it was, or the parts are written in their order. -/
def Appends (parts : List Part) (file : File Id Notify) (outcome : Outcome) (s : State Id Notify) : Prop :=
  (∃ status, (status = 416 ∨ status = 400) ∧ requestAppendFile parts file outcome s = .ok (.writeRefused status, s)) ∨
    ∃ NewContents, Applied file.contents parts NewContents ∧
      requestAppendFile parts file outcome s = .ok (.written parts NewContents,
        { s with files := fileRefresh file.fileName { file with contents := NewContents } s.files })

/-- A part that starts before the contents raises, one that is not whole moves the bytes behind its range, and a write
that fails has the status 500. -/
theorem range_appends_iff {parts : List Part} (hw : ∀ part ∈ parts, part.WellFormed) (file : File Id Notify)
    (outcome : Outcome) (s : State Id Notify) :
    Appends parts file outcome s ↔ NoneBefore file.contents.length parts ∧
      (SomeRefused file.contents.length parts ∨ outcome = .excluded ∨
        (outcome = .ok ∧ AllWhole file.contents.length parts)) := by
  unfold Appends
  by_cases hn : NoneBefore file.contents.length parts
  swap
  · -- raised
    have hraise : requestAppendFile parts file outcome s = .error .badmatch := by
      rw [requestAppendFile, writeParts_before hw hn]
      rfl
    refine iff_of_false ?_ fun h => hn h.1
    rintro (⟨_, _, h⟩ | ⟨_, _, h⟩)
    · cases hraise.symm.trans h
    · cases hraise.symm.trans h
  rw [and_iff_right hn]
  by_cases hr : SomeRefused file.contents.length parts
  · refine iff_of_true (.inl ⟨416, .inl rfl, ?_⟩) (.inl hr)
    rw [requestAppendFile, bind_ok (writeParts_refused hw hn hr)]
    rfl
  rw [or_iff_right hr]
  obtain ⟨NewContents, hwrite, hiff⟩ := writeParts_written hw hn hr
  cases outcome with
  | excluded =>
    refine iff_of_true (.inl ⟨400, .inr rfl, ?_⟩) (.inl rfl)
    rw [requestAppendFile, bind_ok hwrite]
    rfl
  | failed =>
    have hfailed : requestAppendFile parts file .failed s = .ok (.writeRefused 500, s) := by
      rw [requestAppendFile, bind_ok hwrite]
      rfl
    refine iff_of_false ?_ (by simp)
    rintro (⟨status, hstatus, h⟩ | ⟨_, _, h⟩)
    · cases hfailed.symm.trans h
      omega
    · cases hfailed.symm.trans h
  | ok =>
    have hok : requestAppendFile parts file .ok s = .ok (.written parts NewContents,
        { s with files := fileRefresh file.fileName { file with contents := NewContents } s.files }) := by
      rw [requestAppendFile, bind_ok hwrite]
      rfl
    constructor
    · rintro (⟨_, _, h⟩ | ⟨NewContents', happlied, h⟩)
      · cases hok.symm.trans h
      · have heq := congrArg (Except.map Prod.fst) (hok.symm.trans h)
        cases heq
        exact .inr ⟨rfl, hiff.mp happlied⟩
    · rintro (h | ⟨_, h⟩)
      · cases h
      · exact .inr ⟨NewContents, hiff.mpr h, hok⟩

/-- A file with three bytes, and a service without any. -/
def threeBytes : File Nat Unit := ⟨[1, 2, 3], ["a"], true, [], [.append], [], none⟩

def noFiles : State Nat Unit := ⟨fun _ => none, true, true, Timers.new⟩

/-- A byte in the place of the second one, and then two bytes from the last one on. -/
theorem range_appends_iff_second : Appends [⟨.between 1 1, [9]⟩, ⟨.last (-1), [7, 8]⟩] threeBytes .ok noFiles := by
  refine (range_appends_iff (fun part h => ?_) threeBytes .ok noFiles).mpr
    ⟨⟨fun h => absurd h.1 (by decide), .inr ⟨fun h => absurd h.1 (by decide), .inr trivial⟩⟩,
        .inr (.inr ⟨rfl, .inl rfl, .inl rfl, trivial⟩)⟩
  rcases List.mem_pair.mp h with rfl | rfl
  · exact .inr ⟨by decide, by decide⟩
  · exact .inr (show (-1 : Int) < 0 by decide)

/-- A byte for the last four raises, and two bytes in the place of the first one move the others. -/
theorem range_appends_wrong :
    requestAppendFile [⟨.last (-4), [9]⟩] threeBytes .ok noFiles = .error .badmatch ∧
    ¬Appends [⟨.between 0 0, [9, 9]⟩] threeBytes .ok noFiles := by
  refine ⟨rfl, ?_⟩
  have hok : requestAppendFile [⟨.between 0 0, [9, 9]⟩] threeBytes .ok noFiles =
      .ok (.written [⟨.between 0 0, [9, 9]⟩] [9, 9, 2, 3], { noFiles with
        files := fileRefresh ["a"] { threeBytes with contents := [9, 9, 2, 3] } noFiles.files }) := rfl
  rintro (⟨_, _, h⟩ | ⟨NewContents, ⟨NextContents, hwrite, ⟨-, hplaced⟩, -⟩, h⟩)
  · cases hok.symm.trans h
  · have hnext : Except.ok (some [9, 9, 2, 3]) = Except.ok (some NextContents) :=
      (show Part.writeTo [1, 2, 3] ⟨.between 0 0, [9, 9]⟩ = .ok (some [9, 9, 2, 3]) from rfl).symm.trans hwrite
    cases hnext
    exact absurd (hplaced.kept 1 (by decide) (.inr (by decide))) (by decide)

end CloudI.Services.Filesystem
