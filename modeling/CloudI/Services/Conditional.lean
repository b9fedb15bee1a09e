import Mathlib.Data.List.Infix
import CloudI.Services.HttpDate
import CloudI.Services.RangeReads

/-!
# Conditional requests of `cloudi_service_filesystem`

`cache_status` looks at the four conditional headers of a request in one fixed
order. `evaluation` is the status that they are meant to give, and
`conditional_iff` says for which headers the two agree. The range of a `POST`
with an `if-range` date is read with the date of the modification time alone,
without its time of the day, so that no date is equal to it.
-/

namespace CloudI.Services.Filesystem

/-! ## Dates and headers -/

/-- The terms that a modification time is made of. -/
inductive Term
  | integer (n : Nat)
  | triple (t : Triple)
  | pair (a b : Term)
deriving DecidableEq

def DateTime.term (d : DateTime) : Term := .pair (.triple (ofLex d).1) (.triple (ofLex d).2)

/-- `MTimeI`: when the file was modified, and how often at that time. -/
structure MTimeI where
  MTime : DateTime
  I : Nat

def MTimeI.term (m : MTimeI) : Term := .pair m.MTime.term (.integer m.I)

/-- `cloudi_key_value:find/2` -/
abbrev KeyValues := String → Option (List UInt8)

/-- An entity tag is a text in quotation marks. -/
def quoted (tag : List UInt8) : List UInt8 := 34 :: (tag ++ [34])

/-- `binary:match/2`, for a pattern that is not empty -/
def binaryMatch (Subject Pattern : List UInt8) : Bool := decide (Pattern <:+: Subject)

section Status

variable (ETag : List UInt8) (headers : KeyValues) (MTime : DateTime) (InvalidTime : Option DateTime)

/-! ## `cache_status` -/

/-- `(InvalidTime /= undefined) andalso (DateTime > InvalidTime)` -/
def afterInvalid (DateTime : DateTime) : Option Filesystem.DateTime → Bool
  | none => false
  | some InvalidTime => decide (InvalidTime < DateTime)

/-- `(InvalidTime =:= undefined) orelse (DateTime =< InvalidTime)` -/
def untilInvalid (DateTime : DateTime) : Option Filesystem.DateTime → Bool
  | none => true
  | some InvalidTime => decide (DateTime ≤ InvalidTime)

def cacheStatus3 : Except Exn Nat :=
  match headers "if-unmodified-since" with
  | some DateTimeBinary => do
    match ← datetime DateTimeBinary with
    | none => return 200
    | some DateTime => return if MTime ≤ DateTime ∧ untilInvalid DateTime InvalidTime then 412 else 200
  | none => .ok 200

def cacheStatus2 : Except Exn Nat :=
  match headers "if-modified-since" with
  | some DateTimeBinary => do
    match ← datetime DateTimeBinary with
    | none => cacheStatus3 headers MTime InvalidTime
    | some DateTime => return if DateTime < MTime ∨ afterInvalid DateTime InvalidTime then 200 else 304
  | none => cacheStatus3 headers MTime InvalidTime

def cacheStatus1 : Except Exn Nat :=
  match headers "if-match" with
  | none => cacheStatus2 headers MTime InvalidTime
  | some IfMatch =>
    if IfMatch = text "*" then cacheStatus2 headers MTime InvalidTime
    else if binaryMatch IfMatch ETag then cacheStatus2 headers MTime InvalidTime
    else .ok 412

def cacheStatus0 : Except Exn Nat :=
  match headers "if-none-match" with
  | none => cacheStatus1 ETag headers MTime InvalidTime
  | some IfNoneMatch =>
    if IfNoneMatch = text "*" then cacheStatus1 ETag headers MTime InvalidTime
    else if binaryMatch IfNoneMatch ETag then .ok 304
    else cacheStatus1 ETag headers MTime InvalidTime

/-- `cache_status/4` -/
def cacheStatus (m : MTimeI) : Except Exn Nat := cacheStatus0 ETag headers m.MTime InvalidTime

/-! ## What is meant -/

/-- A header with entity tags: it is not there, it is `*`, it lists the tag, or it has other tags only. -/
inductive TagHeader
  | absent
  | any
  | lists
  | other
deriving DecidableEq

def tagHeader : Option (List UInt8) → TagHeader
  | none => .absent
  | some tags => if tags = text "*" then .any else if ETag <:+: tags then .lists else .other

/-- What the parser makes of a header. -/
def dateOf (name : String) : Except Exn (Option DateTime) :=
  match headers name with
  | some binary => datetime binary
  | none => .ok none

/-- The valid date of a header. -/
def dateHeader (name : String) : Option DateTime :=
  match dateOf headers name with
  | .ok date => date
  | .error _ => none

/-- The parser does not raise for the header. -/
def DateReads (name : String) : Prop := ∃ date, dateOf headers name = .ok date

/-- The date is not earlier than the modification time, and not later than the limit of the clock skew. -/
def Fresh (d : DateTime) : Prop := MTime ≤ d ∧ ∀ limit, InvalidTime = some limit → d ≤ limit

instance (d : DateTime) : Decidable (Fresh MTime InvalidTime d) :=
  match h : InvalidTime with
  | none => decidable_of_iff (MTime ≤ d) (by simp [Fresh])
  | some limit => decidable_of_iff (MTime ≤ d ∧ d ≤ limit) (by simp [Fresh])

/-- The precondition of a request that has `if-match`, or `if-unmodified-since` without it, does not hold. -/
def PreconditionFails : Prop :=
  match tagHeader ETag (headers "if-match") with
  | .other => True
  | .absent => ∃ d ∈ dateHeader headers "if-unmodified-since", d < MTime
  | _ => False

/-- The response that the client has is still good. -/
def NotModified : Prop :=
  match tagHeader ETag (headers "if-none-match") with
  | .any | .lists => True
  | .absent => ∃ d ∈ dateHeader headers "if-modified-since", Fresh MTime InvalidTime d
  | .other => False

open Classical in
/-- The evaluation of a conditional request. -/
noncomputable def evaluation : Nat :=
  if PreconditionFails ETag headers MTime then 412
  else if NotModified ETag headers MTime InvalidTime then 304
  else 200

/-! ## The condition -/

/-- The headers for which the order of the source makes no difference, its comparison of `if-unmodified-since` does not
come in, and the parser of the dates that it looks at does not raise. -/
def Agrees : Prop :=
  match tagHeader ETag (headers "if-match") with
  | .other => tagHeader ETag (headers "if-none-match") ≠ .lists
  | _ => ¬PreconditionFails ETag headers MTime ∧ (tagHeader ETag (headers "if-none-match") = .lists ∨
      match dateHeader headers "if-modified-since" with
      | some d => (tagHeader ETag (headers "if-none-match") = .any → Fresh MTime InvalidTime d) ∧
          (tagHeader ETag (headers "if-none-match") = .other → ¬Fresh MTime InvalidTime d)
      | none => DateReads headers "if-modified-since" ∧ DateReads headers "if-unmodified-since" ∧
          tagHeader ETag (headers "if-none-match") ≠ .any ∧
          ∀ d ∈ dateHeader headers "if-unmodified-since", ¬Fresh MTime InvalidTime d)

variable {ETag headers MTime InvalidTime}

/-! ## The status -/

theorem fresh_iff_until {d : DateTime} :
    (MTime ≤ d ∧ untilInvalid d InvalidTime = true) ↔ Fresh MTime InvalidTime d := by
  cases InvalidTime <;> simp [untilInvalid, Fresh]

theorem not_fresh_iff_after {d : DateTime} :
    (d < MTime ∨ afterInvalid d InvalidTime = true) ↔ ¬Fresh MTime InvalidTime d := by
  rw [← fresh_iff_until, not_and_or, not_le, Bool.not_eq_true]
  cases InvalidTime with
  | none => simp [afterInvalid, untilInvalid]
  | some limit => rw [afterInvalid, untilInvalid, decide_eq_true_iff, decide_eq_false_iff_not, not_le]

theorem cacheStatus3_eq : cacheStatus3 headers MTime InvalidTime =
    (dateOf headers "if-unmodified-since").map fun
      | some d => if Fresh MTime InvalidTime d then 412 else 200
      | none => 200 := by
  unfold cacheStatus3 dateOf
  cases headers "if-unmodified-since" with
  | none => rfl
  | some binary =>
    dsimp only
    cases datetime binary with
    | error e => rfl
    | ok date =>
      cases date with
      | none => rfl
      | some d =>
        simp only [fresh_iff_until]
        rfl

theorem cacheStatus2_eq : cacheStatus2 headers MTime InvalidTime = dateOf headers "if-modified-since" >>= fun
    | some d => .ok (if Fresh MTime InvalidTime d then 304 else 200)
    | none => cacheStatus3 headers MTime InvalidTime := by
  unfold cacheStatus2 dateOf
  cases headers "if-modified-since" with
  | none => rfl
  | some binary =>
    dsimp only
    cases datetime binary with
    | error e => rfl
    | ok date =>
      cases date with
      | none => rfl
      | some d =>
        simp only [not_fresh_iff_after, ite_not]
        rfl

theorem cacheStatus1_eq : cacheStatus1 ETag headers MTime InvalidTime =
    if tagHeader ETag (headers "if-match") = .other then .ok 412
    else cacheStatus2 headers MTime InvalidTime := by
  unfold cacheStatus1 tagHeader binaryMatch
  cases headers "if-match" with
  | none => rfl
  | some tags =>
    dsimp only
    split_ifs <;> simp_all

theorem cacheStatus0_eq : cacheStatus0 ETag headers MTime InvalidTime =
    if tagHeader ETag (headers "if-none-match") = .lists then .ok 304
    else cacheStatus1 ETag headers MTime InvalidTime := by
  unfold cacheStatus0 tagHeader binaryMatch
  cases headers "if-none-match" with
  | none => rfl
  | some tags =>
    dsimp only
    split_ifs <;> simp_all

/-- Other tags than the entity tag in `if-match`. -/
theorem cacheStatus_other (h : tagHeader ETag (headers "if-match") = .other) :
    cacheStatus0 ETag headers MTime InvalidTime = .ok (evaluation ETag headers MTime InvalidTime) ↔
      tagHeader ETag (headers "if-none-match") ≠ .lists := by
  have hfails : PreconditionFails ETag headers MTime := by
    rw [PreconditionFails, h]
    trivial
  rw [evaluation, if_pos hfails, cacheStatus0_eq, cacheStatus1_eq, if_pos h]
  split_ifs with hlists
  · simp [hlists]
  · simp [hlists]

/-- A date before the modification time is never fresh. -/
theorem PreconditionFails.stale (hfails : PreconditionFails ETag headers MTime)
    (h : tagHeader ETag (headers "if-match") ≠ .other) {d : DateTime}
    (hd : dateHeader headers "if-unmodified-since" = some d) : ¬Fresh MTime InvalidTime d := by
  intro hfresh
  rw [PreconditionFails] at hfails
  split at hfails
  · exact h ‹_›
  · obtain ⟨d', hd', hlt⟩ := hfails
    cases hd.symm.trans hd'
    exact absurd hfresh.1 (not_le.mpr hlt)
  · exact hfails

/-- Any other `if-match`: the precondition has to hold, and then the dates decide. -/
theorem cacheStatus_dates (h : tagHeader ETag (headers "if-match") ≠ .other) :
    cacheStatus0 ETag headers MTime InvalidTime = .ok (evaluation ETag headers MTime InvalidTime) ↔
      ¬PreconditionFails ETag headers MTime ∧ (tagHeader ETag (headers "if-none-match") = .lists ∨
        match dateHeader headers "if-modified-since" with
        | some d => (tagHeader ETag (headers "if-none-match") = .any → Fresh MTime InvalidTime d) ∧
            (tagHeader ETag (headers "if-none-match") = .other → ¬Fresh MTime InvalidTime d)
        | none => DateReads headers "if-modified-since" ∧ DateReads headers "if-unmodified-since" ∧
            tagHeader ETag (headers "if-none-match") ≠ .any ∧
            ∀ d ∈ dateHeader headers "if-unmodified-since", ¬Fresh MTime InvalidTime d) := by
  rw [evaluation, cacheStatus0_eq, cacheStatus1_eq, if_neg h, cacheStatus2_eq, cacheStatus3_eq]
  by_cases hfails : PreconditionFails ETag headers MTime
  · have hstale {d : DateTime} (hd : dateHeader headers "if-unmodified-since" = some d) :
        ¬Fresh MTime InvalidTime d := hfails.stale h hd
    rw [if_pos hfails]
    refine iff_of_false ?_ fun hn => hn.1 hfails
    split_ifs
    · simp
    · unfold dateHeader at hstale
      match hm : dateOf headers "if-modified-since", hu : dateOf headers "if-unmodified-since" with
      | .error _, _ => nofun
      | .ok (some d), _ =>
        show ¬Except.ok (if _ then _ else _) = _
        split_ifs <;> simp
      | .ok none, .error _ => nofun
      | .ok none, .ok none => nofun
      | .ok none, .ok (some d) =>
        show ¬Except.ok (if _ then _ else _) = _
        rw [if_neg (hstale (by rw [hu]))]
        nofun
  · rw [if_neg hfails, and_iff_right hfails]
    unfold NotModified dateHeader DateReads
    match hm : dateOf headers "if-modified-since", hu : dateOf headers "if-unmodified-since" with
    | .error _, _ => cases htag : tagHeader ETag (headers "if-none-match") <;> simp [bind, Except.bind]
    | .ok (some d), _ =>
      by_cases hf : Fresh MTime InvalidTime d <;>
        cases htag : tagHeader ETag (headers "if-none-match") <;> simp [hf, bind, Except.bind]
    | .ok none, .error _ =>
      cases htag : tagHeader ETag (headers "if-none-match") <;> simp [bind, Except.bind, Except.map]
    | .ok none, .ok none =>
      cases htag : tagHeader ETag (headers "if-none-match") <;> simp [bind, Except.bind, Except.map]
    | .ok none, .ok (some d) =>
      by_cases hf : Fresh MTime InvalidTime d <;>
        cases htag : tagHeader ETag (headers "if-none-match") <;> simp [hf, bind, Except.bind, Except.map]

theorem cacheStatus_iff : cacheStatus0 ETag headers MTime InvalidTime =
    .ok (evaluation ETag headers MTime InvalidTime) ↔ Agrees ETag headers MTime InvalidTime := by
  unfold Agrees
  split
  · exact cacheStatus_other ‹_›
  · exact cacheStatus_dates ‹_›

end Status

/-! ## `if-range` -/

section IfRange

variable {Id : Type} [LinearOrder Id] (rangeParse : List UInt8 → Option (List UInt8 × List Range)) (ETag : List UInt8)
  (headers : KeyValues)

/-- `contents_ranges_read_1/4` -/
def contentsRangesRead1 (RangeList : List Range) (MTime : Term) : Except Exn RangesRead :=
  match headers "if-range" with
  | some IfRangeData =>
    if IfRangeData = ETag then .ok (.ranges RangeList)
    else do
      match ← datetime IfRangeData with
      | none => return .error 410
      | some DateTime => return if DateTime.term = MTime then .ranges RangeList else .error 410
  | none => .ok (.ranges RangeList)

/-- `contents_ranges_read_0/3`, where `rangeParse` is `range/1` of `cloudi_service_filesystem_parse`, or `none` for its
error. The list of ranges may be empty. -/
def contentsRangesRead0 (MTime : Term) : Except Exn RangesRead :=
  match headers "range" with
  | some RangeData =>
    match rangeParse RangeData with
    | none => .ok (.error 400)
    | some (unit, RangeList) =>
      if unit = text "bytes" then contentsRangesRead1 ETag headers RangeList MTime else .ok (.error 416)
  | none => .ok .none

/-- `contents_ranges_read/3` -/
def contentsRangesRead : Term → Except Exn RangesRead
  | .pair MTime _ => contentsRangesRead0 rangeParse ETag headers MTime
  | _ => .error .functionClause

/-- `contents_ranges_append/3`, which reads the ranges with the first element of its `MTimeI`. -/
def contentsRangesAppendHeaders (p : Post Id) : Term → Except Exn (Except Nat (Range × WithBot Id × Bool × Int))
  | .pair MTime _ => contentsRangesAppend { p with ranges := contentsRangesRead rangeParse ETag headers MTime }
  | _ => .error .functionClause

/-- The headers `range`, for bytes, and `if-range` with the modification time. -/
def IfRangeDate (MTime : DateTime) (range : Range) (RangeList : List Range) : Prop :=
  (headers "range").bind rangeParse = some (text "bytes", range :: RangeList) ∧
    dateHeader headers "if-range" = some MTime

variable (Id) in
/-- With such headers a `GET` and a `POST` both have the ranges, whatever the other headers of the `POST` are. -/
def Alike (m : MTimeI) : Prop :=
  ∀ range RangeList, IfRangeDate rangeParse headers m.MTime range RangeList →
    contentsRangesRead rangeParse ETag headers m.term = .ok (.ranges (range :: RangeList)) ∧
    ∀ p : Post Id, contentsRangesAppendHeaders rangeParse ETag headers p m.term =
      contentsRangesAppend { p with ranges := .ok (.ranges (range :: RangeList)) }

variable {rangeParse ETag headers}

theorem dateHeader_eq_some {name : String} {d : DateTime} (h : dateHeader headers name = some d) :
    ∃ binary, headers name = some binary ∧ datetime binary = .ok (some d) := by
  unfold dateHeader dateOf at h
  cases hb : headers name with
  | none =>
    rw [hb] at h
    cases h
  | some binary =>
    rw [hb] at h
    dsimp only at h
    split at h
    · subst h
      exact ⟨binary, rfl, ‹_›⟩
    · cases h

theorem contentsRangesRead_date {m : MTimeI} {range : Range} {RangeList : List Range}
    (h : IfRangeDate rangeParse headers m.MTime range RangeList) :
    contentsRangesRead rangeParse ETag headers m.term = .ok (.ranges (range :: RangeList)) := by
  obtain ⟨hrange, hdate⟩ := h
  obtain ⟨RangeData, hdata, hparse⟩ := Option.bind_eq_some_iff.mp hrange
  obtain ⟨IfRangeData, hif, hdatetime⟩ := dateHeader_eq_some hdate
  rw [MTimeI.term, contentsRangesRead, contentsRangesRead0, hdata]
  dsimp only
  rw [hparse]
  dsimp only
  rw [if_pos rfl, contentsRangesRead1, hif]
  dsimp only
  rw [bind_ok hdatetime]
  dsimp only
  rw [if_pos rfl]
  exact ite_self _

/-- No date is equal to the date without its time, and only the entity tag has the ranges. -/
theorem contentsRangesAppend_date {m : MTimeI} {p : Post Id} {range : Range} {RangeList : List Range}
    (h : IfRangeDate rangeParse headers m.MTime range RangeList) :
    contentsRangesAppendHeaders rangeParse ETag headers p m.term = contentsRangesAppend { p with
      ranges := .ok (if headers "if-range" = some ETag then .ranges (range :: RangeList) else .error 410) } := by
  obtain ⟨hrange, hdate⟩ := h
  obtain ⟨RangeData, hdata, hparse⟩ := Option.bind_eq_some_iff.mp hrange
  obtain ⟨IfRangeData, hif, hdatetime⟩ := dateHeader_eq_some hdate
  have hread : contentsRangesRead rangeParse ETag headers m.MTime.term =
      .ok (if headers "if-range" = some ETag then .ranges (range :: RangeList) else .error 410) := by
    rw [DateTime.term, contentsRangesRead, contentsRangesRead0, hdata]
    dsimp only
    rw [hparse]
    dsimp only
    rw [if_pos rfl, contentsRangesRead1, hif]
    dsimp only
    rw [bind_ok hdatetime]
    dsimp only
    rw [DateTime.term, if_neg (show ¬Term.pair _ _ = Term.triple _ from nofun)]
    simp only [Option.some.injEq]
    split <;> rfl
  rw [MTimeI.term, contentsRangesAppendHeaders, hread]

/-- An error status is none of the results for ranges that a request has. -/
theorem contentsRangesAppend_ne {p : Post Id} (hlast : p.last = none) (hindex : p.index = none) {range : Range}
    {RangeList : List Range} : contentsRangesAppend { p with ranges := .ok (.error 410) } ≠
      contentsRangesAppend { p with ranges := .ok (.ranges (range :: RangeList)) } := by
  intro h
  unfold contentsRangesAppend Post.readLast Post.readIndex at h
  simp only [hlast, hindex] at h
  cases RangeList with
  | nil => cases h
  | cons r RangeList => cases h

theorem alike_iff {m : MTimeI} : Alike Id rangeParse ETag headers m ↔
    ((∃ range RangeList, IfRangeDate rangeParse headers m.MTime range RangeList) →
      headers "if-range" = some ETag) := by
  constructor
  · rintro h ⟨range, RangeList, hdate⟩
    have happend := (h range RangeList hdate).2 ⟨⊥, none, none, .ok .none, [], 0, .ok⟩
    rw [contentsRangesAppend_date hdate] at happend
    by_contra hne
    rw [if_neg hne] at happend
    exact contentsRangesAppend_ne rfl rfl happend
  · intro h range RangeList hdate
    refine ⟨contentsRangesRead_date hdate, fun p => ?_⟩
    rw [contentsRangesAppend_date hdate, if_pos (h ⟨range, RangeList, hdate⟩)]

end IfRange

/-- The first of January 2015 at noon. -/
def newYear : DateTime := toLex (triple 2015 1 1, triple 12 0 0)

/-- `if-none-match: *` alone. -/
def starOnly : KeyValues := fun name => if name = "if-none-match" then some (text "*") else none

/-- `if-modified-since` alone, with a date whose time is no time. -/
def noTime : KeyValues := fun name =>
  if name = "if-modified-since" then some (text "Thu, 01 Jan 2015 noon GMT") else none

end CloudI.Services.Filesystem
