import CloudI.Framework.Dict
import CloudI.Framework.Lists
import CloudI.Framework.Timers
import Mathlib.Data.List.Lex
import Mathlib.Data.Prod.Lex
import Mathlib.Order.WithBot

/-!
# The files of `cloudi_service_filesystem`

The service keeps a record of each file under all the names of the file. A
`POST` of a part of a multipart request puts the part into the record under the
name with `/post` alone, and starts a timer with the first one. The requests
that change a file (`file_refresh`) put their own copy of the record under all
the names.

The sizes of the files, the headers of a response and the ranges of `GET` are
left out. Whether the file system and the limit of the size let a write pass is
given with the request.
-/

namespace CloudI.Services.Filesystem

/-! ## Names -/

inductive Suffix
  | options
  | head
  | get
  | put
  | post
deriving DecidableEq

/-- What stands before the suffix: the name of a file, by its parts, or the directory of an index file. -/
inductive Stem
  | file (FileName : List String)
  | root (SuffixRead : List String)
deriving DecidableEq

/-- The name of a service, behind the prefix. -/
structure Name where
  stem : Stem
  suffix : Suffix
deriving DecidableEq

/-- `service_name_suffix_read_root/1` -/
def serviceNameSuffixReadRoot (FileName : List String) : Option (List String) :=
  match FileName.getLast? with
  | some "index.htm" | some "index.html" => some FileName.dropLast
  | _ => none

def serviceNameSuffixOptions (stem : Stem) : Name := ⟨stem, .options⟩

def serviceNameSuffixHeader (stem : Stem) : Name := ⟨stem, .head⟩

def serviceNameSuffixRead (stem : Stem) : Name := ⟨stem, .get⟩

def serviceNameSuffixWriteTruncate (stem : Stem) : Name := ⟨stem, .put⟩

def serviceNameSuffixWriteAppend (stem : Stem) : Name := ⟨stem, .post⟩

/-! ## Parts -/

/-- The range of a part. -/
inductive Range
  | undefined
  | last (I : Int)
  | infinity (I : Int)
  | between (IStart IEnd : Int)

/-- Ranges in the order of terms: a number, the atom, and the pairs. -/
def Range.key : Range → ℕ ×ₗ ℤ ×ₗ WithTop ℤ
  | last I => toLex (0, toLex (I, ⊤))
  | undefined => toLex (1, toLex (0, ⊤))
  | infinity I => toLex (2, toLex (I, ⊤))
  | between IStart IEnd => toLex (2, toLex (IStart, (IEnd : WithTop ℤ)))

/-- What is to be written, and where. -/
structure Part where
  range : Range
  request : List UInt8

/-- A pending part. The first one has the timer. -/
structure Entry where
  index : Int
  tref : Option Nat
  part : Part

/-- Entries in the order of terms. -/
def Entry.key (e : Entry) : ℤ ×ₗ WithBot ℕ ×ₗ (ℕ ×ₗ ℤ ×ₗ WithTop ℤ) ×ₗ List ℕ :=
  toLex (e.index, toLex ((e.tref : WithBot ℕ), toLex (e.part.range.key, e.part.request.map UInt8.toNat)))

theorem Range.key_injective : Function.Injective Range.key := by
  intro a b h
  cases a <;> cases b <;> simp_all [Range.key]

theorem Entry.key_injective : Function.Injective Entry.key := by
  rintro ⟨i, t, r, q⟩ ⟨i', t', r', q'⟩ h
  have h : (i, (t : WithBot ℕ), r.key, q.map UInt8.toNat) = (i', (t' : WithBot ℕ), r'.key, q'.map UInt8.toNat) := h
  rw [Prod.mk.injEq, Prod.mk.injEq, Prod.mk.injEq] at h
  obtain ⟨hi, ht, hr, hq⟩ := h
  have hr := Range.key_injective hr
  have hq := (List.map_injective_iff.mpr fun _ _ => UInt8.toNat_inj.mp) hq
  have ht : t = t' := ht
  rw [hi, ht, hr, hq]

instance : LinearOrder Entry := LinearOrder.lift' Entry.key Entry.key_injective

section Model

variable {Id Notify : Type} [LinearOrder Id]

/-- The pending parts of an id, `⊥` for a request without one. -/
structure Append (Id : Type) where
  id : WithBot Id
  parts : List Entry

def Append.key (a : Append Id) : WithBot Id ×ₗ List Entry := toLex (a.id, a.parts)

omit [LinearOrder Id] in
theorem Append.key_injective : Function.Injective (Append.key : Append Id → _) := by
  rintro ⟨i, l⟩ ⟨i', l'⟩ h
  simp only [Append.key, EmbeddingLike.apply_eq_iff_eq, Prod.mk.injEq] at h
  obtain ⟨rfl, rfl⟩ := h
  rfl

instance : LinearOrder (Append Id) := LinearOrder.lift' Append.key Append.key_injective

inductive Write
  | truncate
  | append
deriving DecidableEq

/-- The record of a file. `fileName` is its path behind the directory. -/
structure File (Id Notify : Type) where
  contents : List UInt8
  fileName : List String
  toggle : Bool
  notify : List Notify
  write : List Write
  writeAppends : List (Append Id)
  redirect : Option (List UInt8)

/-- The state of the service, and the timers of its process. A timer is for the stem of a name with `/post`, and an
id. -/
structure State (Id Notify : Type) where
  files : Dict Name (File Id Notify)
  toggle : Bool
  /-- Whether `read` is the empty list, for the whole directory. -/
  readAll : Bool
  timers : Timers (Stem × WithBot Id)

/-- What a request is answered with. -/
inductive Reply
  /-- a part that is not the last one, with an empty response -/
  | accepted
  /-- the last part: the parts that were written, and the contents after it -/
  | written (RangeRequests : List Part) (Contents : List UInt8)
  /-- an error status for the final write -/
  | writeRefused (status : Nat)
  /-- an error status, or a redirect, before any write -/
  | refused (status : Nat)
  | done

/-- What a write of a file comes to: the limit of the size excludes it, or the file system fails. -/
inductive Outcome
  | ok
  | excluded
  | failed
deriving DecidableEq

/-! ## Pending parts -/

/-- `lists:keytake(Id, 1, Appends)` -/
def keytake (id : WithBot Id) : List (Append Id) → Option (Append Id × List (Append Id))
  | [] => none
  | a :: Appends =>
    if a.id = id then some (a, Appends) else (keytake id Appends).map fun x => (x.1, a :: x.2)

/-- `erlang:cancel_timer/1` for the timer of each part -/
def cancelTimers (L : List Entry) (timers : Timers (Stem × WithBot Id)) : Timers (Stem × WithBot Id) :=
  L.foldl (fun t e => match e.tref with
    | some Tref => (t.cancelTimer Tref).2
    | none => t) timers

def requestAppendTake (id : WithBot Id) (Appends : List (Append Id)) (timers : Timers (Stem × WithBot Id)) :
    Option (List Part × List (Append Id) × Timers (Stem × WithBot Id)) :=
  (keytake id Appends).map fun x => (x.1.parts.map Entry.part, x.2, cancelTimers x.1.parts timers)

/-- `request_append_store/5`, for the last part -/
def requestAppendStoreLast (id : WithBot Id) (Index : Int) (part : Part) (Appends : List (Append Id)) :
    List (Append Id) :=
  match keytake id Appends with
  | some (a, NextAppends) => umerge NextAppends [⟨id, umerge a.parts [⟨Index, none, part⟩]⟩]
  | none => umerge Appends [⟨id, [⟨Index, none, part⟩]⟩]

/-- `request_append_store/8`: the first part of an id creates a timer for all of them. -/
def requestAppendStore (id : WithBot Id) (Index : Int) (stem : Stem) (part : Part) (Timeout : Nat)
    (Appends : List (Append Id)) (timers : Timers (Stem × WithBot Id)) :
    List (Append Id) × Timers (Stem × WithBot Id) :=
  match keytake id Appends with
  | some (a, NextAppends) => (umerge NextAppends [⟨id, umerge a.parts [⟨Index, none, part⟩]⟩], timers)
  | none =>
    let (Tref, timers) := timers.sendAfter Timeout (stem, id)
    (umerge Appends [⟨id, [⟨Index, some Tref, part⟩]⟩], timers)

/-! ## The final write -/

/-- `Start` and `End` of a part. -/
def Part.bounds (ContentLength : Nat) (part : Part) : Except Exn (Int × Int) :=
  let position (I : Int) : Int := if I < 0 then ContentLength + I else I
  match part.range with
  | .infinity I => .ok (position I, position I + part.request.length - 1)
  | .between IStart IEnd => .ok (position IStart, IEnd)
  | .last I => if I < 0 then .ok (ContentLength + I, ContentLength + I + part.request.length - 1) else .error
      .caseClause
  | .undefined => .error .functionClause

/-- The contents with a request from `Start` to `End`, `none` where the range ends before it starts. The match on the
binary fails where it starts before the contents. -/
def writeAt (Contents Request : List UInt8) (Start End : Int) : Except Exn (Option (List UInt8)) :=
  if Start ≤ End then
    if End < Contents.length then
      if Start < 0 then .error .badmatch
      else .ok (some (Contents.take Start.toNat ++ Request ++ Contents.drop (End.toNat + 1)))
    else if Start < Contents.length then
      if Start < 0 then .error .badmatch else .ok (some (Contents.take Start.toNat ++ Request))
    else if Start = Contents.length then .ok (some (Contents ++ Request))
    else .ok (some (Contents ++ List.replicate (Start.toNat - Contents.length) 0 ++ Request))
  else .ok none

/-- The contents with a part. -/
def Part.writeTo (Contents : List UInt8) (part : Part) : Except Exn (Option (List UInt8)) :=
  match part.range with
  | .undefined => .ok (some (Contents ++ part.request))
  | _ => do
    let (Start, End) ← part.bounds Contents.length
    writeAt Contents part.request Start End

/-- The contents with all the parts. -/
def writeParts : List UInt8 → List Part → Except Exn (Option (List UInt8))
  | Contents, [] => .ok (some Contents)
  | Contents, part :: parts => do
    match ← part.writeTo Contents with
    | some NewContents => writeParts NewContents parts
    | none => return none

/-! ## The names of a file -/

/-- What `file_refresh/5` and `file_add_read/6` do for the names that a file is read by. -/
def storeRead (FileName : List String) (file : File Id Notify) (Files0 : Dict Name (File Id Notify)) :
    Dict Name (File Id Notify) :=
  let Files3 := match serviceNameSuffixReadRoot FileName with
    | none => Files0
    | some SuffixRead =>
      let Files1 := Files0.store (serviceNameSuffixOptions (.root SuffixRead)) file
      let Files2 := Files1.store (serviceNameSuffixHeader (.root SuffixRead)) file
      Files2.store (serviceNameSuffixRead (.root SuffixRead)) file
  let Files4 := Files3.store (serviceNameSuffixRead (.file FileName)) file
  let Files5 := Files4.store (serviceNameSuffixOptions (.file FileName)) file
  Files5.store (serviceNameSuffixHeader (.file FileName)) file

def fileRefresh (FileName : List String) (file : File Id Notify) (Files0 : Dict Name (File Id Notify)) :
    Dict Name (File Id Notify) :=
  let Files6 := storeRead FileName file Files0
  let Files7 :=
    if Write.truncate ∈ file.write then Files6.store (serviceNameSuffixWriteTruncate (.file FileName)) file else Files6
  if Write.append ∈ file.write then Files7.store (serviceNameSuffixWriteAppend (.file FileName)) file else Files7

def fileAddRead (FileName : List String) (file : File Id Notify) (Files0 : Dict Name (File Id Notify)) :
    Dict Name (File Id Notify) :=
  storeRead FileName file Files0

def fileRemoveRead (FileName : List String) (Files0 : Dict Name (File Id Notify)) : Dict Name (File Id Notify) :=
  let Files3 := match serviceNameSuffixReadRoot FileName with
    | none => Files0
    | some SuffixRead =>
      let Files1 := Files0.erase (serviceNameSuffixOptions (.root SuffixRead))
      let Files2 := Files1.erase (serviceNameSuffixHeader (.root SuffixRead))
      Files2.erase (serviceNameSuffixRead (.root SuffixRead))
  let Files4 := Files3.erase (serviceNameSuffixRead (.file FileName))
  let Files5 := Files4.erase (serviceNameSuffixOptions (.file FileName))
  Files5.erase (serviceNameSuffixHeader (.file FileName))

/-! ## Requests -/

/-- A text of ASCII characters. -/
def text (s : String) : List UInt8 := s.toList.map fun c => UInt8.ofNat c.toNat

/-- The number that decimal digits are, behind `n`. -/
def digitsValue : List UInt8 → Nat → Option Nat
  | [], n => some n
  | c :: l, n => if 48 ≤ c ∧ c ≤ 57 then digitsValue l (n * 10 + (c.toNat - 48)) else none

/-- `erlang:binary_to_integer/1`: digits, which a sign may be in front of. -/
def binaryToInteger (Binary : List UInt8) : Except Exn Int :=
  let (negative, digits) := match Binary with
    | 45 :: l => (true, l)
    | 43 :: l => (false, l)
    | l => (false, l)
  match digits, digitsValue digits 0 with
  | _ :: _, some n => .ok (if negative then -n else n)
  | _, _ => .error .badarg

/-- What the range headers of a request are read as: none, a list of ranges, or an error status. -/
inductive RangesRead
  | none
  | ranges (RangeList : List Range)
  | error (status : Nat)

/-- A `POST`: the headers of the multipart request as they are sent, what reading the ranges comes to, the body, and
what
a write comes to. -/
structure Post (Id : Type) where
  id : WithBot Id
  last : Option (List UInt8)
  index : Option (List UInt8)
  ranges : Except Exn RangesRead
  request : List UInt8
  timeout : Nat
  outcome : Outcome

/-- `x-multipart-last` -/
def Post.readLast (p : Post Id) : Except Exn Bool :=
  match p.last with
  | some value => if value = text "true" then .ok true else .error .caseClause
  | none => .ok false

/-- `x-multipart-index` -/
def Post.readIndex (p : Post Id) : Except Exn Int :=
  match p.index with
  | some IndexBin => binaryToInteger IndexBin
  | none => .ok 0

/-- `contents_ranges_append/3`: a range, an id, whether it is the last part, and an index; or an error status. -/
def contentsRangesAppend (p : Post Id) : Except Exn (Except Nat (Range × WithBot Id × Bool × Int)) := do
  let Last ← p.readLast
  let Index ← p.readIndex
  match ← p.ranges with
  | .none => return .ok (.undefined, p.id, Last || p.id = ⊥, Index)
  | .ranges [] => .error .caseClause
  | .ranges [range] => return .ok (range, p.id, Last || p.id = ⊥, Index)
  | .ranges RangeList =>
    match (if 0 ≤ Index then RangeList[Index.toNat]? else Option.none) with
    | some range => return .ok (range, p.id, Last, Index)
    | Option.none => return .error 400
  | .error status => return .error status

/-- Headers that are read: the value of `x-multipart-last` is `true`, `x-multipart-index` is an integer, and there is a
range in `range`. -/
structure Post.Reads (p : Post Id) : Prop where
  last : ∀ value ∈ p.last, value = text "true"
  index : ∀ IndexBin ∈ p.index, ∃ Index, binaryToInteger IndexBin = .ok Index
  ranges : ∃ ranges, p.ranges = .ok ranges ∧ ranges ≠ .ranges []

theorem contentsRangesAppend_ok {p : Post Id} (h : p.Reads) : ∃ x, contentsRangesAppend p = .ok x := by
  obtain ⟨Last, hlast⟩ : ∃ Last, p.readLast = .ok Last := by
    unfold Post.readLast
    cases hl : p.last with
    | none => exact ⟨_, rfl⟩
    | some value =>
      obtain rfl := h.last value hl
      exact ⟨_, rfl⟩
  obtain ⟨Index, hindex⟩ : ∃ Index, p.readIndex = .ok Index := by
    unfold Post.readIndex
    cases hi : p.index with
    | none => exact ⟨_, rfl⟩
    | some IndexBin => exact h.index IndexBin hi
  obtain ⟨ranges, hranges, hne⟩ := h.ranges
  rw [contentsRangesAppend, bind_ok hlast, bind_ok hindex, bind_ok hranges]
  match ranges with
  | .none | .ranges [_] | .error _ => exact ⟨_, rfl⟩
  | .ranges [] => exact absurd rfl hne
  | .ranges (range :: range' :: RangeList) =>
    dsimp only
    split <;> exact ⟨_, rfl⟩

/-- `request_append_file/4`, with the parts that are still to be written -/
def requestAppendFile (RangeRequests : List Part) (file : File Id Notify) (outcome : Outcome) (s : State Id Notify) :
    Except Exn (Reply × State Id Notify) := do
  match ← writeParts file.contents RangeRequests with
  | none => return (.writeRefused 416, s)
  | some Contents =>
    match outcome with
    | .ok =>
      return (.written RangeRequests Contents,
        { s with files := fileRefresh file.fileName { file with contents := Contents } s.files })
    | .failed => return (.writeRefused 500, s)
    | .excluded => return (.writeRefused 400, s)

/-- `request_append/7`. The timers that are cancelled stay so when the state is not changed. -/
def requestAppend (file : File Id Notify) (stem : Stem) (p : Post Id) (s : State Id Notify) :
    Except Exn (Reply × State Id Notify) :=
  if Write.append ∈ file.write then
    match contentsRangesAppend p with
    | .ok (.ok (range, id, true, Index)) =>
      let NextAppends := requestAppendStoreLast id Index ⟨range, p.request⟩ file.writeAppends
      match requestAppendTake id NextAppends s.timers with
      | some (RangeRequests, NewAppends, timers) =>
        requestAppendFile RangeRequests { file with writeAppends := NewAppends } p.outcome { s with timers := timers }
      | none => .error .badmatch
    | .ok (.ok (range, id, false, Index)) =>
      let (NewAppends, timers) :=
        requestAppendStore id Index stem ⟨range, p.request⟩ p.timeout file.writeAppends s.timers
      .ok (.accepted,
        { s with files := s.files.store ⟨stem, .post⟩ { file with writeAppends := NewAppends }, timers := timers })
    | .ok (.error status) => .ok (.refused status, s)
    | .error e => .error e
  else .ok (.refused 400, s)

/-- A `PUT`: whether it has a range, the body, and what a write comes to. -/
structure Put where
  hasRange : Bool
  request : List UInt8
  outcome : Outcome

/-- `request_truncate/5` -/
def requestTruncate (file : File Id Notify) (p : Put) (s : State Id Notify) : Reply × State Id Notify :=
  if Write.truncate ∈ file.write then
    if p.hasRange then (.refused 400, s)
    else
      match p.outcome with
      | .ok => (.done, { s with files := fileRefresh file.fileName { file with contents := p.request } s.files })
      | .failed => (.refused 500, s)
      | .excluded => (.refused 400, s)
  else (.refused 400, s)

/-- The function of `files_notify/8` for the records that match, each as it is before the first of them is changed. -/
def filesNotify (notify : Notify) (names : List Name) (Files0 : Dict Name (File Id Notify)) :
    Dict Name (File Id Notify) :=
  names.foldl (fun Files name => match Files0 name with
    | some file => fileRefresh file.fileName { file with notify := notify :: file.notify } Files
    | none => Files) Files0

/-! ## Refresh -/

/-- What reading a file comes to: contents that are within the limit of the size or not, or an error. -/
inductive Reading
  | contents (Contents : List UInt8)
  | excluded
  | error

/-- A file that the traversal of the directory finds, and whether it has the time of its record. -/
structure Found where
  fileName : List String
  same : Bool
  reading : Reading

/-- `Frefresh` of `read_files_refresh/12` -/
def frefresh (toggle : Bool) (Files1 : Dict Name (File Id Notify)) (found : Found) : Dict Name (File Id Notify) :=
  match Files1 ⟨.file found.fileName, .get⟩ with
  | some file =>
    if found.same then fileRefresh found.fileName { file with toggle := toggle } Files1
    else
      match found.reading with
      | .contents Contents =>
        fileRefresh found.fileName { file with contents := Contents, toggle := toggle } Files1
      | .excluded => Files1
      | .error =>
        if file.write = [] then fileRemoveRead found.fileName Files1
        else fileRefresh found.fileName { file with toggle := toggle } Files1
  | none =>
    match found.reading with
    | .contents Contents => fileAddRead found.fileName ⟨Contents, found.fileName, toggle, [], [], [], none⟩ Files1
    | .excluded => Files1
    | .error => fileRemoveRead found.fileName Files1

/-- What is done with a record that the traversal has not updated: the file was removed. -/
def removeStale (toggle : Bool) (file : File Id Notify) : Option (File Id Notify) :=
  if file.toggle ≠ toggle then
    if file.write = [] then none else some { file with toggle := toggle }
  else some file

def readFilesRefresh (found : List Found) (s : State Id Notify) (toggle : Bool) :
    Dict Name (File Id Notify) :=
  let Files2 := found.foldl (frefresh toggle) s.files
  if s.readAll then fun name => (Files2 name).bind (removeStale toggle) else Files2

/-! ## Handlers -/

inductive Event (Id Notify : Type)
  | post (stem : Stem) (p : Post Id)
  | put (stem : Stem) (p : Put)
  | notify (notify : Notify) (names : List Name)
  | notifyClear (name : Name)
  | refresh (found : List Found)
  | appendClear (stem : Stem) (id : WithBot Id)

/-- `cloudi_service_handle_request/11` and `cloudi_service_handle_info/3` -/
def handle (s : State Id Notify) : Event Id Notify → Except Exn (Reply × State Id Notify)
  | .post stem p =>
    match s.files ⟨stem, .post⟩ with
    | some file => if file.redirect = none then requestAppend file stem p s else .ok (.refused 301, s)
    | none => .ok (.refused 404, s)
  | .put stem p =>
    match s.files ⟨stem, .put⟩ with
    | some file => if file.redirect = none then .ok (requestTruncate file p s) else .ok (.refused 301, s)
    | none => .ok (.refused 404, s)
  | .notify notify names => .ok (.done, { s with files := filesNotify notify names s.files })
  | .notifyClear name =>
    match s.files name with
    | some file => .ok (.done, { s with files := fileRefresh file.fileName { file with notify := [] } s.files })
    | none => .ok (.done, s)
  | .refresh found =>
    .ok (.done, { s with files := readFilesRefresh found s (!s.toggle), toggle := !s.toggle })
  | .appendClear stem id =>
    -- the message leaves the mailbox
    let timers := { s.timers with mailbox := s.timers.mailbox.erase (stem, id) }
    match s.files ⟨stem, .post⟩ with
    | some file =>
      match requestAppendTake id file.writeAppends timers with
      | some (_, NewAppends, timers) =>
        .ok (.done, { s with files := s.files.store ⟨stem, .post⟩ { file with writeAppends := NewAppends },
                             timers := timers })
      | none => .error .badmatch
    | none => .ok (.done, { s with timers := timers })

end Model

end CloudI.Services.Filesystem
