import CloudI.Services.Filesystem

/-!
# The dates of HTTP

`datetime/1` of `cloudi_service_filesystem_parse` reads a date in one of the
three formats of HTTP. Each part of a date is read from the front of the data,
and a date is an error (`none`) where a part is not found. The time of the day
and the year at the end of an `asctime` date have one clause each, which raises
for anything else.
-/

namespace CloudI.Services.Filesystem

/-- A date or a time: three numbers, in the order of terms. -/
abbrev Triple := ℕ ×ₗ ℕ ×ₗ ℕ

/-- `{Date, Time}` -/
abbrev DateTime := Triple ×ₗ Triple

def triple (a b c : Nat) : Triple := toLex (a, toLex (b, c))

/-- The rest of the data behind a text. -/
def behind (token : String) (Data : List UInt8) : Option (List UInt8) :=
  if (text token).isPrefixOf Data then some (Data.drop (text token).length) else none

/-- The rest of the data behind one of the texts. -/
def behindAny (tokens : List String) (Data : List UInt8) : Option (List UInt8) :=
  tokens.findSome? fun token => behind token Data

def isDigit (c : UInt8) : Bool := 48 ≤ c && c ≤ 57

/-- The value of a digit. -/
def digit (c : UInt8) : Nat := c.toNat - 48

def wkday (Data : List UInt8) : Option (List UInt8) :=
  behindAny ["Mon", "Tue", "Wed", "Thu", "Fri", "Sat", "Sun"] Data

def weekday (Data : List UInt8) : Option (List UInt8) :=
  behindAny ["Monday", "Tuesday", "Wednesday", "Thursday", "Friday", "Saturday", "Sunday"] Data

def month (M : List UInt8) : Option Nat :=
  (["Jan", "Feb", "Mar", "Apr", "May", "Jun", "Jul", "Aug", "Sep", "Oct", "Nov", "Dec"].findIdx?
    fun name => M = text name).map (· + 1)

/-- `06 Nov 1994` -/
def date1 : List UInt8 → Option (Triple × List UInt8)
  | D1 :: D2 :: 32 :: Ma :: Mb :: Mc :: 32 :: Y1 :: Y2 :: Y3 :: Y4 :: Rest =>
    if [D1, D2, Y1, Y2, Y3, Y4].all isDigit then
      (month [Ma, Mb, Mc]).map fun Month =>
        (triple (digit Y1 * 1000 + digit Y2 * 100 + digit Y3 * 10 + digit Y4) Month (digit D1 * 10 + digit D2), Rest)
    else none
  | _ => none

/-- `06-Nov-94` -/
def date2 : List UInt8 → Option (Triple × List UInt8)
  | D1 :: D2 :: 45 :: Ma :: Mb :: Mc :: 45 :: Y1 :: Y2 :: Rest =>
    if [D1, D2, Y1, Y2].all isDigit then
      (month [Ma, Mb, Mc]).map fun Month =>
        let Year := digit Y1 * 10 + digit Y2
        (triple (if 50 < Year then Year + 1900 else Year + 2000) Month (digit D1 * 10 + digit D2), Rest)
    else none
  | _ => none

/-- `Nov  6` -/
def date3 : List UInt8 → Option ((Nat × Nat) × List UInt8)
  | Ma :: Mb :: Mc :: 32 :: D1 :: D2 :: Rest =>
    if ((48 ≤ D1 ∧ D1 ≤ 51) ∨ D1 = 32) ∧ isDigit D2 then
      (month [Ma, Mb, Mc]).map fun Month => ((Month, if D1 = 32 then digit D2 else digit D1 * 10 + digit D2), Rest)
    else none
  | _ => none

/-- `08:49:37`, of which the hour may be too large. -/
def time : List UInt8 → Except Exn (Option (Triple × List UInt8))
  | H1 :: H2 :: 58 :: M1 :: M2 :: 58 :: S1 :: S2 :: Rest =>
    if [H1, H2, M1, M2, S1, S2].all isDigit ∧ H1 ≤ 50 ∧ M1 ≤ 53 ∧ S1 ≤ 53 then
      let Hour := digit H1 * 10 + digit H2
      .ok (if Hour < 24 then some (triple Hour (digit M1 * 10 + digit M2) (digit S1 * 10 + digit S2), Rest) else none)
    else .error .functionClause
  | _ => .error .functionClause

/-- `calendar:last_day_of_the_month/2` -/
def lastDay (Year Month : Nat) : Nat :=
  if Month = 2 then
    if Year % 4 = 0 ∧ Year % 100 ≠ 0 ∨ Year % 400 = 0 then 29 else 28
  else if Month = 4 ∨ Month = 6 ∨ Month = 9 ∨ Month = 11 then 30 else 31

/-- `calendar:valid_date/1` -/
def validDate (Date : Triple) : Bool :=
  let (Year, MonthDay) := ofLex Date
  let (Month, Day) := ofLex MonthDay
  1 ≤ Month && Month ≤ 12 && 1 ≤ Day && Day ≤ lastDay Year Month

/-- Nothing but blanks is behind the date. -/
def httpDateRet (Data : List UInt8) (Date Time : Triple) : Option DateTime :=
  if Data.all (fun c => c = 32 || c = 9) && validDate Date then some (toLex (Date, Time)) else none

def rfc1123Date (Data : List UInt8) : Except Exn (Option DateTime) :=
  match (wkday Data).bind (behind ", ") |>.bind date1 |>.bind fun r => (behind " " r.2).map (r.1, ·) with
  | none => .ok none
  | some (Date, Rest2) => do
    match ← time Rest2 with
    | none => return none
    | some (Time, Rest) => return (behind " GMT" Rest).bind fun Rest3 => httpDateRet Rest3 Date Time

def rfc850Date (Data : List UInt8) : Except Exn (Option DateTime) :=
  match (weekday Data).bind (behind ", ") |>.bind date2 |>.bind fun r => (behind " " r.2).map (r.1, ·) with
  | none => .ok none
  | some (Date, Rest2) => do
    match ← time Rest2 with
    | none => return none
    | some (Time, Rest) => return (behind " GMT" Rest).bind fun Rest3 => httpDateRet Rest3 Date Time

def asctimeYear (Data : List UInt8) (Month Day : Nat) (Time : Triple) : Except Exn (Option DateTime) :=
  match Data with
  | Y1 :: Y2 :: Y3 :: Y4 :: Rest =>
    if [Y1, Y2, Y3, Y4].all isDigit then
      .ok (httpDateRet Rest (triple (digit Y1 * 1000 + digit Y2 * 100 + digit Y3 * 10 + digit Y4) Month Day) Time)
    else .error .functionClause
  | _ => .error .functionClause

def asctimeDate (Data : List UInt8) : Except Exn (Option DateTime) :=
  match (wkday Data).bind (behind " ") |>.bind date3 |>.bind fun r => (behind " " r.2).map (r.1, ·) with
  | none => .ok none
  | some ((Month, Day), Rest2) => do
    match ← time Rest2 with
    | none => return none
    | some (Time, Rest) =>
      match behind " " Rest with
      | none => return none
      | some Rest3 => asctimeYear Rest3 Month Day Time

/-- `datetime/1`: a date, an error, or the exception of a part that has one clause only. -/
def datetime (Binary : List UInt8) : Except Exn (Option DateTime) := do
  match ← rfc1123Date Binary with
  | some HTTPDate => return some HTTPDate
  | none =>
    match ← rfc850Date Binary with
    | some HTTPDate => return some HTTPDate
    | none => asctimeDate Binary

example : datetime (text "Sun Nov  6 08:49:37 1994") = .ok (some (toLex (triple 1994 11 6, triple 8 49 37))) := by
  decide

end CloudI.Services.Filesystem
