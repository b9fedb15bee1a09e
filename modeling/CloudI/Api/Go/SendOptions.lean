import CloudI.Api.Go.RoundTrip

/-!
# The options of a send in the Go API

`SendAsync`, `SendSync` and `McastAsync` take a timeout and a priority of any
type. `timeoutCheck` and `priorityCheck` narrow them, and what is sent to the
dispatcher is a tuple with both of them.

* `timeoutCheck_eq`, `priorityCheck_eq`: an integer is kept if its type has a
  case and the case lets it pass, and then it is the same integer;
* `send_options_iff`: a call takes exactly the integers in range, and the
  dispatcher gets them, if and only if those in range are kept.
-/

namespace CloudI.Api.Go

/-! ## Integers of a type -/

/-- A value of one of the integer types of Go, where `int`, `uint` and `uintptr` have 64 bits. -/
inductive Integer
  | uint8 (n : UInt8)
  | uint16 (n : UInt16)
  | uint32 (n : UInt32)
  | uint64 (n : UInt64)
  | uint (n : UInt64)
  | uintptr (n : UInt64)
  | int8 (n : Int8)
  | int16 (n : Int16)
  | int32 (n : Int32)
  | int64 (n : Int64)
  | int (n : Int64)

def Integer.toInt : Integer → Int
  | uint8 n => n.toNat
  | uint16 n => n.toNat
  | uint32 n => n.toNat
  | uint64 n => n.toNat
  | uint n => n.toNat
  | uintptr n => n.toNat
  | int8 n => n.toInt
  | int16 n => n.toInt
  | int32 n => n.toInt
  | int64 n => n.toInt
  | int n => n.toInt

/-- What a call of the API returns as an error. -/
inductive ApiError
  | invalidInputError
  | codec (e : Fault)

/-- `timeoutCheck`, where a conversion to `uint32` keeps the low bits. -/
def timeoutCheck : Integer → Except ApiError UInt32
  | .uint32 timeout => .ok timeout
  | .uint8 timeout => .ok timeout.toUInt32
  | .uint16 timeout => .ok timeout.toUInt32
  | .uint64 timeout => if timeout.toNat > 4294967295 then .error .invalidInputError else .ok timeout.toUInt32
  | .int8 timeout => if timeout.toInt < 0 then .error .invalidInputError else .ok (.ofInt timeout.toInt)
  | .int16 timeout => if timeout.toInt < 0 then .error .invalidInputError else .ok (.ofInt timeout.toInt)
  | .int32 timeout => if timeout.toInt < 0 then .error .invalidInputError else .ok (.ofInt timeout.toInt)
  | .int64 timeout =>
    if timeout.toInt < 0 ∨ timeout.toInt > 4294967295 then .error .invalidInputError else .ok (.ofInt timeout.toInt)
  | .int timeout =>
    if timeout.toInt < 0 ∨ timeout.toInt > 4294967295 then .error .invalidInputError else .ok (.ofInt timeout.toInt)
  | .uint _ | .uintptr _ => .error .invalidInputError

/-- `priorityCheck`. The wider signed types compare with `math.MaxInt8` twice. -/
def priorityCheck : Integer → Except ApiError Int8
  | .int8 priority => .ok priority
  | .uint8 priority => if priority.toNat > 127 then .error .invalidInputError else .ok (.ofInt priority.toNat)
  | .uint16 priority => if priority.toNat > 127 then .error .invalidInputError else .ok (.ofInt priority.toNat)
  | .uint32 priority => if priority.toNat > 127 then .error .invalidInputError else .ok (.ofInt priority.toNat)
  | .uint64 priority => if priority.toNat > 127 then .error .invalidInputError else .ok (.ofInt priority.toNat)
  | .int16 priority =>
    if priority.toInt < 127 ∨ priority.toInt > 127 then .error .invalidInputError else .ok (.ofInt priority.toInt)
  | .int32 priority =>
    if priority.toInt < 127 ∨ priority.toInt > 127 then .error .invalidInputError else .ok (.ofInt priority.toInt)
  | .int64 priority =>
    if priority.toInt < 127 ∨ priority.toInt > 127 then .error .invalidInputError else .ok (.ofInt priority.toInt)
  | .int priority =>
    if priority.toInt < 127 ∨ priority.toInt > 127 then .error .invalidInputError else .ok (.ofInt priority.toInt)
  | .uint _ | .uintptr _ => .error .invalidInputError

/-- `0..4294967295` -/
def InTimeout (n : Int) : Prop := 0 ≤ n ∧ n ≤ 4294967295

/-- `-128..127` -/
def InPriority (n : Int) : Prop := -128 ≤ n ∧ n ≤ 127

/-- The types that `timeoutCheck` has a case for. -/
def Integer.TimeoutType : Integer → Prop
  | .uint _ | .uintptr _ => False
  | _ => True

/-- The integers that `priorityCheck` does not reject for their type: of a wider signed type, only the largest. -/
def Integer.PriorityKept : Integer → Prop
  | .uint _ | .uintptr _ => False
  | .int16 n => n.toInt = 127
  | .int32 n => n.toInt = 127
  | .int64 n => n.toInt = 127
  | .int n => n.toInt = 127
  | _ => True

/-! ## The checks -/

theorem toNat_ofInt32 {n : Int} (h : InTimeout n) : ((UInt32.ofInt n).toNat : Int) = n := by
  have hn : (UInt32.ofInt n).toNat = (n % 2 ^ 32).toNat := by
    simp [UInt32.ofInt, Int.emod_lt_of_pos]
  rw [hn, Int.emod_eq_of_lt h.1 (by have := h.2; omega)]
  exact Int.toNat_of_nonneg h.1

theorem toInt_ofInt8 {n : Int} (h : InPriority n) : (Int8.ofInt n).toInt = n :=
  Int8.toInt_ofInt_of_le (by have := h.1; omega) (by have := h.2; omega)

/-- A timeout that is kept is the same number. -/
theorem timeoutCheck_kept {v : Integer} (ht : v.TimeoutType) (hr : InTimeout v.toInt) :
    ∃ t, timeoutCheck v = .ok t ∧ (t.toNat : Int) = v.toInt := by
  have hle := hr.2
  have hpos := hr.1
  cases v with
  | uint n => exact ht.elim
  | uintptr n => exact ht.elim
  | uint8 n => exact ⟨_, rfl, by simp [Integer.toInt]⟩
  | uint16 n => exact ⟨_, rfl, by simp [Integer.toInt]⟩
  | uint32 n => exact ⟨_, rfl, rfl⟩
  | uint64 n =>
    simp only [Integer.toInt] at hle
    refine ⟨_, if_neg (by omega), ?_⟩
    rw [Integer.toInt, UInt64.toNat_toUInt32, Nat.mod_eq_of_lt (by omega)]
  | int8 n => exact ⟨_, if_neg (Int.not_lt.mpr hpos), toNat_ofInt32 hr⟩
  | int16 n => exact ⟨_, if_neg (Int.not_lt.mpr hpos), toNat_ofInt32 hr⟩
  | int32 n => exact ⟨_, if_neg (Int.not_lt.mpr hpos), toNat_ofInt32 hr⟩
  | int64 n => exact ⟨_, if_neg (not_or.mpr ⟨Int.not_lt.mpr hpos, Int.not_lt.mpr hle⟩), toNat_ofInt32 hr⟩
  | int n => exact ⟨_, if_neg (not_or.mpr ⟨Int.not_lt.mpr hpos, Int.not_lt.mpr hle⟩), toNat_ofInt32 hr⟩

/-- Every other timeout is invalid. -/
theorem timeoutCheck_rejected {v : Integer} (h : ¬(v.TimeoutType ∧ InTimeout v.toInt)) :
    timeoutCheck v = .error .invalidInputError := by
  cases v with
  | uint n | uintptr n => rfl
  | uint8 n => exact absurd ⟨trivial, by simp only [InTimeout, Integer.toInt]; have := n.toNat_lt; omega⟩ h
  | uint16 n => exact absurd ⟨trivial, by simp only [InTimeout, Integer.toInt]; have := n.toNat_lt; omega⟩ h
  | uint32 n => exact absurd ⟨trivial, by simp only [InTimeout, Integer.toInt]; have := n.toNat_lt; omega⟩ h
  | uint64 n =>
    simp only [Integer.TimeoutType, InTimeout, Integer.toInt, true_and] at h
    exact if_pos (by omega)
  | int8 n =>
    have := n.toInt_lt
    simp only [Integer.TimeoutType, InTimeout, Integer.toInt, true_and] at h
    exact if_pos (by omega)
  | int16 n =>
    have := n.toInt_lt
    simp only [Integer.TimeoutType, InTimeout, Integer.toInt, true_and] at h
    exact if_pos (by omega)
  | int32 n =>
    have := n.toInt_lt
    simp only [Integer.TimeoutType, InTimeout, Integer.toInt, true_and] at h
    exact if_pos (by omega)
  | int64 n =>
    simp only [Integer.TimeoutType, InTimeout, Integer.toInt, true_and] at h
    exact if_pos (by omega)
  | int n =>
    simp only [Integer.TimeoutType, InTimeout, Integer.toInt, true_and] at h
    exact if_pos (by omega)

/-- A priority that is kept is the same number. -/
theorem priorityCheck_kept {v : Integer} (hk : v.PriorityKept) (hr : InPriority v.toInt) :
    ∃ p, priorityCheck v = .ok p ∧ p.toInt = v.toInt := by
  have hle := hr.2
  cases v with
  | uint n | uintptr n => exact hk.elim
  | int8 n => exact ⟨_, rfl, rfl⟩
  | uint8 n | uint16 n | uint32 n | uint64 n =>
    simp only [Integer.toInt] at hle
    exact ⟨_, if_neg (by omega), toInt_ofInt8 hr⟩
  | int16 n | int32 n | int64 n | int n =>
    simp only [Integer.PriorityKept] at hk
    exact ⟨_, if_neg (by omega), toInt_ofInt8 hr⟩

/-- Every other priority is invalid. -/
theorem priorityCheck_rejected {v : Integer} (h : ¬(v.PriorityKept ∧ InPriority v.toInt)) :
    priorityCheck v = .error .invalidInputError := by
  cases v with
  | uint n | uintptr n => rfl
  | int8 n =>
    have := n.toInt_lt
    have := n.le_toInt
    simp only [Integer.PriorityKept, InPriority, Integer.toInt, true_and] at h
    omega
  | uint8 n | uint16 n | uint32 n | uint64 n | int16 n | int32 n | int64 n | int n =>
    simp only [Integer.PriorityKept, InPriority, Integer.toInt, true_and] at h
    exact if_pos (by omega)

/-! ## The calls -/

/-- What an `Instance` has for the options that are not given. -/
structure Defaults where
  timeoutAsync : UInt32
  timeoutSync : UInt32
  priorityDefault : Int8

inductive Method
  | sendAsync
  | sendSync
  | mcastAsync
deriving DecidableEq

/-- `send_async`, `send_sync` and `mcast_async`. -/
def Method.atom : Method → List UInt8
  | sendAsync => [115, 101, 110, 100, 95, 97, 115, 121, 110, 99]
  | sendSync => [115, 101, 110, 100, 95, 115, 121, 110, 99]
  | mcastAsync => [109, 99, 97, 115, 116, 95, 97, 115, 121, 110, 99]

def Method.timeoutDefault (api : Defaults) : Method → UInt32
  | sendAsync => api.timeoutAsync
  | sendSync => api.timeoutSync
  | mcastAsync => api.timeoutAsync

variable (lib : Library) (api : Defaults)

/-- What a call gives to `api.send`, or its error before that. A slice of bytes that is `nil` is sent as an empty
one. -/
def Method.call (m : Method) (name : List UInt8) (requestInfo request : Option (List UInt8))
    (timeoutPriority : List Integer) : Except ApiError (List UInt8) :=
  if name = [] then .error .invalidInputError
  else if timeoutPriority.length > 2 then .error .invalidInputError
  else do
    let timeout ← match timeoutPriority[0]? with
      | some timeout => timeoutCheck timeout
      | none => .ok (m.timeoutDefault api)
    let priority ← match timeoutPriority[1]? with
      | some priority => priorityCheck priority
      | none => .ok api.priorityDefault
    (termToBinary lib (.slice [.otpErlangAtom m.atom, .string name, .bytes (requestInfo.getD []),
      .bytes (request.getD []), .uint32 timeout, .int8 priority]) (-1)).mapError .codec

/-- What the dispatcher is to decode. -/
def Method.term (m : Method) (name : List UInt8) (requestInfo request : Option (List UInt8)) (timeout priority : Int) :
    Term :=
  .tuple [.atom m.atom, .ofBytes name, .bitstring (requestInfo.getD []) 8, .bitstring (request.getD []) 8,
    .int timeout, .int priority]

variable {lib api} {m : Method} {name : List UInt8} {requestInfo request : Option (List UInt8)}

/-- The call after its checks. -/
theorem call_eq (hn : name ≠ []) (timeout : Integer) (priority : Option Integer) :
    m.call lib api name requestInfo request (timeout :: priority.toList) = (do
      let t ← timeoutCheck timeout
      let p ← match priority with
        | some priority => priorityCheck priority
        | none => .ok api.priorityDefault
      (termToBinary lib (.slice [.otpErlangAtom m.atom, .string name, .bytes (requestInfo.getD []),
        .bytes (request.getD []), .uint32 t, .int8 p]) (-1)).mapError .codec) := by
  rw [Method.call, if_neg hn, if_neg (by cases priority <;> simp)]
  cases priority <;> rfl

/-- The tuple that is sent is decoded. -/
theorem sent_decodes {t : UInt32} {p : Int8} {data : List UInt8}
    (h : (termToBinary lib (.slice [.otpErlangAtom m.atom, .string name, .bytes (requestInfo.getD []),
      .bytes (request.getD []), .uint32 t, .int8 p]) (-1)).mapError ApiError.codec = .ok data) :
    ∃ w, (∀ depth, data.length ≤ depth → binaryToTerm lib depth data = .ok w) ∧
      denote lib w = m.term name requestInfo request t.toNat p.toInt := by
  cases he : termToBinary lib (.slice [.otpErlangAtom m.atom, .string name, .bytes (requestInfo.getD []),
      .bytes (request.getD []), .uint32 t, .int8 p]) (-1) with
  | error e =>
    rw [he] at h
    cases h
  | ok d =>
    rw [he] at h
    obtain rfl : d = data := Except.ok.inj h
    refine decode_encode ?_ he
    simp only [Fits, AllFit, and_self]

variable (api) in
/-- The number that is sent as the priority. -/
def sentPriority (priority : Option Integer) : Int := priority.elim api.priorityDefault.toInt Integer.toInt

variable (lib api m requestInfo request) in
/-- A call whose options are kept sends them. -/
theorem call_kept (hn : name ≠ []) {timeout : Integer} {priority : Option Integer}
    (ht : timeout.TimeoutType ∧ InTimeout timeout.toInt) (hp : ∀ p ∈ priority, p.PriorityKept ∧ InPriority p.toInt) :
    ∃ (t : UInt32) (p : Int8), (t.toNat : Int) = timeout.toInt ∧ p.toInt = sentPriority api priority ∧
      m.call lib api name requestInfo request (timeout :: priority.toList) =
        (termToBinary lib (.slice [.otpErlangAtom m.atom, .string name, .bytes (requestInfo.getD []),
          .bytes (request.getD []), .uint32 t, .int8 p]) (-1)).mapError .codec := by
  obtain ⟨t, hcheck, ht⟩ := timeoutCheck_kept ht.1 ht.2
  rw [call_eq hn, hcheck]
  cases priority with
  | none => exact ⟨t, api.priorityDefault, ht, rfl, rfl⟩
  | some priority =>
    obtain ⟨p, hcheck, hp⟩ := priorityCheck_kept (hp priority rfl).1 (hp priority rfl).2
    refine ⟨t, p, ht, hp, ?_⟩
    show (priorityCheck priority >>= _) = _
    rw [hcheck]
    rfl

variable (lib api m requestInfo request) in
/-- Any other call is rejected. -/
theorem call_rejected (hn : name ≠ []) (timeout : Integer) (priority : Option Integer)
    (h : ¬((timeout.TimeoutType ∧ InTimeout timeout.toInt) ∧
      ∀ p ∈ priority, p.PriorityKept ∧ InPriority p.toInt)) :
    m.call lib api name requestInfo request (timeout :: priority.toList) = .error .invalidInputError := by
  rw [call_eq hn]
  by_cases ht : timeout.TimeoutType ∧ InTimeout timeout.toInt
  · obtain ⟨t, hcheck, -⟩ := timeoutCheck_kept ht.1 ht.2
    rw [hcheck]
    cases priority with
    | none => exact absurd ⟨ht, fun p hp => by cases hp⟩ h
    | some priority =>
      have hp : ¬(priority.PriorityKept ∧ InPriority priority.toInt) := fun hp => h ⟨ht, fun p he => by
        obtain rfl := Option.some.inj he
        exact hp⟩
      show (priorityCheck priority >>= _) = _
      rw [priorityCheck_rejected hp]
      rfl
  · rw [timeoutCheck_rejected ht]
    rfl

/-- A call takes exactly the options in range and sends the same numbers, if and only if `timeoutCheck` has a case for
the timeout and `priorityCheck` keeps the priority, where both are in range. -/
theorem send_options_iff (lib : Library) (api : Defaults) (m : Method) {name : List UInt8} (hn : name ≠ [])
    (requestInfo request : Option (List UInt8)) (timeout : Integer) (priority : Option Integer) :
    ((m.call lib api name requestInfo request (timeout :: priority.toList) = .error .invalidInputError ↔
        ¬(InTimeout timeout.toInt ∧ ∀ p ∈ priority, InPriority p.toInt)) ∧
      ∀ data, m.call lib api name requestInfo request (timeout :: priority.toList) = .ok data →
        ∃ w, (∀ depth, data.length ≤ depth → binaryToTerm lib depth data = .ok w) ∧
          denote lib w = m.term name requestInfo request timeout.toInt (sentPriority api priority)) ↔
      (InTimeout timeout.toInt ∧ (∀ p ∈ priority, InPriority p.toInt) →
        timeout.TimeoutType ∧ ∀ p ∈ priority, p.PriorityKept) := by
  constructor
  · rintro ⟨hiff, -⟩ hr
    by_contra hk
    refine hiff.mp (call_rejected _ _ _ _ _ hn _ _ fun h => hk ⟨h.1.1, fun p hp => (h.2 p hp).1⟩) hr
  · intro hk
    by_cases hr : InTimeout timeout.toInt ∧ ∀ p ∈ priority, InPriority p.toInt
    · obtain ⟨t, p, ht, hp, hcall⟩ := call_kept lib api m requestInfo request hn ⟨(hk hr).1, hr.1⟩ fun p hp =>
          ⟨(hk hr).2 p hp, hr.2 p hp⟩
      rw [hcall]
      refine ⟨⟨fun he => ?_, fun h => absurd hr h⟩, fun data hd => ?_⟩
      -- An error of the codec is not that of the checks.
      · generalize termToBinary lib _ (-1) = x at he
        cases x <;> cases he
      · obtain ⟨w, hw, hden⟩ := sent_decodes hd
        exact ⟨w, hw, by rw [hden, ht, hp]⟩
    · have hcall := call_rejected lib api m requestInfo request hn timeout priority fun h =>
          hr ⟨h.1.2, fun p hp => (h.2 p hp).2⟩
      rw [hcall]
      exact ⟨⟨fun _ => hr, fun _ => rfl⟩, fun data hd => by cases hd⟩

/-- A timeout of 5000 in an `int` is sent with the default priority. -/
theorem send_options_iff_timeout :
    ∃ data w, Method.sendAsync.call noLibrary ⟨5, 5, 0⟩ [97] none none [.int 5000] = .ok data ∧
      (∀ depth, data.length ≤ depth → binaryToTerm noLibrary depth data = .ok w) ∧
      denote noLibrary w = Method.sendAsync.term [97] none none 5000 0 := by
  have h := (send_options_iff noLibrary ⟨5, 5, 0⟩ .sendAsync (show ([97] : List UInt8) ≠ [] by decide) none none
      (.int 5000) none).mpr
    fun _ => ⟨trivial, fun p hp => by cases hp⟩
  obtain ⟨w, hw⟩ := h.2 _ rfl
  exact ⟨_, w, rfl, hw⟩

/-- A priority of 0 in an `int` is rejected. -/
theorem priority_rejected :
    Method.sendAsync.call noLibrary ⟨5, 5, 0⟩ [97] none none [.int 5000, .int 0] = .error .invalidInputError ∧
      InTimeout (Integer.int 5000).toInt ∧ InPriority (Integer.int 0).toInt := by
  refine ⟨rfl, ?_, ?_⟩ <;> simp [InTimeout, InPriority, Integer.toInt]

end CloudI.Api.Go
