import CloudI.Framework.Exn
import CloudI.Framework.Native
import Mathlib.Data.List.Nodup
import Mathlib.Logic.Function.Basic

/-!
# Limits of OS processes

`limit_validate/1` of `cloudi_core_i_os_process.erl` checks the option `limit`
of an external service, `limit_format/1` writes the result as bytes, and
`rlimit` of `cloudi_os_rlimit.cpp` sets the limits that it reads from them.
`limits_iff` is that each bound is set as it is configured if its integer fits
64 bits and is none of the values that stand for infinity.
-/

namespace CloudI.Spawn.Limits

/-! ## Options -/

/-- `limit_external_key()` -/
inductive LimitKey
  | as
  | core
  | cpu
  | data
  | fsize
  | memlock
  | msgqueue
  | nice
  | nofile
  | nproc
  | rss
  | rtprio
  | rttime
  | sigpending
  | stack
  | vmem
deriving DecidableEq

open LimitKey in
def LimitKey.all : List LimitKey :=
  [as, core, cpu, data, fsize, memlock, msgqueue, nice, nofile, nproc, rss, rtprio, rttime, sigpending, stack, vmem]

/-- A term in the place of a bound: `other` is none of the rest. -/
inductive Bound
  | undefined
  | infinity
  | int (n : Int)
  | other
deriving DecidableEq

/-- An element of a list of bounds: `other` has another key, or is no pair. -/
inductive BoundItem
  | current (value : Bound)
  | maximum (value : Bound)
  | other
deriving DecidableEq

/-- A term in the place of a limit. -/
inductive LimitValue
  | bound (value : Bound)
  | list (Values : List BoundItem)
deriving DecidableEq

/-- An element of the option `limit`: `other` has another key, or is no pair. -/
inductive LimitItem
  | limit (key : LimitKey) (value : LimitValue)
  | other
deriving DecidableEq

/-- `{service_options_limit_invalid, _}`, with a key or what is left of the list. -/
inductive LimitInvalid
  | key (key : LimitKey)
  | list (L : List LimitItem)

/-! ## `limit_validate` -/

/-- `lists:keytake(current, 1, Values)` -/
def keytakeCurrent : List BoundItem → Option (Bound × List BoundItem)
  | [] => none
  | .current value :: Values => some (value, Values)
  | item :: Values => (keytakeCurrent Values).map fun x => (x.1, item :: x.2)

/-- `lists:keytake(maximum, 1, Values)` -/
def keytakeMaximum : List BoundItem → Option (Bound × List BoundItem)
  | [] => none
  | .maximum value :: Values => some (value, Values)
  | item :: Values => (keytakeMaximum Values).map fun x => (x.1, item :: x.2)

/-- `cloudi_proplists:take_values/2` for `current` and `maximum`, with what is left of the list -/
def takeValues (Values : List BoundItem) : Bound × Bound × List BoundItem :=
  let (current, Values) := (keytakeCurrent Values).getD (.undefined, Values)
  let (maximum, Values) := (keytakeMaximum Values).getD (.undefined, Values)
  (current, maximum, Values)

/-- What a bound may be. -/
def Bound.valid : Bound → Bool
  | undefined => true
  | infinity => true
  | int n => 0 ≤ n
  | other => false

def limitValidateValue (key : LimitKey) (value : LimitValue) (Output : List (LimitKey × LimitValue)) :
    Except LimitInvalid (List (LimitKey × LimitValue)) :=
  match value with
  | .bound .undefined => .ok Output
  | .bound .infinity => .ok ((key, .list [.current .infinity]) :: Output)
  | .bound (.int n) => if 0 ≤ n then .ok ((key, .list [.current (.int n)]) :: Output) else .error (.key key)
  | .bound .other => .error (.key key)
  | .list [] => .error (.key key)
  | .list (item :: items) =>
    match takeValues (item :: items) with
    | (Current, Maximum, []) =>
      if !Current.valid then .error (.key key)
      else if !Maximum.valid then .error (.key key)
      else
        match Current, Maximum with
        | .undefined, .undefined => .ok Output
        | Current, .undefined => .ok ((key, .list [.current Current]) :: Output)
        | .undefined, Maximum => .ok ((key, .list [.maximum Maximum]) :: Output)
        | .int current, .int maximum =>
          if current ≤ maximum then .ok ((key, .list [.current (.int current), .maximum (.int maximum)]) :: Output)
          else .error (.key key)
        | .int current, .infinity =>
          .ok ((key, .list [.current (.int current), .maximum .infinity]) :: Output)
        | .infinity, .infinity => .ok ((key, .list [.current .infinity, .maximum .infinity]) :: Output)
        | _, _ => .error (.key key)
    | _ => .error (.key key)

/-- `lists:keytake(Key, 1, L)` -/
def keytake (key : LimitKey) : List LimitItem → Option (LimitValue × List LimitItem)
  | [] => none
  | .limit k value :: L =>
    if k = key then some (value, L) else (keytake key L).map fun x => (x.1, .limit k value :: x.2)
  | .other :: L => (keytake key L).map fun x => (x.1, .other :: x.2)

/-- `limit_validate/3`, where every default is `undefined` -/
def limitValidateLoop : List LimitKey → List LimitItem → List (LimitKey × LimitValue) →
    Except LimitInvalid (List (LimitKey × LimitValue))
  | [], [], Output => .ok Output.reverse
  | [], L, _ => .error (.list L)
  | key :: Defaults, L, Output =>
    match keytake key L with
    | some (value, NewL) => do
      let NewOutput ← limitValidateValue key value Output
      limitValidateLoop Defaults NewL NewOutput
    | none => do
      let NewOutput ← limitValidateValue key (.bound .undefined) Output
      limitValidateLoop Defaults L NewOutput

section Platform

variable {Resource : Type} (RLIMIT : LimitKey → Option Resource)

/-- `OS_RLIMIT_DEFAULTS`: the keys whose `RLIMIT_` constant is defined -/
def limitValidateDefaults : List LimitKey := LimitKey.all.filter fun key => (RLIMIT key).isSome

/-- `limit_validate/1` of a list -/
def limitValidate (L : List LimitItem) : Except LimitInvalid (List (LimitKey × LimitValue)) :=
  limitValidateLoop (limitValidateDefaults RLIMIT) L []

end Platform

/-! ## `limit_format` -/

def CLOUDI_RLIMITS_CURRENT_ONLY : UInt8 := 1
def CLOUDI_RLIMITS_MAXIMUM_ONLY : UInt8 := 2
def CLOUDI_RLIMITS_CURRENT_MAXIMUM : UInt8 := 3
def CLOUDI_RLIMITS_VALUE_INFINITY : Nat := 0xffffffffffffffff

/-- The number of a key, which both sources define. -/
def LimitKey.type : LimitKey → UInt8
  | as => 1
  | core => 2
  | cpu => 3
  | data => 4
  | fsize => 5
  | memlock => 6
  | msgqueue => 7
  | nice => 8
  | nofile => 9
  | nproc => 10
  | rss => 11
  | rtprio => 12
  | rttime => 13
  | sigpending => 14
  | stack => 15
  | vmem => 16

def limitFormatListValue : Bound → Except Exn Int
  | .infinity => .ok CLOUDI_RLIMITS_VALUE_INFINITY
  | .int n => if 0 ≤ n then .ok n else .error .functionClause
  | _ => .error .functionClause

def limitFormatListType (o : ByteOrder) : LimitKey × LimitValue → Except Exn (List UInt8)
  | (_, .bound _) => .error .functionClause
  | (key, .list Values) =>
    match takeValues Values with
    | (Current, .undefined, []) => do
      let CurrentI ← limitFormatListValue Current
      return [key.type, CLOUDI_RLIMITS_CURRENT_ONLY] ++ o.bytes 8 CurrentI
    | (.undefined, Maximum, []) => do
      let MaximumI ← limitFormatListValue Maximum
      return [key.type, CLOUDI_RLIMITS_MAXIMUM_ONLY] ++ o.bytes 8 MaximumI
    | (Current, Maximum, []) => do
      let CurrentI ← limitFormatListValue Current
      let MaximumI ← limitFormatListValue Maximum
      return [key.type, CLOUDI_RLIMITS_CURRENT_MAXIMUM] ++ o.bytes 8 CurrentI ++ o.bytes 8 MaximumI
    | _ => .error .caseClause

def limitFormat (o : ByteOrder) : List (LimitKey × LimitValue) → Except Exn (List UInt8)
  | [] => .ok []
  | H :: L => do
    let bytes ← limitFormatListType o H
    return bytes ++ (← limitFormat o L)

/-! ## `rlimit` -/

/-- The type `rlim_t` of a platform, which may be signed, and the value of its `RLIM_INFINITY`. -/
structure RlimT where
  bits : Nat
  signed : Bool
  RLIM_INFINITY : Int
  bits_pos : 0 < bits

/-- `static_cast<rlim_t>(value)` -/
def RlimT.cast (rlim_t : RlimT) (value : Nat) : Int :=
  let low := value % 2 ^ rlim_t.bits
  if rlim_t.signed ∧ 2 ^ (rlim_t.bits - 1) ≤ low then (low : Int) - (2 ^ rlim_t.bits : Nat) else low

/-- `struct rlimit` -/
structure Rlimit where
  rlim_cur : Int
  rlim_max : Int
deriving DecidableEq

/-- A failed assertion, or a read behind the bytes. -/
inductive Fault
  | assertion
  | read
deriving DecidableEq

section Rlimit

variable {Resource : Type} [DecidableEq Resource] (RLIMIT : LimitKey → Option Resource) (rlim_t : RlimT)
  (o : ByteOrder)

/-- `type_value` -/
def typeValue (value : UInt8) : Option Resource := (LimitKey.all.find? fun key => key.type = value).bind RLIMIT

def rlimitValue (value : Nat) : Int :=
  if value = CLOUDI_RLIMITS_VALUE_INFINITY then rlim_t.RLIM_INFINITY else rlim_t.cast value

/-- The eight bytes at the front as a `uint64_t`, and what is behind them. -/
def readValue (rlimits : List UInt8) : Option (Nat × List UInt8) :=
  if 8 ≤ rlimits.length then some ((o.unsigned (rlimits.take 8)).toNat, rlimits.drop 8) else none

/-- The bounds of one element, after its type and format, where the current limits are `old`. -/
def readElement (format : UInt8) (old : Rlimit) (rlimits : List UInt8) : Except Fault (Rlimit × List UInt8) :=
  if format = CLOUDI_RLIMITS_CURRENT_ONLY then
    match readValue o rlimits with
    | some (value, rlimits) => .ok (⟨rlimitValue rlim_t value, old.rlim_max⟩, rlimits)
    | none => .error .read
  else if format = CLOUDI_RLIMITS_MAXIMUM_ONLY then
    match readValue o rlimits with
    | some (value, rlimits) => .ok (⟨old.rlim_cur, rlimitValue rlim_t value⟩, rlimits)
    | none => .error .read
  else if format = CLOUDI_RLIMITS_CURRENT_MAXIMUM then
    match readValue o rlimits with
    | some (current, rlimits) =>
      match readValue o rlimits with
      | some (maximum, rlimits) =>
        .ok (⟨rlimitValue rlim_t current, rlimitValue rlim_t maximum⟩, rlimits)
      | none => .error .read
    | none => .error .read
  else .error .assertion

/-- `rlimit`: the calls of `setrlimit`, which succeed, on the limits that `getrlimit` returns. Each round takes bytes
off the front: there are no more rounds than bytes. -/
def rlimitLoop : Nat → (Resource → Rlimit) → List UInt8 → Except Fault (List (Resource × Rlimit))
  | _, _, [] => .ok []
  | 0, _, _ :: _ => .error .read
  | _ + 1, _, [_] => .error .read
  | fuel + 1, limits, type :: format :: rlimits =>
    match typeValue RLIMIT type with
    | none => .error .assertion
    | some resource => do
      let (element, rlimits) ← readElement rlim_t o format (limits resource) rlimits
      return (resource, element) :: (← rlimitLoop fuel (Function.update limits resource element) rlimits)

def rlimit (limits : Resource → Rlimit) (rlimits : List UInt8) : Except Fault (List (Resource × Rlimit)) :=
  rlimitLoop RLIMIT rlim_t o rlimits.length limits rlimits

end Rlimit

/-! ## What is accepted -/

/-- A bound that is configured. -/
inductive Bound.Given : Bound → Prop
  | infinity : Given .infinity
  | int {n : Int} (h : 0 ≤ n) : Given (.int n)

/-- The values of the limits that are accepted. -/
inductive Validated : LimitValue → Prop
  | current {C : Bound} (hC : C.Given) : Validated (.list [.current C])
  | maximum {M : Bound} (hM : M.Given) : Validated (.list [.maximum M])
  | both {C : Bound} (hC : C.Given) : Validated (.list [.current C, .maximum .infinity])
  | ints {c m : Int} (hc : 0 ≤ c) (hle : c ≤ m) : Validated (.list [.current (.int c), .maximum (.int m)])

theorem Bound.given_of_valid {b : Bound} (h : b.valid = true) (hne : b ≠ .undefined) : b.Given := by
  cases b with
  | undefined => exact absurd rfl hne
  | infinity => exact .infinity
  | int n => exact .int (of_decide_eq_true h)
  | other => cases h

theorem limitValidateValue_ok {key : LimitKey} {value : LimitValue} {Output R : List (LimitKey × LimitValue)}
    (h : limitValidateValue key value Output = .ok R) : R = Output ∨ ∃ v, Validated v ∧ R = (key, v) :: Output := by
  match value with
  | .bound .undefined => exact .inl (Except.ok.inj h).symm
  | .bound .infinity => exact .inr ⟨_, .current .infinity, (Except.ok.inj h).symm⟩
  | .bound (.int n) =>
    rw [limitValidateValue] at h
    split at h
    · rename_i hn
      exact .inr ⟨_, .current (.int hn), (Except.ok.inj h).symm⟩
    · cases h
  | .bound .other => cases h
  | .list [] => cases h
  | .list (item :: items) =>
    rw [limitValidateValue] at h
    split at h
    · rename_i Current Maximum _
      split at h
      · cases h
      rename_i hC
      split at h
      · cases h
      rename_i hM
      replace hC : Current.valid = true := by simpa using hC
      replace hM : Maximum.valid = true := by simpa using hM
      split at h
      · exact .inl (Except.ok.inj h).symm
      · rename_i hne _
        exact .inr ⟨_, .current (Bound.given_of_valid hC hne), (Except.ok.inj h).symm⟩
      · rename_i hne
        exact .inr ⟨_, .maximum (Bound.given_of_valid hM hne), (Except.ok.inj h).symm⟩
      · split at h
        · rename_i hle
          exact .inr ⟨_, .ints (of_decide_eq_true hC) hle, (Except.ok.inj h).symm⟩
        · cases h
      · exact .inr ⟨_, .both (.int (of_decide_eq_true hC)), (Except.ok.inj h).symm⟩
      · exact .inr ⟨_, .both .infinity, (Except.ok.inj h).symm⟩
      · cases h
    · cases h

/-- An accepted value is accepted as it is. -/
theorem Validated.again {v : LimitValue} (h : Validated v) (key : LimitKey) (Output : List (LimitKey × LimitValue)) :
    limitValidateValue key v Output = .ok ((key, v) :: Output) := by
  cases h with
  | current hC =>
    cases hC with
    | infinity => rfl
    | int h => simp [limitValidateValue, takeValues, keytakeCurrent, keytakeMaximum, Bound.valid, h]
  | maximum hM =>
    cases hM with
    | infinity => rfl
    | int h => simp [limitValidateValue, takeValues, keytakeCurrent, keytakeMaximum, Bound.valid, h]
  | both hC =>
    cases hC with
    | infinity => rfl
    | int h => simp [limitValidateValue, takeValues, keytakeCurrent, keytakeMaximum, Bound.valid, h]
  | ints hc hle =>
    have hm := Int.le_trans hc hle
    simp [limitValidateValue, takeValues, keytakeCurrent, keytakeMaximum, Bound.valid, hc, hm, hle]

/-- The output has some of the keys, in their order, with accepted values. -/
theorem limitValidateLoop_ok {Defaults : List LimitKey} {L : List LimitItem} {Output R : List (LimitKey × LimitValue)}
    (h : limitValidateLoop Defaults L Output = .ok R) :
    ∃ V, R = Output.reverse ++ V ∧ (V.map Prod.fst).Sublist Defaults ∧ ∀ e ∈ V, Validated e.2 := by
  induction Defaults generalizing L Output with
  | nil =>
    cases L with
    | nil => exact ⟨[], by rw [List.append_nil]; exact (Except.ok.inj h).symm, List.nil_sublist _, nofun⟩
    | cons item L => cases h
  | cons key Defaults ih =>
    have hstep {value : LimitValue} {NewL : List LimitItem} (h : (do
        let NewOutput ← limitValidateValue key value Output
        limitValidateLoop Defaults NewL NewOutput) = .ok R) :
        ∃ V, R = Output.reverse ++ V ∧ (V.map Prod.fst).Sublist (key :: Defaults) ∧ ∀ e ∈ V, Validated e.2 := by
      cases hv : limitValidateValue key value Output with
      | error e =>
        rw [hv] at h
        cases h
      | ok NewOutput =>
        rw [hv] at h
        obtain ⟨V, rfl, hkeys, hvalid⟩ := ih h
        obtain rfl | ⟨v, hval, rfl⟩ := limitValidateValue_ok hv
        · exact ⟨V, rfl, hkeys.cons _, hvalid⟩
        · refine ⟨(key, v) :: V, by simp, hkeys.cons_cons _, fun e he => ?_⟩
          obtain rfl | he := List.mem_cons.mp he
          · exact hval
          · exact hvalid e he
    rw [limitValidateLoop] at h
    split at h
    · exact hstep h
    · exact hstep h

/-- The output as an option. -/
def asItems (V : List (LimitKey × LimitValue)) : List LimitItem := V.map fun e => .limit e.1 e.2

variable {V : List (LimitKey × LimitValue)}

theorem keytake_of_notMem {key : LimitKey} (h : key ∉ V.map Prod.fst) :
    keytake key (asItems V) = none := by
  induction V with
  | nil => rfl
  | cons e V ih =>
    rw [List.map_cons, List.mem_cons, not_or] at h
    show keytake key (.limit e.1 e.2 :: asItems V) = none
    rw [keytake, if_neg (Ne.symm h.1), ih h.2]
    rfl

theorem limitValidateLoop_again {Defaults : List LimitKey} {V Output : List (LimitKey × LimitValue)}
    (hkeys : (V.map Prod.fst).Sublist Defaults) (hnodup : Defaults.Nodup) (hvalid : ∀ e ∈ V, Validated e.2) :
    limitValidateLoop Defaults (asItems V) Output = .ok (Output.reverse ++ V) := by
  induction Defaults generalizing V Output with
  | nil =>
    obtain rfl := List.map_eq_nil_iff.mp (List.sublist_nil.mp hkeys)
    rw [List.append_nil]
    rfl
  | cons key Defaults ih =>
    obtain ⟨hnotin, hrestnodup⟩ := List.nodup_cons.mp hnodup
    by_cases hkey : key ∈ V.map Prod.fst
    · -- the key stands first
      cases V with
      | nil => cases hkey
      | cons e V =>
        have hfirst : e.1 = key := by
          cases hkeys with
          | cons _ hrest => exact absurd (hrest.subset hkey) hnotin
          | cons_cons _ _ => rfl
        subst hfirst
        have hrest : (V.map Prod.fst).Sublist Defaults := List.cons_sublist_cons.mp hkeys
        show limitValidateLoop (e.1 :: Defaults) (.limit e.1 e.2 :: asItems V) Output = _
        rw [limitValidateLoop, keytake, if_pos rfl]
        dsimp only
        rw [(hvalid e List.mem_cons_self).again]
        show limitValidateLoop Defaults (asItems V) ((e.1, e.2) :: Output) = _
        rw [ih hrest hrestnodup fun x hx => hvalid x (List.mem_cons_of_mem _ hx), List.reverse_cons, List.append_assoc]
        rfl
    · have hrest : (V.map Prod.fst).Sublist Defaults := by
        cases hV : V.map Prod.fst with
        | nil => exact List.nil_sublist _
        | cons k ks =>
          rw [hV] at hkeys hkey
          cases hkeys with
          | cons _ hrest => exact hrest
          | cons_cons _ _ => exact absurd List.mem_cons_self hkey
      rw [limitValidateLoop, keytake_of_notMem hkey]
      exact ih hrest hrestnodup hvalid

/-! ## What is set -/

section Set

variable {Resource : Type} [DecidableEq Resource] (RLIMIT : LimitKey → Option Resource) (rlim_t : RlimT)
  (o : ByteOrder)

/-- A bound is set as it is configured, to infinity only by the atom, and stays as it was where it is not. -/
def Bound.Set (old v : Int) : Bound → Prop
  | undefined => v = old
  | infinity => v = rlim_t.RLIM_INFINITY
  | int n => v = n ∧ v ≠ rlim_t.RLIM_INFINITY
  | other => False

/-- The largest `rlim_t`. -/
def RlimT.greatest : Int := (2 ^ (if rlim_t.signed then rlim_t.bits - 1 else rlim_t.bits) : Nat) - 1

/-- An integer that is below the value for infinity in the bytes, has a place in `rlim_t` and is not the value for
infinity of the system. -/
def Bound.Fits : Bound → Prop
  | int n => n < CLOUDI_RLIMITS_VALUE_INFINITY ∧ n ≤ rlim_t.greatest ∧ n ≠ rlim_t.RLIM_INFINITY
  | _ => True

/-- Both bounds of a value. -/
def LimitValue.Set (old element : Rlimit) : LimitValue → Prop
  | bound _ => False
  | list Values =>
    (takeValues Values).1.Set rlim_t old.rlim_cur element.rlim_cur ∧
      (takeValues Values).2.1.Set rlim_t old.rlim_max element.rlim_max

def LimitValue.Fits : LimitValue → Prop
  | bound _ => False
  | list Values => (takeValues Values).1.Fits rlim_t ∧ (takeValues Values).2.1.Fits rlim_t

/-- One call for each entry, in order. -/
def SetsAll : (Resource → Rlimit) → List (LimitKey × LimitValue) → List (Resource × Rlimit) → Prop
  | _, [], calls => calls = []
  | _, _ :: _, [] => False
  | limits, (key, value) :: V, (resource, element) :: calls =>
    RLIMIT key = some resource ∧ value.Set rlim_t (limits resource) element ∧
      SetsAll (Function.update limits resource element) V calls

omit [DecidableEq Resource] in
theorem typeValue_type (key : LimitKey) : typeValue RLIMIT key.type = RLIMIT key := by
  cases key <;> rfl

theorem readValue_bytes (n : Int) (rest : List UInt8) :
    readValue o (o.bytes 8 n ++ rest) = some ((n % 256 ^ 8).toNat, rest) := by
  have hlen : (o.bytes 8 n).length = 8 := o.length_bytes 8 n
  rw [readValue, if_pos (by rw [List.length_append, hlen]; omega), List.take_left' hlen, List.drop_left' hlen,
    o.unsigned_bytes]

omit [DecidableEq Resource] in
/-- The cast keeps what has a place in the type, and never makes a number larger. -/
theorem RlimT.cast_spec (n : Nat) :
    rlim_t.cast n ≤ n ∧ (rlim_t.cast n = n ↔ (n : Int) ≤ rlim_t.greatest) := by
  obtain ⟨bits, signed, RLIM_INFINITY, hbits⟩ := rlim_t
  obtain ⟨b, rfl⟩ := Nat.exists_eq_succ_of_ne_zero hbits.ne'
  have hle : n % 2 ^ (b + 1) ≤ n := Nat.mod_le _ _
  have hlt : n % 2 ^ (b + 1) < 2 ^ (b + 1) := Nat.mod_lt _ (Nat.two_pow_pos _)
  have hsame : n < 2 ^ (b + 1) → n % 2 ^ (b + 1) = n := Nat.mod_eq_of_lt
  have hpow : 2 ^ (b + 1) = 2 * 2 ^ b := Nat.pow_succ'
  cases signed
  · simp only [cast, greatest, Nat.succ_eq_add_one, Bool.false_eq_true, false_and, if_false]
    omega
  · simp only [cast, greatest, Nat.succ_eq_add_one, Nat.add_sub_cancel, true_and, if_true]
    split <;> omega

/-- The value that is read for a bound, which is the bound exactly if it fits. -/
theorem stored_iff {b : Bound} (hb : b.Given) :
    ∃ I, limitFormatListValue b = .ok I ∧ ∀ old,
      b.Set rlim_t old (rlimitValue rlim_t (I % 256 ^ 8).toNat) ↔ b.Fits rlim_t := by
  cases hb with
  | infinity => exact ⟨_, rfl, fun _ => ⟨fun _ => trivial, fun _ => rfl⟩⟩
  | @int n hn =>
    refine ⟨n, if_pos hn, fun _ => ?_⟩
    show rlimitValue rlim_t (n % 256 ^ 8).toNat = n ∧ _ ↔ n < _ ∧ _ ∧ _
    unfold rlimitValue CLOUDI_RLIMITS_VALUE_INFINITY
    split
    · rename_i h
      refine iff_of_false (fun hs => hs.2 rfl) fun hf => ?_
      omega
    · rename_i h
      obtain ⟨hle, hsame⟩ := rlim_t.cast_spec (n % 256 ^ 8).toNat
      constructor
      · rintro ⟨hn, hne⟩
        have hlt : n < 256 ^ 8 := by omega
        rw [Int.emod_eq_of_lt ‹0 ≤ n› hlt] at hsame hn h hne
        exact ⟨by omega, by omega, fun he => hne (hn.trans he)⟩
      · rintro ⟨hlt, hg, hne⟩
        rw [Int.emod_eq_of_lt ‹0 ≤ n› (by omega)] at hsame h ⊢
        have hn := hsame.mpr (by omega)
        rw [hn, Int.toNat_of_nonneg ‹0 ≤ n›]
        exact ⟨rfl, hne⟩

/-- Both bounds, which are written one after the other. -/
theorem pair_spec {C M : Bound} (hC : C.Given) (hM : M.Given) (key : LimitKey)
    (hwrite : ∀ I J, limitFormatListValue C = .ok I → limitFormatListValue M = .ok J →
      limitFormatListType o (key, .list [.current C, .maximum M]) =
        .ok (key.type :: CLOUDI_RLIMITS_CURRENT_MAXIMUM :: (o.bytes 8 I ++ o.bytes 8 J))) :
    ∃ format payload, limitFormatListType o (key, .list [.current C, .maximum M]) =
        .ok (key.type :: format :: payload) ∧
      ∀ old rest, ∃ element, readElement rlim_t o format old (payload ++ rest) = .ok (element, rest) ∧
        ((LimitValue.list [.current C, .maximum M]).Set rlim_t old element ↔
          (LimitValue.list [.current C, .maximum M]).Fits rlim_t) := by
  obtain ⟨I, hI, hset⟩ := stored_iff rlim_t hC
  obtain ⟨J, hJ, hset'⟩ := stored_iff rlim_t hM
  refine ⟨CLOUDI_RLIMITS_CURRENT_MAXIMUM, o.bytes 8 I ++ o.bytes 8 J, hwrite I J hI hJ, fun old rest =>
    ⟨⟨rlimitValue rlim_t (I % 256 ^ 8).toNat, rlimitValue rlim_t (J % 256 ^ 8).toNat⟩, ?_, ?_⟩⟩
  · rw [readElement, if_neg (by decide), if_neg (by decide), if_pos rfl, List.append_assoc, readValue_bytes]
    dsimp only
    rw [readValue_bytes]
  · exact and_congr (hset _) (hset' _)

/-- An entry as it is written, and as it is read back. -/
theorem entry_spec {value : LimitValue} (hv : Validated value) (key : LimitKey) :
    ∃ format payload, limitFormatListType o (key, value) = .ok (key.type :: format :: payload) ∧
      ∀ old rest, ∃ element, readElement rlim_t o format old (payload ++ rest) = .ok (element, rest) ∧
        (value.Set rlim_t old element ↔ value.Fits rlim_t) := by
  cases hv with
  | @current C hC =>
    obtain ⟨I, hI, hset⟩ := stored_iff rlim_t hC
    refine ⟨CLOUDI_RLIMITS_CURRENT_ONLY, o.bytes 8 I, bind_ok hI _, fun old rest =>
      ⟨⟨rlimitValue rlim_t (I % 256 ^ 8).toNat, old.rlim_max⟩, ?_, ?_⟩⟩
    · rw [readElement, if_pos rfl, readValue_bytes]
    · exact and_congr (hset _) ⟨fun _ => trivial, fun _ => rfl⟩
  | @maximum M hM =>
    obtain ⟨I, hI, hset⟩ := stored_iff rlim_t hM
    refine ⟨CLOUDI_RLIMITS_MAXIMUM_ONLY, o.bytes 8 I, ?_, fun old rest =>
      ⟨⟨old.rlim_cur, rlimitValue rlim_t (I % 256 ^ 8).toNat⟩, ?_, ?_⟩⟩
    · cases hM with
      | infinity => exact bind_ok hI _
      | int _ => exact bind_ok hI _
    · rw [readElement, if_neg (by decide), if_pos rfl, readValue_bytes]
    · exact and_congr ⟨fun _ => trivial, fun _ => rfl⟩ (hset _)
  | @both C hC =>
    refine pair_spec rlim_t o hC .infinity key fun I J hI hJ => ?_
    cases hC with
    | infinity => exact (bind_ok hI _).trans (bind_ok hJ _)
    | int _ => exact (bind_ok hI _).trans (bind_ok hJ _)
  | @ints c m hc hle =>
    exact pair_spec rlim_t o (.int hc) (.int (Int.le_trans hc hle)) key fun I J hI hJ =>
      (bind_ok hI _).trans (bind_ok hJ _)

/-- The loop takes the bytes of all the entries, and calls `setrlimit` for each of them. -/
theorem rlimitLoop_spec (hV : ∀ e ∈ V, Validated e.2 ∧ (RLIMIT e.1).isSome) :
    ∃ bytes, limitFormat o V = .ok bytes ∧ ∀ fuel limits, bytes.length ≤ fuel →
      ∃ calls, rlimitLoop RLIMIT rlim_t o fuel limits bytes = .ok calls ∧
        (SetsAll RLIMIT rlim_t limits V calls ↔ ∀ e ∈ V, e.2.Fits rlim_t) := by
  induction V with
  | nil =>
    refine ⟨[], rfl, fun fuel limits _ => ⟨[], ?_, ⟨fun _ => nofun, fun _ => rfl⟩⟩⟩
    rw [rlimitLoop]
  | cons e V ih =>
    obtain ⟨key, value⟩ := e
    obtain ⟨hvalid, hsome⟩ := hV _ List.mem_cons_self
    obtain ⟨resource, hresource⟩ := Option.isSome_iff_exists.mp hsome
    obtain ⟨format, payload, hformat, hread⟩ := entry_spec rlim_t o hvalid key
    obtain ⟨bytes, hbytes, hloop⟩ := ih fun e he => hV e (List.mem_cons_of_mem _ he)
    refine ⟨key.type :: format :: payload ++ bytes, ?_, fun fuel limits hfuel => ?_⟩
    · rw [limitFormat, bind_ok hformat, bind_ok hbytes]
      rfl
    · obtain ⟨fuel, rfl⟩ : ∃ n, fuel = n + 1 := ⟨fuel - 1, by simp at hfuel; omega⟩
      obtain ⟨element, helement, hset⟩ := hread (limits resource) bytes
      obtain ⟨calls, hcalls, hall⟩ := hloop fuel (Function.update limits resource element) (by simp at hfuel; omega)
      refine ⟨(resource, element) :: calls, ?_, ?_⟩
      · rw [List.cons_append, List.cons_append, rlimitLoop, typeValue_type, hresource]
        dsimp only
        rw [bind_ok helement, bind_ok hcalls]
        rfl
      · rw [List.forall_mem_cons, SetsAll]
        exact (and_iff_right hresource).trans (and_congr hset hall)

variable {RLIMIT}

/-- What is accepted is written as bytes that are taken as one call for each entry. -/
theorem rlimit_spec {L : List LimitItem} (h : limitValidate RLIMIT L = .ok V) (limits : Resource → Rlimit) :
    ∃ bytes calls, limitFormat o V = .ok bytes ∧ rlimit RLIMIT rlim_t o limits bytes = .ok calls ∧
      (SetsAll RLIMIT rlim_t limits V calls ↔ ∀ e ∈ V, e.2.Fits rlim_t) := by
  obtain ⟨V, rfl, hkeys, hvalid⟩ := limitValidateLoop_ok h
  obtain ⟨bytes, hbytes, hloop⟩ := rlimitLoop_spec RLIMIT rlim_t o (V := V) fun e he =>
    ⟨hvalid e he, (List.mem_filter.mp (hkeys.subset (List.mem_map_of_mem he))).2⟩
  obtain ⟨calls, hcalls, hall⟩ := hloop bytes.length limits (Nat.le_refl _)
  exact ⟨bytes, calls, hbytes, hcalls, hall⟩

omit [DecidableEq Resource] in
/-- What is accepted is accepted again as it is. -/
theorem limitValidate_again {L : List LimitItem}
    (h : limitValidate RLIMIT L = .ok V) : limitValidate RLIMIT (asItems V) = .ok V := by
  obtain ⟨V, rfl, hkeys, hvalid⟩ := limitValidateLoop_ok h
  exact limitValidateLoop_again hkeys (List.Nodup.filter _ (by decide)) hvalid

/-- The calls set what is configured exactly if every integer fits. What is accepted is accepted again as it is. -/
theorem limits_iff {L : List LimitItem} (h : limitValidate RLIMIT L = .ok V) (limits : Resource → Rlimit) :
    ((∃ bytes calls, limitFormat o V = .ok bytes ∧ rlimit RLIMIT rlim_t o limits bytes = .ok calls ∧
        SetsAll RLIMIT rlim_t limits V calls) ↔ ∀ e ∈ V, e.2.Fits rlim_t) ∧
      limitValidate RLIMIT (asItems V) = .ok V := by
  obtain ⟨bytes, calls, hbytes, hcalls, hall⟩ := rlimit_spec rlim_t o h limits
  refine ⟨⟨?_, fun hfits => ⟨bytes, calls, hbytes, hcalls, hall.mpr hfits⟩⟩, limitValidate_again h⟩
  rintro ⟨bytes', calls', hbytes', hcalls', hset⟩
  cases hbytes.symm.trans hbytes'
  cases hcalls.symm.trans hcalls'
  exact hall.mp hset

end Set

/-- A system with the limit of open files alone. -/
def onlyNofile : LimitKey → Option Nat := fun key => if key = .nofile then some 7 else none

/-- An unsigned `rlim_t` of 64 bits, whose largest value is infinity. -/
def unsigned64 : RlimT := ⟨64, false, 0xffffffffffffffff, by decide⟩

theorem limits_iff_nofile :
    ((∃ bytes calls, limitFormat .little [(.nofile, .list [.current (.int 1024)])] = .ok bytes ∧
        rlimit onlyNofile unsigned64 .little (fun _ => ⟨256, 4096⟩) bytes = .ok calls ∧
        SetsAll onlyNofile unsigned64 (fun _ => ⟨256, 4096⟩) [(.nofile, .list [.current (.int 1024)])] calls) ↔
      ∀ e ∈ [(LimitKey.nofile, LimitValue.list [.current (.int 1024)])], e.2.Fits unsigned64) ∧
    limitValidate onlyNofile (asItems [(.nofile, .list [.current (.int 1024)])]) =
      .ok [(.nofile, .list [.current (.int 1024)])] :=
  limits_iff unsigned64 .little (L := [.limit .nofile (.bound (.int 1024))]) rfl fun _ => ⟨256, 4096⟩

/-- The limit `2 ^ 64` is accepted, and not set. -/
theorem limit_altered :
    limitValidate onlyNofile [.limit .nofile (.bound (.int 18446744073709551616))] =
      .ok [(.nofile, .list [.current (.int 18446744073709551616)])] ∧
    ¬∃ bytes calls, limitFormat .little [(.nofile, .list [.current (.int 18446744073709551616)])] = .ok bytes ∧
      rlimit onlyNofile unsigned64 .little (fun _ => ⟨256, 4096⟩) bytes = .ok calls ∧
      SetsAll onlyNofile unsigned64 (fun _ => ⟨256, 4096⟩)
        [(.nofile, .list [.current (.int 18446744073709551616)])] calls := by
  have hok : limitValidate onlyNofile [.limit .nofile (.bound (.int 18446744073709551616))] =
      .ok [(.nofile, .list [.current (.int 18446744073709551616)])] := rfl
  refine ⟨hok, ?_⟩
  obtain ⟨bytes, calls, hbytes, hcalls, hall⟩ := rlimit_spec unsigned64 .little hok fun _ => ⟨256, 4096⟩
  rintro ⟨bytes', calls', hbytes', hcalls', hset⟩
  cases hbytes.symm.trans hbytes'
  cases hcalls.symm.trans hcalls'
  have hfits := hall.mp hset _ List.mem_cons_self
  exact absurd hfits.1.1 (by decide)

end CloudI.Spawn.Limits
