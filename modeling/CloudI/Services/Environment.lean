import Mathlib.Data.List.TakeWhile
import Mathlib.Tactic.Conv

/-!
# References to environment variables

`environment_transform` over the strings of Erlang, whose characters are any numbers, against the scan that its
documentation describes: `\$` is a `$`, `${NAME}` and `$NAME` are replaced by the value of the variable or by
nothing, and every other character stays.

The automaton has one accumulator for both forms of a reference and takes a `}` behind either, so it is the scan
for every lookup exactly when the string is `WellFormed`: each `$` of it starts a reference, with a `}` behind the
name when it has braces, and without one when it has none.
-/

namespace CloudI.Services.Environment

/-- The characters of a string. -/
abbrev Str := List Nat

/-- The values of the environment variables. -/
abbrev EnvironmentLookup := Str → Option Str

/-- The characters of a name, `[a-zA-Z0-9_]`. -/
def nameChar (c : Nat) : Bool :=
  (65 ≤ c && c ≤ 90) || c == 95 || (97 ≤ c && c ≤ 122) || (48 ≤ c && c ≤ 57)

/-! ## `environment_transform` -/

/-- `environment_transform_value`, for the output of the reversed `Key`. -/
def environmentTransformValue (lookup : EnvironmentLookup) (key output : Str) : Str :=
  if key = [] then output
  else match lookup key.reverse with
    | some value => value.reverse ++ output
    | none => output

/-- `environment_transform/4`, where `none` is the atom `undefined` in place of the key. -/
def environmentTransform4 (lookup : EnvironmentLookup) : Str → Str → Option Str → Str
  | [], output, none => output.reverse
  | 92 :: 36 :: string, output, none => environmentTransform4 lookup string (36 :: output) none
  | 36 :: 123 :: rest, output, none => environmentTransform4 lookup rest output (some [])
  | 36 :: string, output, none => environmentTransform4 lookup string output (some [])
  | c :: string, output, none => environmentTransform4 lookup string (c :: output) none
  | 125 :: string, output, some key =>
    environmentTransform4 lookup string (environmentTransformValue lookup key output) none
  | c :: string, output, some key =>
    if nameChar c then environmentTransform4 lookup string output (some (c :: key))
    else environmentTransform4 lookup (c :: string) (environmentTransformValue lookup key output) none
  | [], output, some key => environmentTransform4 lookup [] (environmentTransformValue lookup key output) none
termination_by string _ key => (string.length, key.elim 0 fun _ => 1)

def environmentTransform (lookup : EnvironmentLookup) (string : Str) : Str :=
  environmentTransform4 lookup string [] none

/-! ## The reference scan -/

/-- The value of a variable, nothing when it is undefined. -/
def valueOf (lookup : EnvironmentLookup) (name : Str) : Str := (lookup name).getD []

/-- The name at the start of a string. -/
def nameOf (string : Str) : Str := string.takeWhile nameChar

/-- What is behind the name. -/
def afterName (string : Str) : Str := string.dropWhile nameChar

theorem length_afterName (string : Str) : (afterName string).length ≤ string.length :=
  (List.dropWhile_sublist nameChar).length_le

/-- A name and a `}` behind it. -/
def Braced (string : Str) : Prop := nameOf string ≠ [] ∧ (afterName string).head? = some 125

instance (string : Str) : Decidable (Braced string) := inferInstanceAs (Decidable (_ ∧ _))

/-- The scan of the documentation. A `$` that starts no reference is a character like any other. -/
def reference (lookup : EnvironmentLookup) : Str → Str
  | [] => []
  | 92 :: 36 :: string => 36 :: reference lookup string
  | 36 :: 123 :: string =>
    if Braced string then valueOf lookup (nameOf string) ++ reference lookup (afterName string).tail
    else 36 :: reference lookup (123 :: string)
  | 36 :: string =>
    if nameOf string ≠ [] then valueOf lookup (nameOf string) ++ reference lookup (afterName string)
    else 36 :: reference lookup string
  | c :: string => c :: reference lookup string
termination_by string => string.length
decreasing_by
  all_goals
    have := length_afterName string
    simp only [List.length_cons, List.length_tail]
    omega

/-- Each `$` starts a reference, and no `}` is behind a name without braces. -/
def WellFormed : Str → Prop
  | [] => True
  | 92 :: 36 :: string => WellFormed string
  | 36 :: 123 :: string => Braced string ∧ WellFormed (afterName string).tail
  | 36 :: string => (nameOf string ≠ [] ∧ (afterName string).head? ≠ some 125) ∧ WellFormed (afterName string)
  | _ :: string => WellFormed string
termination_by string => string.length
decreasing_by
  all_goals
    have := length_afterName string
    simp only [List.length_cons, List.length_tail]
    omega

/-! ## The automaton as a scan -/

variable (lookup : EnvironmentLookup)

/-- What the automaton goes on with behind a name. -/
def afterBrace (string : Str) : Str := if string.head? = some 125 then string.tail else string

/-- The value that the automaton puts out for a name. -/
def valueOfKey (name : Str) : Str := if name = [] then [] else valueOf lookup name

theorem length_afterBrace (string : Str) : (afterBrace string).length ≤ string.length := by
  rw [afterBrace]
  split
  · rw [List.length_tail]
    exact Nat.sub_le _ _
  · exact Nat.le_refl _

theorem environmentTransformValue_eq (key output : Str) :
    environmentTransformValue lookup key output = (valueOfKey lookup key.reverse).reverse ++ output := by
  simp only [environmentTransformValue, valueOfKey, valueOf, List.reverse_eq_nil_iff]
  split
  · rfl
  · cases lookup key.reverse <;> rfl

/-- From a key on, the automaton reads the rest of the name and at most one `}`. -/
theorem transform4_key (string output key : Str) :
    environmentTransform4 lookup string output (some key) =
      environmentTransform4 lookup (afterBrace (afterName string))
        (environmentTransformValue lookup ((nameOf string).reverse ++ key) output) none := by
  induction string generalizing key with
  | nil => rw [environmentTransform4]; rfl
  | cons c string ih =>
    by_cases hb : c = 125
    · subst hb
      rw [environmentTransform4]
      rfl
    · rw [environmentTransform4]
      · split
        · rename_i hc
          rw [ih, afterName, afterName, nameOf, nameOf, List.dropWhile_cons_of_pos hc, List.takeWhile_cons_of_pos hc,
            List.reverse_cons, List.append_assoc, List.singleton_append]
        · rename_i hc
          have hhead : (c :: string).head? ≠ some 125 := fun h => hb (Option.some.inj h)
          rw [afterName, nameOf, List.dropWhile_cons_of_neg hc, List.takeWhile_cons_of_neg hc, afterBrace,
            if_neg hhead, List.reverse_nil, List.nil_append]
      · exact hb

/-- What the automaton puts out, without its accumulators. -/
def expand : Str → Str
  | [] => []
  | 92 :: 36 :: string => 36 :: expand string
  | 36 :: 123 :: string => valueOfKey lookup (nameOf string) ++ expand (afterBrace (afterName string))
  | 36 :: string => valueOfKey lookup (nameOf string) ++ expand (afterBrace (afterName string))
  | c :: string => c :: expand string
termination_by string => string.length
decreasing_by
  all_goals
    have hn := length_afterName string
    have hb := length_afterBrace (afterName string)
    simp only [List.length_cons]
    omega

theorem transform4_expand (string output : Str) :
    environmentTransform4 lookup string output none = output.reverse ++ expand lookup string := by
  fun_induction expand lookup string generalizing output with
  | case1 => rw [environmentTransform4, List.append_nil]
  | case2 string ih => rw [environmentTransform4, ih, List.reverse_cons, List.append_assoc, List.singleton_append]
  | case3 string ih =>
    rw [environmentTransform4, transform4_key, ih, environmentTransformValue_eq, List.append_nil, List.reverse_reverse,
      List.reverse_append, List.reverse_reverse, List.append_assoc]
  | case4 string h ih =>
    rw [environmentTransform4, transform4_key, ih, environmentTransformValue_eq, List.append_nil, List.reverse_reverse,
      List.reverse_append, List.reverse_reverse, List.append_assoc]
    exact h
  | case5 c string h₁ h₂ h₃ ih =>
    rw [environmentTransform4, ih, List.reverse_cons, List.append_assoc, List.singleton_append]
    all_goals assumption

theorem environmentTransform_eq (string : Str) : environmentTransform lookup string = expand lookup string := by
  rw [environmentTransform, transform4_expand, List.reverse_nil, List.nil_append]

/-! ## When the automaton is the scan -/

theorem nameOf_append_afterName (string : Str) : nameOf string ++ afterName string = string :=
  List.takeWhile_append_dropWhile

theorem expand_wellFormed {string : Str} (h : WellFormed string) : expand lookup string = reference lookup string := by
  fun_induction WellFormed string with
  | case1 => rw [expand, reference]
  | case2 string ih => rw [expand, reference, ih h]
  | case3 string ih =>
    obtain ⟨hb, h⟩ := h
    rw [expand, reference, if_pos hb, valueOfKey, if_neg hb.1, afterBrace, if_pos hb.2, ih h]
  | case4 string hs ih =>
    obtain ⟨⟨hn, hb⟩, h⟩ := h
    rw [expand, reference, if_pos hn, valueOfKey, if_neg hn, afterBrace, if_neg hb, ih h]
    all_goals exact hs
  | case5 c string h₁ h₂ h₃ ih =>
    rw [expand, reference, ih h]
    all_goals assumption

/-- The lookup of an environment without variables. -/
def noVariables : EnvironmentLookup := fun _ => none

@[simp] theorem valueOfKey_noVariables (name : Str) : valueOfKey noVariables name = [] := by
  simp [valueOfKey, valueOf, noVariables]

@[simp] theorem valueOf_noVariables (name : Str) : valueOf noVariables name = [] := rfl

/-- A character that is neither `\` nor `$` stays. -/
theorem reference_cons {c : Nat} (string : Str) (hc : c ≠ 92) (hd : c ≠ 36) :
    reference lookup (c :: string) = c :: reference lookup string := by
  rw [reference]
  · exact fun _ h => absurd h hc
  · exact fun _ h => absurd h hd
  · exact fun h => absurd h hd

theorem reference_append {name : Str} (h : ∀ c ∈ name, nameChar c = true) (string : Str) :
    reference lookup (name ++ string) = name ++ reference lookup string := by
  induction name with
  | nil => rfl
  | cons c name ih =>
    have hc := h c List.mem_cons_self
    have hne (d : Nat) (hd : nameChar d = false) : c ≠ d := fun he => by simp [he, hd] at hc
    rw [List.cons_append, reference_cons lookup _ (hne 92 (by decide)) (hne 36 (by decide)),
      ih fun d hd => h d (List.mem_cons_of_mem c hd), List.cons_append]

/-- The scan of the rest after a name, and of a `}` behind it. -/
theorem length_reference_name (string : Str) :
    (reference lookup string).length = (nameOf string).length + (reference lookup (afterName string)).length := by
  have hname : ∀ c ∈ nameOf string, nameChar c = true := List.all_eq_true.mp List.all_takeWhile
  conv_lhs => rw [← nameOf_append_afterName string]
  rw [reference_append lookup hname, List.length_append]

theorem length_reference_afterBrace (string : Str) : (reference lookup string).length =
    (reference lookup (afterBrace string)).length + if string.head? = some 125 then 1 else 0 := by
  rw [afterBrace]
  split
  · rename_i h
    obtain ⟨rest, rfl⟩ : ∃ rest, string = 125 :: rest := by
      cases string with
      | nil => cases h
      | cons c rest => exact ⟨rest, by rw [Option.some.inj h]⟩
    rw [reference_cons lookup rest (by decide) (by decide)]
    rfl
  · rfl

/-- Without variables the automaton only leaves characters out, and leaves none out of a string that is well
formed alone. -/
theorem length_expand (string : Str) :
    (expand noVariables string).length ≤ (reference noVariables string).length ∧
      ((expand noVariables string).length = (reference noVariables string).length → WellFormed string) := by
  fun_induction expand noVariables string with
  | case1 => simp [reference, WellFormed]
  | case2 string ih =>
    rw [reference, WellFormed]
    simpa using ih
  | case3 string ih =>
    have hname := length_reference_name noVariables string
    have hbrace := length_reference_afterBrace noVariables (afterName string)
    rw [valueOfKey_noVariables, List.nil_append, reference, WellFormed]
    by_cases hb : Braced string
    · rw [afterBrace, if_pos hb.2] at ih ⊢
      rw [if_pos hb, valueOf_noVariables, List.nil_append]
      exact ⟨ih.1, fun h => ⟨hb, ih.2 h⟩⟩
    · rw [if_neg hb, reference_cons noVariables string (by decide) (by decide), List.length_cons, List.length_cons]
      have hle := ih.1
      exact ⟨by omega, fun h => by omega⟩
  | case4 string hs ih =>
    have hname := length_reference_name noVariables string
    have hbrace := length_reference_afterBrace noVariables (afterName string)
    have hle := ih.1
    rw [valueOfKey_noVariables, List.nil_append, reference, WellFormed]
    · by_cases hn : nameOf string = []
      · rw [if_neg (not_not_intro hn), List.length_cons]
        exact ⟨by omega, fun h => by omega⟩
      · rw [if_pos hn, valueOf_noVariables, List.nil_append]
        by_cases hb : (afterName string).head? = some 125
        · rw [if_pos hb] at hbrace
          exact ⟨by omega, fun h => by omega⟩
        · rw [afterBrace, if_neg hb] at ih ⊢
          exact ⟨ih.1, fun h => ⟨⟨hn, hb⟩, ih.2 h⟩⟩
    all_goals exact hs
  | case5 c string h₁ h₂ h₃ ih =>
    rw [reference, WellFormed]
    · simpa using ih
    all_goals assumption

/-- The strings that `environment_transform` replaces as documented, for every lookup. -/
theorem environment_transform_reference_iff (string : Str) :
    (∀ lookup, environmentTransform lookup string = reference lookup string) ↔ WellFormed string := by
  constructor
  · intro h
    refine (length_expand string).2 ?_
    rw [← environmentTransform_eq, h noVariables]
  · intro h lookup
    rw [environmentTransform_eq, expand_wellFormed lookup h]

/-- The `}` of `$A}` is lost. -/
theorem brace_lost : environmentTransform (fun name => if name = [65] then some [120] else none) [36, 65, 125] ≠
    reference (fun name => if name = [65] then some [120] else none) [36, 65, 125] := by
  simp [environmentTransform_eq, expand, reference, valueOfKey, valueOf, nameOf, afterName, afterBrace, nameChar]

/-! ## Strings of bytes -/

/-- A string of bytes as a string of numbers. -/
def ofBytes (string : List UInt8) : Str := string.map UInt8.toNat

/-- The bytes of the characters, which are bytes. -/
def toBytes (string : Str) : List UInt8 := string.map UInt8.ofNat

/-- A lookup of bytes. -/
def lookupBytes (lookup : List UInt8 → Option (List UInt8)) : EnvironmentLookup :=
  fun name => (lookup (toBytes name)).map ofBytes

end CloudI.Services.Environment
