import Mathlib.Data.List.Forall2
import CloudI.Core.Keys1Value

/-!
# Levels and formatters of the logger

`logging_validate_formatters` of `cloudi_core_i_configuration.erl` makes a
configuration of the entries of the option `formatters`, which the logger then
asks for the formatter of a message. A configuration that is accepted is
`Configured`: it has the formatters of the entries, none of them hidden by
another one, and its level allows a message exactly if one of the outputs does.
So a message of a module has the formatter of the one entry that lists the
module, or else that of the entry `any` (`formatters_chosen`).
-/

namespace CloudI.Core.Logger

/-! ## Levels -/

/-- The level of a message. -/
inductive Severity where
  | fatal | error | warn | info | debug | trace
deriving DecidableEq

/-- `loglevel()` -/
inductive Loglevel where
  | off | fatal | error | warn | info | debug | trace
deriving DecidableEq

/-- `log_level_allowed/2`, where `none` is the atom `undefined`. -/
def logLevelAllowed : Option Loglevel → Severity → Bool
  | some .trace, .fatal | some .trace, .error | some .trace, .warn => true
  | some .trace, .info | some .trace, .debug | some .trace, .trace => true
  | some .debug, .fatal | some .debug, .error | some .debug, .warn => true
  | some .debug, .info | some .debug, .debug => true
  | some .info, .fatal | some .info, .error | some .info, .warn | some .info, .info => true
  | some .warn, .fatal | some .warn, .error | some .warn, .warn => true
  | some .error, .fatal | some .error, .error => true
  | some .fatal, .fatal => true
  | _, _ => false

/-- The order of `logging_level_highest/1`. -/
def levelOrder : List (Option Loglevel) :=
  [some .trace, some .debug, some .info, some .warn, some .error, some .fatal, some .off, none]

/-- `logging_level_highest/1`: the head behind `lists:dropwhile/2`. The list of the levels is never empty. -/
def loggingLevelHighest (Levels : List (Option Loglevel)) : Option Loglevel :=
  (levelOrder.find? fun Highest => Highest ∈ Levels).join

/-- How many severities a level allows. -/
def rank : Option Loglevel → Nat
  | none | some .off => 0
  | some .fatal => 1
  | some .error => 2
  | some .warn => 3
  | some .info => 4
  | some .debug => 5
  | some .trace => 6

def Severity.rank : Severity → Nat
  | .fatal => 1
  | .error => 2
  | .warn => 3
  | .info => 4
  | .debug => 5
  | .trace => 6

/-- The table is an order. -/
theorem logLevelAllowed_iff (l : Option Loglevel) (s : Severity) :
    logLevelAllowed l s = true ↔ s.rank ≤ Logger.rank l := by
  cases l with
  | none => cases s <;> decide
  | some l => cases l <;> cases s <;> decide

theorem levelOrder_pairwise : levelOrder.Pairwise fun a b => rank b ≤ rank a := by decide

theorem mem_levelOrder (l : Option Loglevel) : l ∈ levelOrder := by
  cases l with
  | none => decide
  | some l => cases l <;> decide

/-- The highest level of a list allows what one of the list allows. -/
theorem highest_allowed (Levels : List (Option Loglevel)) (s : Severity) :
    logLevelAllowed (loggingLevelHighest Levels) s = true ↔ ∃ l ∈ Levels, logLevelAllowed l s = true := by
  unfold loggingLevelHighest
  cases hf : levelOrder.find? fun Highest => Highest ∈ Levels with
  | none =>
    refine iff_of_false (by simp [logLevelAllowed]) fun ⟨l, hl, _⟩ => ?_
    exact List.find?_eq_none.mp hf l (mem_levelOrder l) (decide_eq_true hl)
  | some l' =>
    obtain ⟨hl', as, bs, horder, has⟩ := List.find?_eq_some_iff_append.mp hf
    show logLevelAllowed l' s = true ↔ _
    refine ⟨fun h => ⟨l', of_decide_eq_true hl', h⟩, fun ⟨l, hl, h⟩ => ?_⟩
    have hmem : l ∈ as ++ l' :: bs := horder ▸ mem_levelOrder l
    have hnot : l ∉ as := fun hin => by simpa [hl] using has l hin
    have hafter := (List.mem_append.mp hmem).resolve_left hnot
    have hpair := horder ▸ levelOrder_pairwise
    rw [logLevelAllowed_iff] at h ⊢
    rcases List.mem_cons.mp hafter with rfl | hb
    · exact h
    · exact Nat.le_trans h ((List.pairwise_cons.mp (List.pairwise_append.mp hpair).2.1).1 l hb)

/-! ## The option `formatters` -/

variable {M Options O F E : Type}

/-- An entry of the option: `{any, Options}`, `{Modules, Options}`, or neither. -/
inductive Entry (M Options : Type) where
  | any (options : Options)
  | modules (Modules : List M) (options : Options)
  | other

/-- `#config_logging_formatter{}`: the module of the output or that of the formatter. -/
structure Formatter (O F : Type) where
  level : Loglevel
  output : Option O
  formatter : Option F

/-- `#config_logging_formatters{}` -/
structure FormattersConfig (M O F : Type) where
  default : Option (Formatter O F)
  lookup : Keys1Value M (Formatter O F)
  level : Option Loglevel

/-- What the validation of an entry rests on: which modules are atoms, and `logging_validate_formatter/2`, whose key
is `none` for `any`. -/
structure Checks (M Options O F E : Type) where
  isAtom : M → Bool
  validateFormatter : Option (List M) → Options → Except E (Formatter O F)

inductive FormattersError (M Options E : Type) where
  | formattersInvalid (entry : Entry M Options)
  | modulesInvalid (Modules : List M)
  | formatter (e : E)
  | raised (x : Exn)

/-- The levels with that of a formatter, if it has an output. -/
def addLevel (Formatter : Formatter O F) (Levels : List (Option Loglevel)) : List (Option Loglevel) :=
  if Formatter.output.isNone then Levels else some Formatter.level :: Levels

variable [DecidableEq M]

/-- `logging_validate_formatters/3` -/
def loggingValidateFormattersLoop (c : Checks M Options O F E) : List (Entry M Options) → List (Option Loglevel) →
    FormattersConfig M O F → Except (FormattersError M Options E) (FormattersConfig M O F)
  | [], Levels, config => .ok { config with level := loggingLevelHighest Levels }
  | .any options :: L, Levels, config =>
    match config.default with
    | some _ => .error (.formattersInvalid (.any options))
    | none =>
      match c.validateFormatter none options with
      | .error e => .error (.formatter e)
      | .ok Formatter =>
        loggingValidateFormattersLoop c L (addLevel Formatter Levels) { config with default := some Formatter }
  | .modules Modules options :: L, Levels, config =>
    if Modules = [] then .error (.formattersInvalid (.modules Modules options))
    else if Modules.all c.isAtom && !config.lookup.isAnyKey Modules then
      match c.validateFormatter (some Modules) options with
      | .error e => .error (.formatter e)
      | .ok Formatter =>
        match config.lookup.store Modules Formatter with
        | .error x => .error (.raised x)
        | .ok NewLookup =>
          loggingValidateFormattersLoop c L (addLevel Formatter Levels) { config with lookup := NewLookup }
    else .error (.modulesInvalid Modules)
  | .other :: _, _, _ => .error (.formattersInvalid .other)

/-- `logging_validate_formatters/1` -/
def loggingValidateFormatters (c : Checks M Options O F E) (Value : List (Entry M Options)) :
    Except (FormattersError M Options E) (Option (FormattersConfig M O F)) :=
  if Value = [] then .ok none
  else (loggingValidateFormattersLoop c Value [none] ⟨none, Keys1Value.new, none⟩).map some

/-! ## What is accepted -/

/-- The formatters of entries, each with the modules of the entry, or `none` for `any`. -/
abbrev Formatters (M O F : Type) := List (Option (List M) × Formatter O F)

/-- The formatter that an entry asks for. -/
def Asks (c : Checks M Options O F E) : Entry M Options → Option (List M) × Formatter O F → Prop
  | .any options, p => p.1 = none ∧ c.validateFormatter none options = .ok p.2
  | .modules Modules options, p => p.1 = some Modules ∧ c.validateFormatter (some Modules) options = .ok p.2
  | .other, _ => False

omit [DecidableEq M] in
theorem asks_unique (c : Checks M Options O F E) : Relator.RightUnique (Asks c) := by
  intro entry p q hp hq
  cases entry with
  | any options => exact Prod.ext (hp.1.trans hq.1.symm) (Except.ok.inj (hp.2.symm.trans hq.2))
  | modules Modules options => exact Prod.ext (hp.1.trans hq.1.symm) (Except.ok.inj (hp.2.symm.trans hq.2))
  | other => cases hp

/-- The modules with their formatters, the last entry first. -/
def groupsOf (fs : Formatters M O F) : List (List M × Formatter O F) :=
  fs.reverse.filterMap fun p => p.1.map fun Modules => (Modules, p.2)

/-- One of the outputs takes messages of a level. -/
def OutputAllows (fs : Formatters M O F) (s : Severity) : Prop :=
  ∃ p ∈ fs, p.2.output.isSome = true ∧ logLevelAllowed (some p.2.level) s = true

/-- The configuration has these formatters, and its level allows what one of their outputs does. -/
structure Configured (fs : Formatters M O F) (config : FormattersConfig M O F) : Prop where
  default : ∀ F, config.default = some F ↔ (none, F) ∈ fs
  lookup : config.lookup.Holds (groupsOf fs)
  level : ∀ s, logLevelAllowed config.level s = true ↔ OutputAllows fs s

variable {fs : Formatters M O F}

omit [DecidableEq M] in
theorem mem_groupsOf {Modules : List M} {F' : Formatter O F} :
    (Modules, F') ∈ groupsOf fs ↔ (some Modules, F') ∈ fs := by
  rw [groupsOf, List.mem_filterMap]
  constructor
  · rintro ⟨⟨k, F''⟩, hp, he⟩
    obtain ⟨Ms, hk, hpair⟩ := Option.map_eq_some_iff.mp he
    obtain ⟨rfl, rfl⟩ := Prod.mk.inj hpair
    rw [← hk]
    exact List.mem_reverse.mp hp
  · exact fun h => ⟨_, List.mem_reverse.mpr h, rfl⟩

omit [DecidableEq M] in
theorem outputAllows_append {p : Option (List M) × Formatter O F} {s : Severity} :
    OutputAllows (fs ++ [p]) s ↔
      OutputAllows fs s ∨ p.2.output.isSome = true ∧ logLevelAllowed (some p.2.level) s = true := by
  simp only [OutputAllows, List.mem_append, List.mem_singleton, or_and_right, exists_or, exists_eq_left]

/-- What the loop keeps: the configuration so far has the formatters so far, and the levels are those of their
outputs. -/
structure LoopInv (fs : Formatters M O F) (Levels : List (Option Loglevel)) (config : FormattersConfig M O F) :
    Prop where
  default : ∀ F, config.default = some F ↔ (none, F) ∈ fs
  lookup : config.lookup.Holds (groupsOf fs)
  levels : ∀ s, (∃ l ∈ Levels, logLevelAllowed l s = true) ↔ OutputAllows fs s

variable {config : FormattersConfig M O F}

theorem LoopInv.addLevel {Levels : List (Option Loglevel)}
    (h : LoopInv fs Levels config) (k : Option (List M)) (F' : Formatter O F) (s : Severity) :
    (∃ l ∈ Logger.addLevel F' Levels, logLevelAllowed l s = true) ↔ OutputAllows (fs ++ [(k, F')]) s := by
  rw [outputAllows_append, ← h.levels, Logger.addLevel]
  cases F'.output with
  | none => simp
  | some o =>
    simp only [Option.isNone_some, Bool.false_eq_true, if_false, List.mem_cons, exists_eq_or_imp, Option.isSome_some,
      true_and]
    exact or_comm

/-- The formatter of each entry that is checked is behind the others. -/
theorem loop_configured (c : Checks M Options O F E) {entries : List (Entry M Options)}
    {Levels : List (Option Loglevel)} {config config' : FormattersConfig M O F} (h : LoopInv fs Levels config)
    (hok : loggingValidateFormattersLoop c entries Levels config = .ok config') :
    ∃ fs', List.Forall₂ (Asks c) entries fs' ∧ Configured (fs ++ fs') config' := by
  fun_induction loggingValidateFormattersLoop c entries Levels config generalizing fs with
  | case1 Levels config =>
    obtain rfl := Except.ok.inj hok
    refine ⟨[], .nil, ?_⟩
    rw [List.append_nil]
    exact ⟨h.default, h.lookup, fun s => (highest_allowed Levels s).trans (h.levels s)⟩
  | case4 options L Levels config hd F' hv ih =>
    have hinv : LoopInv (fs ++ [(none, F')]) (Logger.addLevel F' Levels) { config with default := some F' } := by
      refine ⟨fun F'' => ?_, ?_, h.addLevel none F'⟩
      · have hno : (none, F'') ∉ fs := fun hin => by
          rw [(h.default F'').mpr hin] at hd
          cases hd
        simp only [List.mem_append, hno, false_or, List.mem_singleton, Prod.mk.injEq, true_and, Option.some.injEq,
          eq_comm]
      · rw [groupsOf, List.reverse_append]
        exact h.lookup
    obtain ⟨fs', hfs', hconf⟩ := ih hinv hok
    rw [List.append_assoc] at hconf
    exact ⟨(none, F') :: fs', .cons ⟨rfl, hv⟩ hfs', hconf⟩
  | case8 Modules options L Levels config _ _ F' hv NewLookup hs ih =>
    have hinv : LoopInv (fs ++ [(some Modules, F')]) (Logger.addLevel F' Levels)
        { config with lookup := NewLookup } := by
      refine ⟨fun F'' => ?_, ?_, h.addLevel (some Modules) F'⟩
      · simp only [List.mem_append, List.mem_singleton, Prod.mk.injEq, reduceCtorEq, false_and, or_false]
        exact h.default F''
      · rw [groupsOf, List.reverse_append]
        exact Keys1Value.holds_of_store h.lookup hs
    obtain ⟨fs', hfs', hconf⟩ := ih hinv hok
    rw [List.append_assoc] at hconf
    exact ⟨(some Modules, F') :: fs', .cons ⟨rfl, hv⟩ hfs', hconf⟩
  | _ => cases hok

/-- A configuration that is accepted has the formatters of its entries. -/
theorem validate_configured {c : Checks M Options O F E} {Value : List (Entry M Options)}
    (hok : loggingValidateFormatters c Value = .ok (some config)) :
    ∃ fs, List.Forall₂ (Asks c) Value fs ∧ Configured fs config := by
  unfold loggingValidateFormatters at hok
  split at hok
  · cases hok
  · cases hl : loggingValidateFormattersLoop c Value [none] ⟨none, Keys1Value.new, none⟩ with
    | error e =>
      rw [hl] at hok
      cases hok
    | ok config₁ =>
      rw [hl] at hok
      obtain rfl := Option.some.inj (Except.ok.inj hok)
      have hinv : LoopInv ([] : Formatters M O F) [none] ⟨none, Keys1Value.new, none⟩ := by
        refine ⟨fun F' => iff_of_false nofun List.not_mem_nil, Keys1Value.holds_new, fun s => ?_⟩
        refine iff_of_false (fun ⟨l, hl, h⟩ => ?_) fun ⟨p, hp, _⟩ => absurd hp List.not_mem_nil
        obtain rfl := List.mem_singleton.mp hl
        cases s <;> cases h
      exact loop_configured c hinv hl

/-! ## The formatter of a message -/

/-- The formatter that `log_message_formatters` finds for a module, `none` for `format_line`. -/
def formatterOf (formatters : Option (FormattersConfig M O F)) (Module : M) : Option (Formatter O F) :=
  match formatters with
  | none => none
  | some config =>
    match config.lookup.find Module with
    | some FormatterConfig => some FormatterConfig
    | none => config.default

/-- The formatter of a message is one of those that were validated. -/
theorem mem_of_formatterOf (h : Configured fs config)
    {Module : M} {F' : Formatter O F} (hf : formatterOf (some config) Module = some F') : ∃ k, (k, F') ∈ fs := by
  unfold formatterOf at hf
  dsimp only at hf
  cases hl : config.lookup.find Module with
  | none =>
    rw [hl] at hf
    exact ⟨none, (h.default F').mp hf⟩
  | some F₁ =>
    rw [hl] at hf
    obtain rfl := Option.some.inj hf
    obtain ⟨Modules, hin, -⟩ := (h.lookup.find_eq_some Module F₁).mp hl
    exact ⟨some Modules, mem_groupsOf.mp hin⟩

theorem formatterOf_configured (hconf : Configured fs config)
    (Module : M) (F' : Formatter O F) : formatterOf (some config) Module = some F' ↔
      (∃ Modules, (some Modules, F') ∈ fs ∧ Module ∈ Modules) ∨
      ((∀ Modules F'', (some Modules, F'') ∈ fs → Module ∉ Modules) ∧ (none, F') ∈ fs) := by
  have hfind : ∀ Module F',
      config.lookup.find Module = some F' ↔ ∃ Modules, (some Modules, F') ∈ fs ∧ Module ∈ Modules :=
    fun Module F' => (hconf.lookup.find_eq_some Module F').trans
      (exists_congr fun Modules => and_congr_left fun _ => mem_groupsOf)
  rw [formatterOf, ← hfind, ← hconf.default]
  cases hl : config.lookup.find Module with
  | some F₁ =>
    obtain ⟨Modules, hin, hmem⟩ := (hfind Module F₁).mp hl
    exact ⟨.inl, fun h => h.resolve_right fun hno => hno.1 Modules F₁ hin hmem⟩
  | none =>
    have hno : ∀ Modules F'', (some Modules, F'') ∈ fs → Module ∉ Modules := fun Modules F'' hin hmem => by
      rw [(hfind Module F'').mpr ⟨Modules, hin, hmem⟩] at hl
      cases hl
    exact ⟨fun h => .inr ⟨hno, h⟩, fun h => (h.resolve_left nofun).2⟩

/-- The formatter of a message is that of the one entry that lists its module, and without one that of `any`. Without
entries there is none. -/
theorem formatters_chosen {c : Checks M Options O F E} {Value : List (Entry M Options)}
    {config : Option (FormattersConfig M O F)} (hok : loggingValidateFormatters c Value = .ok config) :
    ∃ fs, List.Forall₂ (Asks c) Value fs ∧ ((groupsOf fs).flatMap Prod.fst).Nodup ∧ ∀ Module F',
      formatterOf config Module = some F' ↔
        (∃ Modules, (some Modules, F') ∈ fs ∧ Module ∈ Modules) ∨
        ((∀ Modules F'', (some Modules, F'') ∈ fs → Module ∉ Modules) ∧ (none, F') ∈ fs) := by
  cases config with
  | some config =>
    obtain ⟨fs, hfs, hconf⟩ := validate_configured hok
    exact ⟨fs, hfs, hconf.lookup.nodup, formatterOf_configured hconf⟩
  | none =>
    have hnil : Value = [] := by
      by_contra hne
      rw [loggingValidateFormatters, if_neg hne] at hok
      cases hl : loggingValidateFormattersLoop c Value [none] ⟨none, Keys1Value.new, none⟩ with
      | error e =>
        rw [hl] at hok
        cases hok
      | ok config =>
        rw [hl] at hok
        cases hok
    subst hnil
    refine ⟨[], .nil, List.nodup_nil, fun Module F' => ⟨fun h => (nomatch h), ?_⟩⟩
    rintro (⟨Modules, hin, -⟩ | ⟨-, hin⟩)
    · cases hin
    · cases hin

/-- All modules are atoms, and each formatter is an output of warnings. -/
def warnings : Checks Nat Unit Nat Nat Unit := ⟨fun _ => true, fun _ _ => .ok ⟨.warn, some 0, none⟩⟩

/-- A formatter for two modules, and one for the others. -/
theorem formatters_chosen_two :
    ∃ config, loggingValidateFormatters warnings [.modules [1, 2] (), .any ()] = .ok (some config) ∧
      ∃ fs, List.Forall₂ (Asks warnings) [.modules [1, 2] (), .any ()] fs ∧ ((groupsOf fs).flatMap Prod.fst).Nodup ∧
        ∀ Module F', formatterOf (some config) Module = some F' ↔
          (∃ Modules, (some Modules, F') ∈ fs ∧ Module ∈ Modules) ∨
          ((∀ Modules F'', (some Modules, F'') ∈ fs → Module ∉ Modules) ∧ (none, F') ∈ fs) :=
  ⟨_, rfl, formatters_chosen rfl⟩

end CloudI.Core.Logger
