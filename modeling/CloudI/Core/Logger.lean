import CloudI.Core.Flooding
import CloudI.Core.Formatters

/-!
# The logger

The server of `cloudi_core_i_logger.erl` with its settings, any of which may
change at any time. The processes that log call a module that the server makes
and loads again whenever the level, the mode or the destination of the messages
changes: it passes on the messages of the levels that it was made for, and
drops the others where they come from. `interface_exact` is that the module
passes on exactly the messages that one of the levels that are set allows, with
or without an output behind it; `dropped_unwritten` is that the messages it
drops would have been written nowhere by the logger of the node.
-/

namespace CloudI.Core.Logger

variable {M Options O F E Node Path : Type} [DecidableEq M]

/-! ## The interface module -/

/-- The functions of the module that `interface/3` makes which call the logger. -/
def interface : Loglevel → List Severity
  | .off => []
  | .fatal => [.fatal]
  | .error => [.fatal, .error]
  | .warn => [.fatal, .error, .warn]
  | .info => [.fatal, .error, .warn, .info]
  | .debug => [.fatal, .error, .warn, .info, .debug]
  | .trace => [.fatal, .error, .warn, .info, .debug, .trace]

/-- The module passes on what `log_level_allowed/2` allows. -/
theorem mem_interface (l : Loglevel) (s : Severity) : s ∈ interface l ↔ logLevelAllowed (some l) s = true := by
  cases l <;> cases s <;> decide

/-- The module `cloudi_core_i_logger_interface`: the levels that it passes on, and how and where to. `none` is the
logger of the node. -/
structure Interface (Node : Type) where
  passes : List Severity
  mode : Mode
  process : Option Node

/-- Why the server stops. -/
inductive Stop where
  | file
  | interface
deriving DecidableEq

/-- What comes from outside while an event is handled: whether a write to the file fails, whether the code server
refuses the module, and the length of the message queue behind a message. -/
structure Outside where
  fileFails : Bool
  loadFails : Bool
  messageQueueLen : Nat

/-- `load_interface_module/3` -/
def loadInterfaceModule (o : Outside) (Level : Option Loglevel) (Mode : Mode) (Process : Option Node) :
    Except Stop (Interface Node) :=
  match Level with
  | none => .error .interface
  | some Level => if o.loadFails then .error .interface else .ok ⟨interface Level, Mode, Process⟩

/-! ## The server -/

/-- A configuration of formatters, with the entries that it was accepted for. -/
structure Accepted (c : Checks M Options O F E) where
  config : FormattersConfig M O F
  entries : List (Entry M Options)
  accepted : loggingValidateFormatters c entries = .ok (some config)

/-- `#config_logging{}`. The configuration of syslog is its level. -/
structure Config (c : Checks M Options O F E) (Node Path : Type) where
  file : Option Path
  stdout : Bool
  level : Option Loglevel
  redirect : Option Node
  syslog : Option Loglevel
  formatters : Option (Accepted c)

/-- `#state{}` -/
structure State (c : Checks M Options O F E) (Node Path : Type) where
  filePath : Option Path
  interfaceModule : Interface Node
  stdout : Bool
  mainLevel : Option Loglevel
  level : Option Loglevel
  mode : Mode
  destination : Option Node
  syslogLevel : Option Loglevel
  formatters : Option (Accepted c)
  formattersLevel : Option Loglevel

variable {c : Checks M Options O F E}

/-- `log_level/1` -/
def logLevel (L : List (Option Loglevel)) : Option Loglevel := loggingLevelHighest (some .off :: L)

/-- The level of the formatters, as `init/1` and `log_config_formatters_set/2` read it. -/
def levelOf (formatters : Option (Accepted c)) : Option Loglevel := formatters.bind fun a => a.config.level

/-- `log_message_internal/11`, of which the server keeps whether the file was written. -/
def logMessageInternal (o : Outside) (Level : Severity) (s : State c Node Path) : Except Stop (State c Node Path) :=
  if logLevelAllowed s.mainLevel Level && s.filePath.isSome && o.fileFails then .error .file else .ok s

/-- `?LOG_INFO_T0`: a message of the server itself. -/
def logInfo (o : Outside) (s : State c Node Path) : Except Stop (State c Node Path) :=
  if logLevelAllowed s.level .info then logMessageInternal o .info s else .ok s

/-- `log_config_main_level_set/2` -/
def logConfigMainLevelSet (o : Outside) (MainLevel : Option Loglevel) (s : State c Node Path) :
    Except Stop (State c Node Path) :=
  if s.mainLevel = MainLevel then .ok s
  else do return { ← logInfo o s with mainLevel := MainLevel }

/-- `log_config_file_set/2` -/
def logConfigFileSet [DecidableEq Path] (o : Outside) (FilePath : Option Path) (s : State c Node Path) :
    Except Stop (State c Node Path) :=
  if s.filePath = FilePath then .ok s
  else do return { ← logInfo o s with filePath := FilePath }

/-- `log_config_stdout_set/2` -/
def logConfigStdoutSet (Stdout : Bool) (s : State c Node Path) : State c Node Path := { s with stdout := Stdout }

/-- `log_config_syslog_set/2` -/
def logConfigSyslogSet (o : Outside) (SyslogLevel : Option Loglevel) (s : State c Node Path) :
    Except Stop (State c Node Path) :=
  if SyslogLevel ≠ s.syslogLevel then do return { ← logInfo o s with syslogLevel := SyslogLevel }
  else .ok { s with syslogLevel := SyslogLevel }

/-- `log_config_formatters_set/2` -/
def logConfigFormattersSet (o : Outside) (FormattersConfig : Option (Accepted c)) (s : State c Node Path) :
    Except Stop (State c Node Path) :=
  if levelOf FormattersConfig ≠ s.formattersLevel then do
    return { ← logInfo o s with formatters := FormattersConfig, formattersLevel := levelOf FormattersConfig }
  else .ok { s with formatters := FormattersConfig, formattersLevel := levelOf FormattersConfig }

/-- `log_config_set/2`; the redirection comes back as an event. -/
def logConfigSet [DecidableEq Path] (o : Outside) (config : Config c Node Path) (s : State c Node Path) :
    Except Stop (State c Node Path) := do
  let s ← logConfigMainLevelSet o config.level s
  let s ← logConfigFileSet o config.file s
  let s := logConfigStdoutSet config.stdout s
  let s ← logConfigSyslogSet o config.syslog s
  logConfigFormattersSet o config.formatters s

/-- `log_level_update/1`, whose own message is cast to the destination. -/
def logLevelUpdate (o : Outside) (s : State c Node Path) : Except Stop (State c Node Path) :=
  let LevelNew := logLevel [s.mainLevel, s.syslogLevel, s.formattersLevel]
  if s.level = LevelNew then .ok s
  else do
    let Binary ← loadInterfaceModule o LevelNew s.mode s.destination
    return { s with interfaceModule := Binary, level := LevelNew }

/-- `log_redirect/3` -/
def logRedirect [DecidableEq Node] (o : Outside) (DestinationNew : Option Node) (s : State c Node Path) :
    Except Stop (State c Node Path) :=
  if s.destination = DestinationNew then .ok s
  else do
    let s ← logInfo o s
    let Binary ← loadInterfaceModule o s.level s.mode DestinationNew
    return { s with interfaceModule := Binary, destination := DestinationNew }

/-- `LOGGER_MSG_QUEUE_SYNC` -/
def loggerMsgQueueSync : Nat := 1000

/-- `LOGGER_MSG_QUEUE_ASYNC` -/
def loggerMsgQueueAsync : Nat := loggerMsgQueueSync - 250

/-- The mode that `log_mode_check/1` goes to. -/
def modeNew (ModeOld : Mode) (MessageQueueLength : Nat) : Mode :=
  if ModeOld = .async ∧ MessageQueueLength ≥ loggerMsgQueueSync then .sync
  else if ModeOld = .sync ∧ MessageQueueLength ≤ loggerMsgQueueAsync then .async
  else ModeOld

/-- `log_mode_check/1` -/
def logModeCheck (o : Outside) (s : State c Node Path) : Except Stop (State c Node Path) :=
  let ModeNew := modeNew s.mode o.messageQueueLen
  if ModeNew ≠ s.mode then do
    let Binary ← loadInterfaceModule o s.level ModeNew s.destination
    return { s with interfaceModule := Binary, mode := ModeNew }
  else .ok s

/-- The destination of a redirection, on the node of the logger. -/
def destinationOf [DecidableEq Node] (self : Node) (NodeLogger : Option Node) : Option Node :=
  if NodeLogger = some self then none else NodeLogger

/-- `init/1` -/
def init [DecidableEq Node] (o : Outside) (self : Node) (config : Config c Node Path) :
    Except Stop (State c Node Path) := do
  let Level := logLevel [config.level, config.syslog, levelOf config.formatters]
  let Destination := destinationOf self config.redirect
  let Binary ← loadInterfaceModule o Level .async Destination
  let s : State c Node Path :=
    { filePath := config.file, interfaceModule := Binary, stdout := config.stdout, mainLevel := config.level,
      level := Level, mode := .async, destination := none, syslogLevel := config.syslog,
      formatters := config.formatters, formattersLevel := levelOf config.formatters }
  match Destination with
  | none => if config.file.isSome && o.fileFails then .error .file else .ok s
  | some _ => return { ← logInfo o s with destination := Destination }

/-- What the server receives. -/
inductive Event (c : Checks M Options O F E) (Node Path : Type) where
  | set (config : Config c Node Path)
  | fileSet (FilePath : Option Path)
  | stdoutSet (Stdout : Bool)
  | levelSet (MainLevel : Option Loglevel)
  | syslogSet (SyslogLevel : Option Loglevel)
  | formattersSet (FormattersConfig : Option (Accepted c))
  | redirectUpdate (NodeLogger : Option Node)
  | message (Level : Severity)

/-- `handle_cast/2`, and the messages of `handle_call/3`. -/
def handle [DecidableEq Node] [DecidableEq Path] (o : Outside) (self : Node) (s : State c Node Path) :
    Event c Node Path → Except Stop (State c Node Path)
  | .set config => logConfigSet o config s >>= logLevelUpdate o
  | .fileSet FilePath => logConfigFileSet o FilePath s
  | .stdoutSet Stdout => .ok (logConfigStdoutSet Stdout s)
  | .levelSet MainLevel => logConfigMainLevelSet o MainLevel s >>= logLevelUpdate o
  | .syslogSet SyslogLevel => logConfigSyslogSet o SyslogLevel s >>= logLevelUpdate o
  | .formattersSet FormattersConfig => logConfigFormattersSet o FormattersConfig s >>= logLevelUpdate o
  | .redirectUpdate NodeLogger => logRedirect o (destinationOf self NodeLogger) s
  | .message Level => logMessageInternal o Level s >>= logModeCheck o

/-! ## The outputs of a message -/

/-- Where a message is written. -/
inductive Output (O : Type) where
  | stdout
  | file
  | syslog
  | output (o : O)

/-- What `log_message_internal/11` of the logger of the node writes a message of a module to. -/
def outputs (s : State c Node Path) (Level : Severity) (Module : M) : List (Output O) :=
  let notified :=
    match formatterOf (s.formatters.map Accepted.config) Module with
    | some FormatterConfig =>
      if logLevelAllowed (some FormatterConfig.level) Level then FormatterConfig.output.toList.map .output else []
    | none => []
  let main :=
    if logLevelAllowed s.mainLevel Level then
      (if s.stdout then [.stdout] else []) ++ (if s.filePath.isSome then [.file] else [])
    else []
  notified ++ main ++ if logLevelAllowed s.syslogLevel Level then [.syslog] else []

/-! ## The invariant -/

/-- The level is that of the settings. -/
def LevelCurrent (s : State c Node Path) : Prop := s.level = logLevel [s.mainLevel, s.syslogLevel, s.formattersLevel]

/-- The module was made for the level, the mode and the destination, and the level of the formatters is theirs. -/
structure Loaded (s : State c Node Path) : Prop where
  passes : ∀ l, l ∈ s.interfaceModule.passes ↔ logLevelAllowed s.level l = true
  mode : s.interfaceModule.mode = s.mode
  process : s.interfaceModule.process = s.destination
  formattersLevel : s.formattersLevel = levelOf s.formatters

theorem loadInterfaceModule_ok {o : Outside} {Level : Option Loglevel} {Mode : Mode} {Process : Option Node}
    {Binary : Interface Node} (h : loadInterfaceModule o Level Mode Process = .ok Binary) :
    (∀ l, l ∈ Binary.passes ↔ logLevelAllowed Level l = true) ∧ Binary.mode = Mode ∧ Binary.process = Process := by
  unfold loadInterfaceModule at h
  cases Level with
  | none => cases h
  | some Level =>
    dsimp only at h
    split at h
    · cases h
    · obtain rfl := Except.ok.inj h
      exact ⟨mem_interface Level, rfl, rfl⟩

variable {o : Outside} {s s' : State c Node Path}

theorem logMessageInternal_ok {Level : Severity} (h : logMessageInternal o Level s = .ok s') : s' = s := by
  unfold logMessageInternal at h
  split at h
  · cases h
  · exact (Except.ok.inj h).symm

theorem logInfo_ok (h : logInfo o s = .ok s') : s' = s := by
  unfold logInfo at h
  split at h
  · exact logMessageInternal_ok h
  · exact (Except.ok.inj h).symm

/-- A setting that was changed, behind the message of the change. -/
theorem set_ok {f : State c Node Path → State c Node Path} (h : (do return f (← logInfo o s)) = .ok s') : s' = f s := by
  cases hl : logInfo o s with
  | error e =>
    rw [hl] at h
    cases h
  | ok s₁ =>
    rw [hl] at h
    rw [← logInfo_ok hl]
    exact (Except.ok.inj h).symm

theorem mainLevelSet_ok {MainLevel : Option Loglevel} (h : logConfigMainLevelSet o MainLevel s = .ok s') :
    s' = { s with mainLevel := MainLevel } := by
  unfold logConfigMainLevelSet at h
  split at h
  · rename_i he
    rw [← Except.ok.inj h, ← he]
  · exact set_ok (f := fun s => { s with mainLevel := MainLevel }) h

theorem fileSet_ok [DecidableEq Path] {FilePath : Option Path} (h : logConfigFileSet o FilePath s = .ok s') :
    s' = { s with filePath := FilePath } := by
  unfold logConfigFileSet at h
  split at h
  · rename_i he
    rw [← Except.ok.inj h, ← he]
  · exact set_ok (f := fun s => { s with filePath := FilePath }) h

theorem syslogSet_ok {SyslogLevel : Option Loglevel} (h : logConfigSyslogSet o SyslogLevel s = .ok s') :
    s' = { s with syslogLevel := SyslogLevel } := by
  unfold logConfigSyslogSet at h
  split at h
  · exact set_ok (f := fun s => { s with syslogLevel := SyslogLevel }) h
  · exact (Except.ok.inj h).symm

theorem formattersSet_ok {FormattersConfig : Option (Accepted c)}
    (h : logConfigFormattersSet o FormattersConfig s = .ok s') :
    s' = { s with formatters := FormattersConfig, formattersLevel := levelOf FormattersConfig } := by
  unfold logConfigFormattersSet at h
  split at h
  · exact set_ok
      (f := fun s => { s with formatters := FormattersConfig, formattersLevel := levelOf FormattersConfig }) h
  · exact (Except.ok.inj h).symm

theorem configSet_ok [DecidableEq Path] {config : Config c Node Path} (h : logConfigSet o config s = .ok s') :
    s' = { s with
      mainLevel := config.level, filePath := config.file, stdout := config.stdout, syslogLevel := config.syslog,
      formatters := config.formatters, formattersLevel := levelOf config.formatters } := by
  obtain ⟨s₁, h₁, h⟩ := bind_eq_ok h
  obtain ⟨s₂, h₂, h⟩ := bind_eq_ok h
  obtain ⟨s₃, h₃, h⟩ := bind_eq_ok h
  rw [formattersSet_ok h, syslogSet_ok h₃, fileSet_ok h₂, mainLevelSet_ok h₁]
  rfl

/-- Behind a change of a level, the level of the server is that of the settings again. -/
theorem levelUpdate_ok (h : logLevelUpdate o s = .ok s') (hs : Loaded s) : Loaded s' ∧ LevelCurrent s' := by
  unfold logLevelUpdate at h
  dsimp only at h
  split at h
  · rename_i he
    obtain rfl := Except.ok.inj h
    exact ⟨hs, he⟩
  · obtain ⟨Binary, hb, h⟩ := bind_eq_ok h
    obtain rfl := Except.ok.inj h
    obtain ⟨hpasses, hmode, hprocess⟩ := loadInterfaceModule_ok hb
    exact ⟨⟨hpasses, hmode, hprocess, hs.formattersLevel⟩, rfl⟩

theorem redirect_ok [DecidableEq Node] {DestinationNew : Option Node} (hs : Loaded s) (hc : LevelCurrent s)
    (h : logRedirect o DestinationNew s = .ok s') : Loaded s' ∧ LevelCurrent s' := by
  unfold logRedirect at h
  split at h
  · obtain rfl := Except.ok.inj h
    exact ⟨hs, hc⟩
  · obtain ⟨s₁, h₁, h₂⟩ := bind_eq_ok h
    obtain rfl := logInfo_ok h₁
    obtain ⟨Binary, hb, h₃⟩ := bind_eq_ok h₂
    obtain rfl := Except.ok.inj h₃
    obtain ⟨hpasses, hmode, hprocess⟩ := loadInterfaceModule_ok hb
    exact ⟨⟨hpasses, hmode, hprocess, hs.formattersLevel⟩, hc⟩

theorem modeCheck_ok (hs : Loaded s) (hc : LevelCurrent s) (h : logModeCheck o s = .ok s') :
    Loaded s' ∧ LevelCurrent s' := by
  unfold logModeCheck at h
  dsimp only at h
  split at h
  · obtain ⟨Binary, hb, h⟩ := bind_eq_ok h
    obtain rfl := Except.ok.inj h
    obtain ⟨hpasses, hmode, hprocess⟩ := loadInterfaceModule_ok hb
    exact ⟨⟨hpasses, hmode, hprocess, hs.formattersLevel⟩, hc⟩
  · obtain rfl := Except.ok.inj h
    exact ⟨hs, hc⟩

theorem init_ok [DecidableEq Node] {self : Node} {config : Config c Node Path} (h : init o self config = .ok s) :
    Loaded s ∧ LevelCurrent s := by
  obtain ⟨Binary, hb, h⟩ := bind_eq_ok h
  obtain ⟨hpasses, hmode, hprocess⟩ := loadInterfaceModule_ok hb
  cases hd : destinationOf self config.redirect with
  | none =>
    rw [hd] at h hprocess
    dsimp only at h
    split at h
    · cases h
    · obtain rfl := Except.ok.inj h
      exact ⟨⟨hpasses, hmode, hprocess, rfl⟩, rfl⟩
  | some node =>
    rw [hd] at h hprocess
    obtain rfl := set_ok (f := fun s => { s with destination := some node }) h
    exact ⟨⟨hpasses, hmode, hprocess, rfl⟩, rfl⟩

/-- A message is allowed by the main level, which is that of the file and of standard output whether there are any or
not, by the level of syslog, or by a formatter with an output that an entry of the configuration asks for. -/
def Allowed (s : State c Node Path) (Level : Severity) : Prop :=
  logLevelAllowed s.mainLevel Level = true ∨ logLevelAllowed s.syslogLevel Level = true ∨
    ∃ a ∈ s.formatters, ∃ fs, List.Forall₂ (Asks c) a.entries fs ∧ OutputAllows fs Level

theorem level_allowed_iff (hs : Loaded s) (hc : LevelCurrent s) (Level : Severity) :
    logLevelAllowed s.level Level = true ↔ Allowed s Level := by
  have hoff : logLevelAllowed (some .off) Level = false := by cases Level <;> rfl
  rw [hc, logLevel, highest_allowed, hs.formattersLevel]
  simp only [List.mem_cons, List.not_mem_nil, or_false, exists_eq_or_imp, exists_eq_left, hoff, Bool.false_eq_true,
    false_or]
  refine or_congr_right (or_congr_right ?_)
  cases hf : s.formatters with
  | none =>
    refine iff_of_false (by cases Level <;> simp [levelOf, logLevelAllowed]) ?_
    rintro ⟨a, ha, -⟩
    cases ha
  | some a =>
    obtain ⟨fs, hfs, hconf⟩ := validate_configured a.accepted
    constructor
    · exact fun h => ⟨a, rfl, fs, hfs, (hconf.level Level).mp h⟩
    · rintro ⟨a', ha', fs', hfs', hout⟩
      obtain rfl := Option.some.inj ha'
      obtain rfl := (asks_unique c).forall₂ hfs hfs'
      exact (hconf.level Level).mpr hout

/-! ## Runs -/

variable [DecidableEq Node] [DecidableEq Path]

/-- Every event keeps the module and the level current. -/
theorem handle_ok {self : Node} (e : Event c Node Path) (hs : Loaded s) (hc : LevelCurrent s)
    (h : handle o self s e = .ok s') : Loaded s' ∧ LevelCurrent s' := by
  cases e with
  | set config =>
    obtain ⟨s₁, h₁, h₂⟩ := bind_eq_ok h
    obtain rfl := configSet_ok h₁
    exact levelUpdate_ok h₂ ⟨hs.passes, hs.mode, hs.process, rfl⟩
  | fileSet FilePath =>
    obtain rfl := fileSet_ok h
    exact ⟨⟨hs.passes, hs.mode, hs.process, hs.formattersLevel⟩, hc⟩
  | stdoutSet Stdout =>
    obtain rfl := Except.ok.inj h
    exact ⟨⟨hs.passes, hs.mode, hs.process, hs.formattersLevel⟩, hc⟩
  | levelSet MainLevel =>
    obtain ⟨s₁, h₁, h₂⟩ := bind_eq_ok h
    obtain rfl := mainLevelSet_ok h₁
    exact levelUpdate_ok h₂ ⟨hs.passes, hs.mode, hs.process, hs.formattersLevel⟩
  | syslogSet SyslogLevel =>
    obtain ⟨s₁, h₁, h₂⟩ := bind_eq_ok h
    obtain rfl := syslogSet_ok h₁
    exact levelUpdate_ok h₂ ⟨hs.passes, hs.mode, hs.process, hs.formattersLevel⟩
  | formattersSet FormattersConfig =>
    obtain ⟨s₁, h₁, h₂⟩ := bind_eq_ok h
    obtain rfl := formattersSet_ok h₁
    exact levelUpdate_ok h₂ ⟨hs.passes, hs.mode, hs.process, rfl⟩
  | redirectUpdate NodeLogger => exact redirect_ok hs hc h
  | message Level =>
    obtain ⟨s₁, h₁, h₂⟩ := bind_eq_ok h
    obtain rfl := logMessageInternal_ok h₁
    exact modeCheck_ok hs hc h₂

/-- The states of a server that was started on the node, and has not stopped. -/
inductive Run (self : Node) : State c Node Path → Prop
  | init {o : Outside} {config : Config c Node Path} {s : State c Node Path} (h : init o self config = .ok s) :
      Run self s
  | handle {o : Outside} {e : Event c Node Path} {s s' : State c Node Path} (hs : Run self s)
      (h : handle o self s e = .ok s') : Run self s'

theorem Run.current {self : Node} (h : Run self s) : Loaded s ∧ LevelCurrent s := by
  induction h with
  | init h => exact init_ok h
  | handle _ h ih => exact handle_ok _ ih.1 ih.2 h

/-- In every state that a logger comes to, the module that is loaded passes on the messages of exactly those levels
that one of the levels that are set allows, in the mode and to the destination of the state. -/
theorem interface_exact {self : Node} (h : Run self s) :
    (∀ Level, Level ∈ s.interfaceModule.passes ↔ Allowed s Level) ∧ s.interfaceModule.mode = s.mode ∧
      s.interfaceModule.process = s.destination := by
  obtain ⟨hs, hc⟩ := h.current
  exact ⟨fun Level => (hs.passes Level).trans (level_allowed_iff hs hc Level), hs.mode, hs.process⟩

/-- Errors in a file, and the warnings of one module in an output. -/
def twoOutputs : Config warnings Nat Nat :=
  ⟨some 0, false, some .error, none, none, some ⟨_, [.modules [1] ()], rfl⟩⟩

theorem interface_exact_two : ∃ s : State warnings Nat Nat, init ⟨false, false, 0⟩ 0 twoOutputs = .ok s ∧
    (∀ Level, Level ∈ s.interfaceModule.passes ↔ Allowed s Level) ∧ s.interfaceModule.mode = s.mode ∧
      s.interfaceModule.process = s.destination :=
  have h : init ⟨false, false, 0⟩ 0 twoOutputs = .ok _ := rfl
  ⟨_, h, interface_exact (.init h)⟩

/-- What the module drops, the logger of the node would have written nowhere. -/
theorem dropped_unwritten {self : Node} (h : Run self s) {Level : Severity} (hd : Level ∉ s.interfaceModule.passes)
    (Module : M) : outputs s Level Module = [] := by
  obtain ⟨hs, hc⟩ := h.current
  have hnot : ¬Allowed s Level := fun ht => hd ((hs.passes Level).mpr ((level_allowed_iff hs hc Level).mpr ht))
  have hmain : ¬logLevelAllowed s.mainLevel Level = true := fun h => hnot (.inl h)
  have hsyslog : ¬logLevelAllowed s.syslogLevel Level = true := fun h => hnot (.inr (.inl h))
  unfold outputs
  rw [if_neg hmain, if_neg hsyslog]
  cases hf : formatterOf (s.formatters.map Accepted.config) Module with
  | none => rfl
  | some F' =>
    cases ho : F'.output with
    | none => simp [ho]
    | some out =>
      by_cases hl : logLevelAllowed (some F'.level) Level = true
      · refine absurd (.inr (.inr ?_)) hnot
        cases ha : s.formatters with
        | none =>
          rw [ha] at hf
          cases hf
        | some a =>
          rw [ha] at hf
          obtain ⟨fs, hfs, hconf⟩ := validate_configured a.accepted
          have hin : ∃ k, (k, F') ∈ fs := mem_of_formatterOf hconf hf
          obtain ⟨k, hin⟩ := hin
          exact ⟨a, rfl, fs, hfs, _, hin, by rw [ho]; rfl, hl⟩
      · simp [hl]

/-- A warning of the module with a formatter is no more passed on when the main level is `error` and the formatters are
gone. -/
theorem dropped_unwritten_info : ∃ s s' : State warnings Nat Nat, init ⟨false, false, 0⟩ 0 twoOutputs = .ok s ∧
    outputs s .warn 1 ≠ [] ∧ handle ⟨false, false, 0⟩ 0 s (.formattersSet none) = .ok s' ∧ outputs s' .warn 1 = [] :=
  have h : init ⟨false, false, 0⟩ 0 twoOutputs = .ok _ := rfl
  have h' : handle ⟨false, false, 0⟩ 0 _ (.formattersSet none) = .ok _ := rfl
  ⟨_, _, h, by decide, h', dropped_unwritten (.handle (.init h) h') (by decide) 1⟩

end CloudI.Core.Logger
