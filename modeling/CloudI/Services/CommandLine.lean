import CloudI.Framework.Exn
import CloudI.Services.Environment
import Mathlib.Data.List.Basic

/-!
# The command line of an external service

The arguments of an external service are one string. `environment_transform` replaces the environment variables
in it, `arguments_parse` removes the quotes and puts a zero where the spaces end that separate two arguments,
and the spawn process makes the `argv` array of the new OS process from what results.

What `arguments_parse` gives is what is between its zeros, the `fields` of the string
(`splitOn_arguments_parse`), and the array has one pointer for each (`map_resolve_execveArgv`). The recorded
command line leaves the empty ones out, and the array is counted without a zero at the start
(`length_execveArgv`), so that both are right when no argument of the string is empty.
-/

set_option linter.unusedSectionVars false

namespace CloudI.Services.CommandLine

/-- The characters of a string that is sent to the spawn process. -/
abbrev Str := List UInt8

/-- `environment_transform` of a string whose characters are bytes. -/
def environmentTransform (lookup : Str → Option Str) (string : Str) : Str :=
  Environment.toBytes (Environment.environmentTransform (Environment.lookupBytes lookup) (Environment.ofBytes string))

/-! ## `filename_parse` and `arguments_parse` -/

/-- The reasons of the errors, each with the string it is about. -/
inductive Error where
  | service_external_file_path_invalid_expanded (filename : Str)
  | service_external_args_malformed (arguments : Str)
  | service_options_directory_invalid (newDirectory : Str)
deriving DecidableEq

def filenameParse (lookup : Str → Option Str) (filename : Str) : Except Error Str :=
  match environmentTransform lookup filename with
  | [] => .error (.service_external_file_path_invalid_expanded filename)
  | newFilename => .ok newFilename

/-- The characters `'`, `"` and `` ` ``. -/
def quote (c : UInt8) : Bool := c == 39 || c == 34 || c == 96

/-- `arguments_parse/3`, where `none` as the result is the atom `service_external_args_malformed`. -/
def argumentsParse3 : Str → Option UInt8 → Str → Option Str
  | output, none, [] => some output.reverse
  | _, some _, [] => none
  | output, none, h :: t =>
    if quote h then argumentsParse3 output (some h) t
    else if h = 32 ∧ t.head? = some 32 then argumentsParse3 output none t
    else if h = 32 then argumentsParse3 (0 :: output) none t
    else argumentsParse3 (h :: output) none t
  | output, some delim, h :: t =>
    if h = delim then argumentsParse3 output none t else argumentsParse3 (h :: output) (some delim) t

/-- `arguments_parse/2`. -/
def argumentsParse (lookup : Str → Option Str) : Str → Except Error Str
  | 32 :: arguments => argumentsParse lookup arguments
  | arguments =>
    match argumentsParse3 [] none (environmentTransform lookup arguments) with
    | some newArguments => .ok newArguments
    | none => .error (.service_external_args_malformed arguments)

/-- `string:tokens` with one separator. -/
def tokens (string : Str) (separator : UInt8) : List Str := (string.splitOn separator).filter (· ≠ [])

/-- The `CommandLine` of `start_external_spawn_params_parse`. -/
def commandLine (newFilename newArguments : Str) : List Str := newFilename :: tokens newArguments 0

/-- `directory_format`, with the directories of the file system. -/
def directoryFormat (lookup : Str → Option Str) (isDir : Str → Bool) : Option Str → Except Error Str
  | none => .ok []
  | some directory =>
    let newDirectory := environmentTransform lookup directory
    if isDir newDirectory then .ok newDirectory else .error (.service_options_directory_invalid newDirectory)

/-- `start_external_spawn_params_parse`: the command line, the file name, the arguments and the directory. -/
def startExternalSpawnParamsParse (lookup : Str → Option Str) (isDir : Str → Bool) (filename arguments : Str)
    (directory : Option Str) : Except Error (List Str × Str × Str × Str) := do
  let newFilename ← filenameParse lookup filename
  let newArguments ← argumentsParse lookup arguments
  let newDirectory ← directoryFormat lookup isDir directory
  pure (commandLine newFilename newArguments, newFilename, newArguments, newDirectory)

def stringTerminate (l : Str) : Str := l ++ [0]

/-! ## The array of the spawn process -/

/-- The entries of `execve_argv`: `filename`, `&(argv[offset])` and the null pointer. -/
inductive Entry where
  | filename
  | argument (offset : Nat)
  | null
deriving DecidableEq

/-- `argv_count` after its loop. -/
def argvCount (argv : Str) : Nat := argv.tail.foldl (fun count c => if c = 0 then count + 1 else count) 2

/-- The loop over `argv` that points after each zero, from the index `i`. -/
def pointers (i : Nat) : Str → List Entry
  | [] => []
  | c :: rest => if c = 0 then .argument (i + 1) :: pointers (i + 1) rest else pointers (i + 1) rest

/-- What is written to `execve_argv`, in the order of `index`. -/
def execveArgv (argv : Str) : List Entry :=
  if argvCount argv = 2 then [.filename, .null]
  else .filename :: .argument 0 :: pointers 0 argv.dropLast ++ [.null]

/-- The string that an entry points to: it ends before the next zero. -/
def resolve (filename argv : Str) : Entry → Option Str
  | .filename => some filename
  | .argument offset => some ((argv.drop offset).takeWhile (· ≠ 0))
  | .null => none

/-! ## The fields of a string of arguments -/

/-- What is between the ends of the arguments of a string, from inside the quotes `delim` or outside of any. -/
def fields : Option UInt8 → Str → List Str
  | _, [] => [[]]
  | none, h :: t =>
    if quote h then fields (some h) t
    else if h = 32 ∧ t.head? = some 32 then fields none t
    else if h = 32 then [] :: fields none t
    else if h = 0 then [] :: fields none t else (fields none t).modifyHead (h :: ·)
  | some delim, h :: t =>
    if h = delim then fields none t
    else if h = 0 then [] :: fields (some delim) t else (fields (some delim) t).modifyHead (h :: ·)

/-- No argument of the string is empty, or there is no argument. -/
def Delimited (lookup : Str → Option Str) (arguments : Str) : Prop :=
  let string := environmentTransform lookup (arguments.dropWhile (· = 32))
  fields none string = [[]] ∨ [] ∉ fields none string

theorem splitOn_cons (h : UInt8) (t : Str) :
    (h :: t).splitOn 0 = if h = 0 then [] :: t.splitOn 0 else (t.splitOn 0).modifyHead (h :: ·) := by
  rw [List.splitOn_cons_eq_if_modifyHead]
  simp only [beq_iff_eq]

/-- What follows the output in the string is, between its zeros, these fields. -/
def Appended (output newArguments : Str) (ws : List Str) : Prop :=
  ∃ rest, newArguments = output.reverse ++ rest ∧ rest.splitOn 0 = ws

theorem Appended.of_cons {c : UInt8} {output newArguments : Str} {ws : List Str}
    (h : Appended (c :: output) newArguments ws) :
    Appended output newArguments (if c = 0 then [] :: ws else ws.modifyHead (c :: ·)) := by
  obtain ⟨rest, hnew, hrest⟩ := h
  refine ⟨c :: rest, ?_, ?_⟩
  · rw [hnew, List.reverse_cons, List.append_assoc, List.singleton_append]
  · rw [splitOn_cons, hrest]

theorem appended_argumentsParse3 {output : Str} {delim : Option UInt8} {string newArguments : Str}
    (h : argumentsParse3 output delim string = some newArguments) :
    Appended output newArguments (fields delim string) := by
  fun_induction argumentsParse3 output delim string with
  | case1 output =>
    exact ⟨[], by rw [List.append_nil, ← Option.some.inj h], by rw [List.splitOn_nil, fields]⟩
  | case2 => simp only [reduceCtorEq] at h
  | case3 output c t hq ih =>
    -- a quote begins
    rw [fields, if_pos hq]
    exact ih h
  | case4 output c t hq hs ih =>
    -- a space before another one
    rw [fields, if_neg hq, if_pos hs]
    exact ih h
  | case5 output t hq hs ih =>
    -- the last space, in place of which there is a zero
    rw [fields, if_neg hq, if_neg hs, if_pos rfl]
    exact (ih h).of_cons
  | case6 output c t hq hs hspace ih =>
    rw [fields, if_neg hq, if_neg hs, if_neg hspace]
    exact (ih h).of_cons
  | case7 output t q ih =>
    -- the quote ends
    rw [fields, if_pos rfl]
    exact ih h
  | case8 output q c t hq ih =>
    rw [fields, if_neg hq]
    exact (ih h).of_cons

/-- What `arguments_parse` gives is, between its zeros, the fields of the string. -/
theorem splitOn_argumentsParse3 {string newArguments : Str} (h : argumentsParse3 [] none string = some newArguments) :
    newArguments.splitOn 0 = fields none string := by
  obtain ⟨rest, hnew, hrest⟩ := appended_argumentsParse3 h
  rw [hnew, List.reverse_nil, List.nil_append, hrest]

theorem splitOn_argumentsParse {lookup : Str → Option Str} {arguments newArguments : Str}
    (h : argumentsParse lookup arguments = .ok newArguments) :
    newArguments.splitOn 0 = fields none (environmentTransform lookup (arguments.dropWhile (· = 32))) := by
  fun_induction argumentsParse lookup arguments with
  | case1 arguments ih => exact ih h
  | case2 arguments hspace new hnew =>
    have hdrop : arguments.dropWhile (· = 32) = arguments := by
      cases arguments with
      | nil => rfl
      | cons c rest => exact List.dropWhile_cons_of_neg (by simpa using hspace rest)
    rw [hdrop, ← Except.ok.inj h]
    exact splitOn_argumentsParse3 hnew
  | case3 => simp only [reduceCtorEq] at h

/-! ## The array and the fields -/

theorem foldl_count (string : Str) (n : Nat) :
    string.foldl (fun count c => if c = 0 then count + 1 else count) n = n + string.count 0 := by
  induction string generalizing n with
  | nil => rfl
  | cons c rest ih =>
    rw [List.foldl_cons, ih, List.count_cons]
    by_cases hc : c = 0
    · rw [if_pos hc, hc, beq_self_eq_true, if_pos rfl]
      omega
    · rw [if_neg hc, if_neg (by rwa [beq_iff_eq]), Nat.add_zero]

/-- The count leaves the first character out, and has the terminating zero. -/
theorem argvCount_cons (c : UInt8) (rest : Str) : argvCount (stringTerminate (c :: rest)) = 3 + rest.count 0 := by
  rw [argvCount, stringTerminate, List.cons_append, List.tail_cons, foldl_count, List.count_append]
  show 2 + (rest.count 0 + 1) = _
  omega

theorem length_pointers (i : Nat) (string : Str) : (pointers i string).length = string.count 0 := by
  induction string generalizing i with
  | nil => rfl
  | cons c rest ih =>
    rw [pointers, List.count_cons, ← ih (i + 1)]
    by_cases hc : c = 0
    · rw [if_pos hc, hc, List.length_cons, beq_self_eq_true, if_pos rfl]
    · rw [if_neg hc, if_neg (by rwa [beq_iff_eq])]
      rfl

/-- The pointers from the index `i` are to the fields of the rest of the string. -/
theorem map_resolve_pointers {filename argv string : Str} {i : Nat} (h : argv.drop i = stringTerminate string) :
    (Entry.argument i :: pointers i string).map (resolve filename argv) = (string.splitOn 0).map some := by
  induction string generalizing i with
  | nil =>
    rw [pointers, List.map_singleton, resolve, h, List.splitOn_nil]
    rfl
  | cons c rest ih =>
    have hnext : argv.drop (i + 1) = stringTerminate rest := by
      rw [← List.tail_drop, h]
      rfl
    have hrest := ih hnext
    rw [List.map_cons, resolve, h, pointers, splitOn_cons]
    by_cases hc : c = 0
    · rw [if_pos hc, if_pos hc, hrest, List.map_cons, hc]
      rfl
    · rw [if_neg hc, if_neg hc]
      rw [List.map_cons, resolve, hnext] at hrest
      obtain ⟨w, ws, hw⟩ := List.exists_cons_of_ne_nil (List.splitOn_ne_nil 0 rest)
      rw [hw, List.map_cons, List.cons.injEq] at hrest
      rw [hw, List.modifyHead_cons, List.map_cons, ← hrest.2, ← Option.some.inj hrest.1]
      congr 2
      rw [stringTerminate, List.cons_append, List.takeWhile_cons_of_pos (by simp [hc])]
      rfl

theorem execveArgv_cons (c : UInt8) (rest : Str) : execveArgv (stringTerminate (c :: rest)) =
    .filename :: .argument 0 :: pointers 0 (c :: rest) ++ [.null] := by
  rw [execveArgv, if_neg (by rw [argvCount_cons]; omega), stringTerminate, List.dropLast_concat]

theorem length_execveArgv (c : UInt8) (rest : Str) :
    (execveArgv (stringTerminate (c :: rest))).length = 3 + (c :: rest).count 0 := by
  rw [execveArgv_cons, List.length_append, List.length_cons, List.length_cons, length_pointers]
  show _ + 1 = _
  omega

/-- The array has the fields of the string between the file name and the null pointer. -/
theorem map_resolve_execveArgv (filename : Str) (c : UInt8) (rest : Str) :
    (execveArgv (stringTerminate (c :: rest))).map (resolve filename (stringTerminate (c :: rest))) =
      some filename :: ((c :: rest).splitOn 0).map some ++ [none] := by
  rw [execveArgv_cons, List.map_append, List.map_cons, map_resolve_pointers rfl]
  rfl

theorem nil_mem_splitOn_zero (rest : Str) : [] ∈ (0 :: rest).splitOn 0 := by
  rw [splitOn_cons, if_pos rfl]
  exact List.mem_cons_self

/-- The command line has the fields that are not empty. -/
theorem commandLine_eq_iff (filename newArguments : Str) :
    some filename :: (newArguments.splitOn 0).map some = (commandLine filename newArguments).map some ↔
      [] ∉ newArguments.splitOn 0 := by
  rw [commandLine, tokens, List.map_cons, List.cons.injEq, List.map_inj_right fun _ _ h => Option.some.inj h,
    eq_self, true_and, @eq_comm _ (newArguments.splitOn 0), List.filter_eq_self]
  refine ⟨fun h hm => ?_, fun h w hw => ?_⟩
  · exact absurd (h _ hm) (by decide)
  · exact decide_eq_true fun hnil => h (hnil ▸ hw)

theorem startExternalSpawnParamsParse_ok {lookup : Str → Option Str} {isDir : Str → Bool} {filename arguments : Str}
    {directory : Option Str} {line : List Str} {newFilename newArguments newDirectory : Str}
    (h : startExternalSpawnParamsParse lookup isDir filename arguments directory =
      .ok (line, newFilename, newArguments, newDirectory)) :
    line = commandLine newFilename newArguments ∧ argumentsParse lookup arguments = .ok newArguments := by
  obtain ⟨f, -, h⟩ := bind_eq_ok h
  obtain ⟨a, ha, h⟩ := bind_eq_ok h
  obtain ⟨d, -, h⟩ := bind_eq_ok h
  obtain ⟨rfl, rfl, rfl, rfl⟩ : _ ∧ _ ∧ _ ∧ _ := by
    simpa only [pure, Except.pure, Except.ok.injEq, Prod.mk.injEq] using h
  exact ⟨rfl, ha⟩

theorem execveArgv_iff (filename newArguments : Str) :
    ((execveArgv (stringTerminate newArguments)).length = argvCount (stringTerminate newArguments) ∧
      (execveArgv (stringTerminate newArguments)).map (resolve filename (stringTerminate newArguments)) =
        (commandLine filename newArguments).map some ++ [none]) ↔
      newArguments.splitOn 0 = [[]] ∨ [] ∉ newArguments.splitOn 0 := by
  cases newArguments with
  | nil => exact ⟨fun _ => .inl (List.splitOn_nil 0), fun _ => ⟨rfl, rfl⟩⟩
  | cons c rest =>
    rw [length_execveArgv, argvCount_cons, map_resolve_execveArgv, List.append_cancel_right_eq, commandLine_eq_iff]
    refine ⟨fun h => .inr h.2, fun h => ?_⟩
    have hmem : [] ∉ (c :: rest).splitOn 0 := by
      refine h.resolve_left fun hnil => ?_
      have hr : List.intercalate [0] ((c :: rest).splitOn 0) = c :: rest := List.intercalate_splitOn _
      rw [hnil] at hr
      exact absurd hr.symm (List.cons_ne_nil _ _)
    refine ⟨?_, hmem⟩
    have hc : c ≠ 0 := fun hc => hmem (hc ▸ nil_mem_splitOn_zero rest)
    rw [List.count_cons_of_ne hc]

/-- The array of the new OS process is as large as it was allocated and has the file name, the arguments of the
recorded command line and the null pointer exactly when no argument of the string is empty. -/
theorem execveArgv_eq_commandLine_iff (lookup : Str → Option Str) (isDir : Str → Bool) (filename arguments : Str)
    (directory : Option Str) (line : List Str) (newFilename newArguments newDirectory : Str)
    (h : startExternalSpawnParamsParse lookup isDir filename arguments directory =
      .ok (line, newFilename, newArguments, newDirectory)) :
    ((execveArgv (stringTerminate newArguments)).length = argvCount (stringTerminate newArguments) ∧
      ∃ strings, line = newFilename :: strings ∧
        (execveArgv (stringTerminate newArguments)).map (resolve newFilename (stringTerminate newArguments)) =
          some newFilename :: strings.map some ++ [none]) ↔ Delimited lookup arguments := by
  obtain ⟨hline, harg⟩ := startExternalSpawnParamsParse_ok h
  subst hline
  rw [Delimited, ← splitOn_argumentsParse harg, ← execveArgv_iff newFilename]
  refine and_congr_right fun _ => ⟨?_, fun h => ⟨_, rfl, h⟩⟩
  rintro ⟨strings, hstrings, h⟩
  rw [h, hstrings]
  rfl

/-- Three arguments, one of which has a space and comes from the environment. -/
theorem execveArgv_three : startExternalSpawnParamsParse (fun _ => some [120]) (fun _ => true) [47, 97]
      [97, 32, 39, 98, 32, 36, 88, 39, 32, 99] none =
        .ok ([[47, 97], [97], [98, 32, 120], [99]], [47, 97], [97, 0, 98, 32, 120, 0, 99], []) ∧
    ((execveArgv (stringTerminate [97, 0, 98, 32, 120, 0, 99])).length =
        argvCount (stringTerminate [97, 0, 98, 32, 120, 0, 99]) ∧
      ∃ strings, [[47, 97], [97], [98, 32, 120], [99]] = [47, 97] :: strings ∧
        (execveArgv (stringTerminate [97, 0, 98, 32, 120, 0, 99])).map
          (resolve [47, 97] (stringTerminate [97, 0, 98, 32, 120, 0, 99])) =
            some [47, 97] :: strings.map some ++ [none]) := by
  have h : startExternalSpawnParamsParse (fun _ => some [120]) (fun _ => true) [47, 97]
      [97, 32, 39, 98, 32, 36, 88, 39, 32, 99] none =
        .ok ([[47, 97], [97], [98, 32, 120], [99]], [47, 97], [97, 0, 98, 32, 120, 0, 99], []) := by
    simp [startExternalSpawnParamsParse, filenameParse, argumentsParse, environmentTransform,
      Environment.environmentTransform, Environment.environmentTransform4, Environment.environmentTransformValue,
      Environment.nameChar, Environment.lookupBytes, Environment.ofBytes, Environment.toBytes, argumentsParse3,
      quote, directoryFormat, commandLine, tokens]
    rfl
  refine ⟨h, (execveArgv_eq_commandLine_iff _ _ _ _ _ _ _ _ _ h).mpr (.inr ?_)⟩
  simp [environmentTransform, Environment.environmentTransform, Environment.environmentTransform4,
    Environment.environmentTransformValue, Environment.nameChar, Environment.lookupBytes, Environment.ofBytes,
    Environment.toBytes, fields, quote]

/-- The space after a variable that is not set is at the start of the arguments: an entry more than were allocated
is written, and there is an empty argument. -/
theorem execveArgv_leading_space :
    startExternalSpawnParamsParse (fun _ => none) (fun _ => true) [47, 97] [36, 88, 32, 97] none =
      .ok ([[47, 97], [97]], [47, 97], [0, 97], []) ∧
    argvCount (stringTerminate [0, 97]) = 3 ∧ (execveArgv (stringTerminate [0, 97])).length = 4 ∧
    (execveArgv (stringTerminate [0, 97])).map (resolve [47, 97] (stringTerminate [0, 97])) =
      [some [47, 97], some [], some [97], none] := by
  refine ⟨?_, rfl, rfl, rfl⟩
  simp [startExternalSpawnParamsParse, filenameParse, argumentsParse, environmentTransform,
    Environment.environmentTransform, Environment.environmentTransform4, Environment.environmentTransformValue,
    Environment.nameChar, Environment.lookupBytes, Environment.ofBytes, Environment.toBytes, argumentsParse3,
    quote, directoryFormat, commandLine, tokens]
  rfl

end CloudI.Services.CommandLine
