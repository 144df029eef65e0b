import Cmsframe.Main.Driver

/-!
# The command line

The loop of `main` over `argv`, with the index it advances in two places and the array
it stores the script names in. `Reading` says how an argument list is meant, and the
loop is shown to carry out the reading, inside the bounds of both arrays. The function
`parseOptions` of the driver, which takes the list apart, is shown to be the same loop.
-/

namespace Cmsframe

open Interaction

/-- What a stretch of the argument list is used for. -/
inductive Use where
  | memStats
  | logLevel (level : LogLevel)
  | script (name : CString)
  deriving DecidableEq

namespace Use

/-- The log level that is set. -/
def level : Use → Option LogLevel
  | memStats => some .debug
  | logLevel level => some level
  | script _ => none

/-- The script that is named. -/
def scriptName : Use → Option CString
  | script name => some name
  | _ => none

end Use

/-- How the scan ends. -/
inductive Ending where
  | finished
  | help
  | wrongLevel
  deriving DecidableEq

/-- An operand of `--log-level`: one character from 0 to 3. -/
def IsLevelOperand (operand : CString) : Prop :=
  ∃ level : LogLevel, operand = [UInt8.ofNat (0x30 + level.toNat)]

/-- A word that is an option when it stands in option position. -/
def IsOption (argument : CString) : Prop :=
  argument ∈ [asciiBytes "-h", asciiBytes "--help", asciiBytes "--mem-stats",
    asciiBytes "--log-level"]

/-- The meaning of an argument list, read from left to right up to the first argument that
stops the scan. -/
inductive Reading : List CString → List Use → Ending → Prop where
  | finished : Reading [] [] .finished
  | help {argument : CString} (isHelp : argument = asciiBytes "-h" ∨ argument = asciiBytes "--help")
      (ignored : List CString) : Reading (argument :: ignored) [] .help
  | missingOperand : Reading [asciiBytes "--log-level"] [] .wrongLevel
  | wrongOperand {operand : CString} (wrong : ¬IsLevelOperand operand) (ignored : List CString) :
      Reading (asciiBytes "--log-level" :: operand :: ignored) [] .wrongLevel
  | memStats {arguments : List CString} {uses : List Use} {ending : Ending}
      (later : Reading arguments uses ending) :
      Reading (asciiBytes "--mem-stats" :: arguments) (.memStats :: uses) ending
  | logLevel (level : LogLevel) {arguments : List CString} {uses : List Use} {ending : Ending}
      (later : Reading arguments uses ending) :
      Reading (asciiBytes "--log-level" :: [UInt8.ofNat (0x30 + level.toNat)] :: arguments)
        (.logLevel level :: uses) ending
  | script {name : CString} (notOption : ¬IsOption name) {arguments : List CString}
      {uses : List Use} {ending : Ending} (later : Reading arguments uses ending) :
      Reading (name :: arguments) (.script name :: uses) ending

namespace Driver

variable {World : Type}

/-- The local variables of the loop. -/
structure ArgumentScan where
  index : ℕ
  memStats : Bool
  filesCounter : ℕ
  fileNames : Vector (Option CString) maxCommandLineArgs

/-- The local variables on entry of the loop; the array is not initialised. -/
def ArgumentScan.start : ArgumentScan := ⟨1, false, 0, Vector.replicate maxCommandLineArgs none⟩

/-- The script names stored so far. -/
def ArgumentScan.files (scan : ArgumentScan) : List (Option CString) :=
  scan.fileNames.toList.take scan.filesCounter

/-- `argv[index]`. -/
def argument (argv : List CString) (index : ℕ) : Driver World CString :=
  match argv[index]? with
  | some word => return word
  | none => Routine.fail .outOfBounds

/-- `file_names[files_counter++] = name`. -/
def storeFileName (scan : ArgumentScan) (name : CString) : Driver World ArgumentScan :=
  if inBounds : scan.filesCounter < maxCommandLineArgs then
    return { scan with
      filesCounter := scan.filesCounter + 1
      fileNames := scan.fileNames.set scan.filesCounter (some name) inBounds }
  else
    Routine.fail .outOfBounds

/-- The loop of `main` over the command line. -/
def scanArguments (argv : List CString) :
    ℕ → ArgumentScan → Driver World (Except ℕ ArgumentScan)
  | 0, scan =>
      if scan.index < argv.length then Routine.fail .outOfFuel else return .ok scan
  | fuel + 1, scan =>
      if scan.index < argv.length then do
        let word ← argument argv scan.index
        match argumentKind word with
        | .help => do
            let name ← argument argv 0
            perform (.printHelp (some name))
            return .error exitCodeOk
        | .memStats => do
            jerryLogSetLevel .debug
            scanArguments argv fuel { scan with memStats := true, index := scan.index + 1 }
        | .logLevel =>
            -- The index is advanced before it is compared with `argc`.
            if scan.index + 1 < argv.length then do
              let operand ← argument argv (scan.index + 1)
              match logLevelOperand operand with
              | some level => do
                  jerryLogSetLevel level
                  scanArguments argv fuel { scan with index := scan.index + 1 + 1 }
              | none => do
                  jerryLog .error (asciiBytes "Error: wrong format or invalid argument\n")
                  return .error exitCodeFail
            else do
              jerryLog .error (asciiBytes "Error: wrong format or invalid argument\n")
              return .error exitCodeFail
        | .fileName => do
            let scan ← storeFileName scan word
            scanArguments argv fuel { scan with index := scan.index + 1 }
      else
        return .ok scan

/-- `main` up to `jerry_init`. -/
def commandLine (argv : List CString) : Driver World (Except ℕ ArgumentScan) := do
  if maxCommandLineArgs < argv.length then
    jerryLog .error (asciiBytes
      "Too many command line arguments. Current maximum is 16\n")
    return .error exitCodeFail
  else
    scanArguments argv argv.length .start

section Kinds

theorem argumentKind_help {word : CString}
    (isHelp : word = asciiBytes "-h" ∨ word = asciiBytes "--help") :
    argumentKind word = .help := by
  rw [argumentKind, if_pos isHelp]

theorem argumentKind_memStats : argumentKind (asciiBytes "--mem-stats") = .memStats := by
  rw [argumentKind, if_neg (by decide), if_pos rfl]

theorem argumentKind_logLevel : argumentKind (asciiBytes "--log-level") = .logLevel := by
  rw [argumentKind, if_neg (by decide), if_neg (by decide), if_pos rfl]

theorem argumentKind_fileName {word : CString} (notOption : ¬IsOption word) :
    argumentKind word = .fileName := by
  simp only [IsOption, List.mem_cons, List.not_mem_nil, or_false, not_or] at notOption
  rcases notOption with ⟨notShort, notLong, notStats, notLevel⟩
  rw [argumentKind, if_neg (by simp [notShort, notLong]), if_neg notStats, if_neg notLevel]

theorem logLevelOperand_digit (level : LogLevel) :
    logLevelOperand [UInt8.ofNat (0x30 + level.toNat)] = some level := by
  cases level <;> decide

theorem logLevelOperand_wrong {operand : CString} (wrong : ¬IsLevelOperand operand) :
    logLevelOperand operand = none := by
  unfold logLevelOperand
  split
  · exact absurd ⟨.error, rfl⟩ wrong
  · exact absurd ⟨.warning, rfl⟩ wrong
  · exact absurd ⟨.debug, rfl⟩ wrong
  · exact absurd ⟨.trace, rfl⟩ wrong
  · rfl

end Kinds

end Driver

section ReadingFacts

open Driver

variable {arguments : List CString} {uses : List Use} {ending : Ending}

/-- Every argument list has a meaning. -/
theorem exists_reading (arguments : List CString) :
    ∃ uses ending, Reading arguments uses ending := by
  induction arguments using List.twoStepInduction with
  | nil => exact ⟨[], .finished, .finished⟩
  | singleton word =>
      by_cases isOption : IsOption word
      · simp only [IsOption, List.mem_cons, List.not_mem_nil, or_false] at isOption
        rcases isOption with rfl | rfl | rfl | rfl
        · exact ⟨[], .help, .help (.inl rfl) []⟩
        · exact ⟨[], .help, .help (.inr rfl) []⟩
        · exact ⟨[.memStats], .finished, .memStats .finished⟩
        · exact ⟨[], .wrongLevel, .missingOperand⟩
      · exact ⟨[.script word], .finished, .script isOption .finished⟩
  | cons_cons word next rest afterTwo afterOne =>
      rcases afterTwo with ⟨usesTwo, endingTwo, readTwo⟩
      rcases afterOne next with ⟨usesOne, endingOne, readOne⟩
      by_cases isOption : IsOption word
      · simp only [IsOption, List.mem_cons, List.not_mem_nil, or_false] at isOption
        rcases isOption with rfl | rfl | rfl | rfl
        · exact ⟨[], .help, .help (.inl rfl) _⟩
        · exact ⟨[], .help, .help (.inr rfl) _⟩
        · exact ⟨.memStats :: usesOne, endingOne, .memStats readOne⟩
        · by_cases isLevel : IsLevelOperand next
          · rcases isLevel with ⟨level, rfl⟩
            exact ⟨.logLevel level :: usesTwo, endingTwo, .logLevel level readTwo⟩
          · exact ⟨[], .wrongLevel, .wrongOperand isLevel rest⟩
      · exact ⟨.script word :: usesOne, endingOne, .script isOption readOne⟩

/-- The meaning of an argument list, computed. -/
def readArguments : List CString → List Use × Ending
  | [] => ([], .finished)
  | word :: arguments =>
      match argumentKind word with
      | .help => ([], .help)
      | .memStats => (.memStats :: (readArguments arguments).1, (readArguments arguments).2)
      | .logLevel =>
          match arguments with
          | [] => ([], .wrongLevel)
          | operand :: arguments =>
              match logLevelOperand operand with
              | some level =>
                  (.logLevel level :: (readArguments arguments).1, (readArguments arguments).2)
              | none => ([], .wrongLevel)
      | .fileName => (.script word :: (readArguments arguments).1, (readArguments arguments).2)

theorem Reading.readArguments_eq (reading : Reading arguments uses ending) :
    readArguments arguments = (uses, ending) := by
  induction reading with
  | finished => rfl
  | help isHelp ignored =>
      rw [readArguments.eq_def]
      simp only [argumentKind_help isHelp]
  | missingOperand =>
      rw [readArguments.eq_def]
      simp only [argumentKind_logLevel]
  | wrongOperand wrong ignored =>
      rw [readArguments.eq_def]
      simp only [argumentKind_logLevel, logLevelOperand_wrong wrong]
  | memStats later ih =>
      rw [readArguments.eq_def]
      simp only [argumentKind_memStats, ih]
  | logLevel level later ih =>
      rw [readArguments.eq_def]
      simp only [argumentKind_logLevel, logLevelOperand_digit, ih]
  | script notOption later ih =>
      rw [readArguments.eq_def]
      simp only [argumentKind_fileName notOption, ih]

/-- The meaning of an argument list is unique. -/
theorem Reading.unique {others : List Use} {other : Ending}
    (reading : Reading arguments uses ending) (again : Reading arguments others other) :
    uses = others ∧ ending = other := by
  have same : (uses, ending) = (others, other) := by
    rw [← reading.readArguments_eq, again.readArguments_eq]
  exact ⟨congrArg Prod.fst same, congrArg Prod.snd same⟩

end ReadingFacts

namespace Driver

variable {World : Type}

section Loop

/-- The log level behind some uses of arguments: the last one that was set, else the one
before. -/
def levelAfter (uses : List Use) (before : LogLevel) : LogLevel :=
  (uses.filterMap Use.level).getLastD before

/-- Change the log level to the one behind some uses of arguments. -/
def settleLevel (uses : List Use) : Driver World Unit := do
  let state ← Routine.get
  Routine.set { state with logLevel := levelAfter uses state.logLevel }

@[simp]
theorem run_settleLevel (uses : List Use) (state : DriverState) (world : World) :
    (settleLevel uses).run state world =
      .done ((), { state with logLevel := levelAfter uses state.logLevel }) world := rfl

theorem settleLevel_nil : (settleLevel [] : Driver World Unit) = pure () := by
  apply Routine.ext
  intro state world
  rfl

/-- What `main` does where the scan ends. -/
def conclude {α : Type} (name : Option CString) (finished : Driver World (Except ℕ α)) :
    Ending → Driver World (Except ℕ α)
  | .finished => finished
  | .help => do
      perform (.printHelp name)
      return .error exitCodeOk
  | .wrongLevel => do
      perform (.log .error (asciiBytes "Error: wrong format or invalid argument\n"))
      return .error exitCodeFail

/-- The local variables after some uses of arguments. -/
structure ArgumentScan.After (scan : ArgumentScan) (uses : List Use) (final : ArgumentScan) :
    Prop where
  memStats : final.memStats = (scan.memStats || decide (Use.memStats ∈ uses))
  filesCounter : final.filesCounter = scan.filesCounter + (uses.filterMap Use.scriptName).length
  files : final.files = scan.files ++ (uses.filterMap Use.scriptName).map some

theorem ArgumentScan.after_nil (scan : ArgumentScan) : scan.After [] scan where
  memStats := by simp
  filesCounter := by simp
  files := by simp

theorem jerryLogSetLevel_settleLevel (use : Use) {level : LogLevel} (sets : use.level = some level)
    (uses : List Use) {α : Type} (next : Driver World α) :
    (do jerryLogSetLevel level; settleLevel uses; next) = (do settleLevel (use :: uses); next) := by
  have levels : (use :: uses).filterMap Use.level = level :: uses.filterMap Use.level := by
    rw [List.filterMap_cons, sets]
  have overrides : ∀ before, levelAfter (use :: uses) before = levelAfter uses level := by
    intro before
    rw [levelAfter, levels, List.getLastD_cons, levelAfter]
  apply Routine.ext
  intro state world
  simp [jerryLogSetLevel, overrides]

theorem settleLevel_of_none (use : Use) (sets : use.level = none) (uses : List Use) :
    (settleLevel (use :: uses) : Driver World Unit) = settleLevel uses := by
  have levels : (use :: uses).filterMap Use.level = uses.filterMap Use.level := by
    rw [List.filterMap_cons, sets]
  simp only [settleLevel, levelAfter, levels]

/-- Messages of the error level are logged at every log level. -/
theorem jerryLog_error (message : List UInt8) :
    (jerryLog .error message : Driver World Unit) = perform (.log .error message) := by
  apply Routine.ext
  intro state world
  simp [jerryLog, LogLevel.toNat]

theorem argument_drop (World : Type) {argv rest : List CString} {word : CString} {index : ℕ}
    (here : argv.drop index = word :: rest) :
    index < argv.length ∧ argv.drop (index + 1) = rest ∧
      (argument argv index : Driver World CString) = pure word := by
  have inBounds : index < argv.length := by
    by_contra outside
    rw [List.drop_eq_nil_of_le (not_lt.mp outside)] at here
    cases here
  have split := List.drop_eq_getElem_cons inBounds
  rw [here, List.cons.injEq] at split
  refine ⟨inBounds, split.2.symm, ?_⟩
  rw [argument, List.getElem?_eq_getElem inBounds, ← split.1]

/-- A script name is stored in bounds: fewer names than arguments have been read. -/
theorem storeFileName_eq (World : Type) {scan : ArgumentScan}
    (room : scan.filesCounter < maxCommandLineArgs) (name : CString) :
    ∃ stored : ArgumentScan,
      (storeFileName scan name : Driver World ArgumentScan) = pure stored ∧
      stored.index = scan.index ∧ stored.memStats = scan.memStats ∧
      stored.filesCounter = scan.filesCounter + 1 ∧ stored.files = scan.files ++ [some name] := by
  refine ⟨{ scan with
    filesCounter := scan.filesCounter + 1
    fileNames := scan.fileNames.set scan.filesCounter (some name) room },
    by rw [storeFileName, dif_pos room], rfl, rfl, rfl, ?_⟩
  have inBounds : scan.filesCounter < scan.fileNames.toList.length := by
    simpa using room
  simp only [ArgumentScan.files, Vector.toList_set]
  rw [List.take_add_one, List.take_set_of_le (le_refl _), List.getElem?_set_self inBounds]
  rfl

section Turns

variable {argv rest : List CString} {word operand : CString} {scan : ArgumentScan} {fuel : ℕ}

theorem scanArguments_finished (here : argv.drop scan.index = []) :
    (scanArguments argv fuel scan : Driver World (Except ℕ ArgumentScan)) = return .ok scan := by
  have outside : ¬scan.index < argv.length := by
    rw [List.drop_eq_nil_iff] at here
    exact not_lt.mpr here
  cases fuel <;> simp [scanArguments, outside]

theorem scanArguments_help (here : argv.drop scan.index = word :: rest)
    (isHelp : argumentKind word = .help) :
    (scanArguments argv (fuel + 1) scan : Driver World (Except ℕ ArgumentScan)) =
      conclude argv.head? (return .ok scan) .help := by
  rcases argument_drop World here with ⟨inBounds, _, read⟩
  rcases List.exists_cons_of_length_pos (Nat.zero_lt_of_lt inBounds) with ⟨name, others, rfl⟩
  rw [scanArguments, if_pos inBounds]
  simp only [read, pure_bind, isHelp]
  rfl

theorem scanArguments_memStats (here : argv.drop scan.index = word :: rest)
    (isMemStats : argumentKind word = .memStats) :
    (scanArguments argv (fuel + 1) scan : Driver World (Except ℕ ArgumentScan)) = (do
      jerryLogSetLevel .debug
      scanArguments argv fuel { scan with memStats := true, index := scan.index + 1 }) := by
  rcases argument_drop World here with ⟨inBounds, _, read⟩
  rw [scanArguments, if_pos inBounds]
  simp only [read, pure_bind, isMemStats]

theorem scanArguments_missingOperand (here : argv.drop scan.index = [word])
    (isLogLevel : argumentKind word = .logLevel) :
    (scanArguments argv (fuel + 1) scan : Driver World (Except ℕ ArgumentScan)) =
      conclude argv.head? (return .ok scan) .wrongLevel := by
  rcases argument_drop World here with ⟨inBounds, rest, read⟩
  have noOperand : ¬scan.index + 1 < argv.length := by
    rw [List.drop_eq_nil_iff] at rest
    exact not_lt.mpr rest
  rw [scanArguments, if_pos inBounds]
  simp only [read, pure_bind, isLogLevel, if_neg noOperand, jerryLog_error]
  rfl

theorem scanArguments_wrongOperand (here : argv.drop scan.index = word :: operand :: rest)
    (isLogLevel : argumentKind word = .logLevel) (wrong : logLevelOperand operand = none) :
    (scanArguments argv (fuel + 1) scan : Driver World (Except ℕ ArgumentScan)) =
      conclude argv.head? (return .ok scan) .wrongLevel := by
  rcases argument_drop World here with ⟨inBounds, behind, read⟩
  rcases argument_drop World behind with ⟨hasOperand, _, readOperand⟩
  rw [scanArguments, if_pos inBounds]
  simp only [read, pure_bind, isLogLevel, if_pos hasOperand, readOperand, wrong, jerryLog_error]
  rfl

theorem scanArguments_logLevel (here : argv.drop scan.index = word :: operand :: rest)
    (isLogLevel : argumentKind word = .logLevel) {level : LogLevel}
    (isLevel : logLevelOperand operand = some level) :
    (scanArguments argv (fuel + 1) scan : Driver World (Except ℕ ArgumentScan)) = (do
      jerryLogSetLevel level
      scanArguments argv fuel { scan with index := scan.index + 1 + 1 }) := by
  rcases argument_drop World here with ⟨inBounds, behind, read⟩
  rcases argument_drop World behind with ⟨hasOperand, _, readOperand⟩
  rw [scanArguments, if_pos inBounds]
  simp only [read, pure_bind, isLogLevel, if_pos hasOperand, readOperand, isLevel]

theorem scanArguments_fileName (here : argv.drop scan.index = word :: rest)
    (isFileName : argumentKind word = .fileName) {stored : ArgumentScan}
    (stores : (storeFileName scan word : Driver World ArgumentScan) = pure stored) :
    (scanArguments argv (fuel + 1) scan : Driver World (Except ℕ ArgumentScan)) =
      scanArguments argv fuel { stored with index := stored.index + 1 } := by
  rcases argument_drop World here with ⟨inBounds, _, read⟩
  rw [scanArguments, if_pos inBounds]
  simp only [read, pure_bind, isFileName, stores]

/-- There is a turn for every argument. -/
theorem exists_fuel {arguments : List CString} (enough : (word :: arguments).length ≤ fuel) :
    ∃ less, fuel = less + 1 ∧ arguments.length ≤ less := by
  rw [List.length_cons] at enough
  exact ⟨fuel - 1, by omega, by omega⟩

end Turns

/-- The loop carries out the reading of the arguments from its index on. -/
theorem scanArguments_reading (World : Type) {argv : List CString}
    (few : argv.length ≤ maxCommandLineArgs) {arguments : List CString} {uses : List Use} {ending : Ending}
    (reading : Reading arguments uses ending) (fuel : ℕ) (scan : ArgumentScan)
    (here : argv.drop scan.index = arguments) (enough : arguments.length ≤ fuel)
    (behind : scan.filesCounter < scan.index) :
    ∃ final : ArgumentScan, scan.After uses final ∧
      (scanArguments argv fuel scan : Driver World (Except ℕ ArgumentScan)) = (do
        settleLevel uses
        conclude argv.head? (return .ok final) ending) := by
  induction reading generalizing fuel scan with
  | finished => exact ⟨scan, scan.after_nil, scanArguments_finished here⟩
  | help isHelp ignored =>
      rcases exists_fuel enough with ⟨fuel, rfl, _⟩
      exact ⟨scan, scan.after_nil, scanArguments_help here (argumentKind_help isHelp)⟩
  | missingOperand =>
      rcases exists_fuel enough with ⟨fuel, rfl, _⟩
      exact ⟨scan, scan.after_nil, scanArguments_missingOperand here argumentKind_logLevel⟩
  | wrongOperand wrong ignored =>
      rcases exists_fuel enough with ⟨fuel, rfl, _⟩
      exact ⟨scan, scan.after_nil,
        scanArguments_wrongOperand here argumentKind_logLevel (logLevelOperand_wrong wrong)⟩
  | memStats later ih =>
      rcases exists_fuel enough with ⟨fuel, rfl, fewer⟩
      rcases ih fuel { scan with memStats := true, index := scan.index + 1 }
        (argument_drop World here).2.1 fewer (Nat.lt_succ_of_lt behind)
        with ⟨final, after, continued⟩
      refine ⟨final, ⟨?_, after.filesCounter, after.files⟩, ?_⟩
      · rw [after.memStats]
        simp
      · rw [scanArguments_memStats here argumentKind_memStats, continued]
        exact jerryLogSetLevel_settleLevel _ rfl _ _
  | logLevel level later ih =>
      rcases exists_fuel enough with ⟨fuel, rfl, fewer⟩
      rcases ih fuel { scan with index := scan.index + 1 + 1 }
        (argument_drop World (argument_drop World here).2.1).2.1 (Nat.le_of_succ_le fewer)
        (Nat.lt_succ_of_lt (Nat.lt_succ_of_lt behind)) with ⟨final, after, continued⟩
      refine ⟨final, ⟨?_, after.filesCounter, after.files⟩, ?_⟩
      · rw [after.memStats]
        simp
      · rw [scanArguments_logLevel here argumentKind_logLevel (logLevelOperand_digit level),
          continued]
        exact jerryLogSetLevel_settleLevel _ rfl _ _
  | @script name notOption arguments uses ending later ih =>
      rcases exists_fuel enough with ⟨fuel, rfl, fewer⟩
      rcases argument_drop World here with ⟨inBounds, rest, _⟩
      have room : scan.filesCounter < maxCommandLineArgs :=
        lt_of_lt_of_le (lt_trans behind inBounds) few
      rcases storeFileName_eq World room name
        with ⟨stored, store, sameIndex, sameStats, counter, files⟩
      rcases ih fuel { stored with index := stored.index + 1 }
        (by simpa [sameIndex] using rest) fewer
        (by simp only [counter, sameIndex]; omega) with ⟨final, after, continued⟩
      refine ⟨final, ⟨?_, ?_, ?_⟩, ?_⟩
      · rw [after.memStats]
        simp [sameStats]
      · rw [after.filesCounter]
        simp [counter, Use.scriptName]
        omega
      · have sameFiles : ({ stored with index := stored.index + 1 } : ArgumentScan).files =
            stored.files := rfl
        rw [after.files, sameFiles, files]
        simp [Use.scriptName]
      · rw [scanArguments_fileName here (argumentKind_fileName notOption) store, continued,
          settleLevel_of_none _ rfl]

/-- `parseOptions` carries out the reading as well, on the list itself. -/
theorem parseOptions_reading (name : Option CString) {arguments : List CString} {uses : List Use}
    {ending : Ending} (reading : Reading arguments uses ending) (memStats : Bool)
    (files : List CString) :
    (parseOptions name memStats files arguments :
        Driver World (Except ℕ (Bool × List CString))) = (do
      settleLevel uses
      conclude name (return .ok (memStats || decide (Use.memStats ∈ uses),
        files ++ uses.filterMap Use.scriptName)) ending) := by
  induction reading generalizing memStats files with
  | finished => simp [parseOptions, settleLevel_nil, conclude]
  | help isHelp ignored =>
      rw [parseOptions.eq_def]
      simp only [argumentKind_help isHelp]
      rfl
  | missingOperand =>
      rw [parseOptions.eq_def]
      simp only [argumentKind_logLevel, jerryLog_error]
      rfl
  | wrongOperand wrong ignored =>
      rw [parseOptions.eq_def]
      simp only [argumentKind_logLevel, logLevelOperand_wrong wrong, jerryLog_error]
      rfl
  | memStats later ih =>
      rw [parseOptions.eq_def]
      simp only [argumentKind_memStats, ih]
      rw [jerryLogSetLevel_settleLevel .memStats rfl]
      simp [List.filterMap_cons, Use.scriptName]
  | logLevel level later ih =>
      rw [parseOptions.eq_def]
      simp only [argumentKind_logLevel, logLevelOperand_digit, ih]
      rw [jerryLogSetLevel_settleLevel (.logLevel level) rfl]
      simp [List.filterMap_cons, Use.scriptName]
  | @script word notOption arguments uses ending later ih =>
      rw [parseOptions.eq_def]
      simp only [argumentKind_fileName notOption, ih]
      rw [settleLevel_of_none (.script word) rfl]
      simp [Use.scriptName]

/-- Taking the list apart, as `optionPhase` does, and walking over it with an index, as the
code does, come to the same. -/
theorem optionPhase_eq_commandLine (argv : List CString) :
    (optionPhase argv : Driver World (Except ℕ (Bool × List CString))) = (do
      match ← commandLine argv with
      | .error exitCode => return .error exitCode
      | .ok scan => return .ok (scan.memStats, scan.files.reduceOption)) := by
  by_cases many : maxCommandLineArgs < argv.length
  · rw [optionPhase, commandLine, if_pos many, if_pos many]
    simp only [bind_assoc, pure_bind]
  · rcases exists_reading argv.tail with ⟨uses, ending, reading⟩
    have here : argv.drop ArgumentScan.start.index = argv.tail := List.drop_one
    rcases scanArguments_reading World (not_lt.mp many) reading
      argv.length .start here (by simp) (by decide) with ⟨final, after, scanned⟩
    rw [optionPhase, commandLine, if_neg many, if_neg many, scanned,
      parseOptions_reading argv.head? reading]
    have files : final.files.reduceOption = uses.filterMap Use.scriptName := by
      rw [after.files]
      change List.filterMap id _ = _
      simp [ArgumentScan.files, ArgumentScan.start]
    cases ending with
    | finished => simp [conclude, files, after.memStats, ArgumentScan.start]
    | help => simp only [conclude, bind_assoc, pure_bind]
    | wrongLevel => simp only [conclude, bind_assoc, pure_bind]

end Loop

section Law

end Law

end Driver

end Cmsframe
