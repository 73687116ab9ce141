import ScriptMachine.CommandLine.Perform

/-!
# The program

The program reads its surroundings, performs the task that its words ask for, and prints the
transcript.  Everything else is decided without input and output: the machine sees the files
as they were when the program started.

Main results:

- {lit}`main`: the program.
-/

namespace ScriptMachine

open CommandLine

/-! ## Surroundings -/

/-- The environment variables that can hold settings. -/
def settingVariables : List String :=
  [Settings.fileVariable, "LUTE_SCRIPT_ROOT", "LUTE_SCRIPT_EXTENSION", "LUTE_STEP_BUDGET",
    "LUTE_MAX_CALL_DEPTH", "LUTE_LOG_FILTER"]

/-- The environment variables with settings that are there. -/
def environment : IO (List (String × String)) := do
  let values ← settingVariables.mapM fun name => return (name, ← IO.getEnv name)
  return values.filterMap fun (name, v) => v.map fun v => (name, v)

/-- The working directory, as yet without files. -/
def workingDirectory : IO FileSystem := do
  let here ← IO.currentDir
  return ⟨(Path.components here.toString.toList).filter (· != ['.']), []⟩

/-- Adds a file, or a directory with everything in it down to some depth, if it is there. -/
def addTree : Nat → FileSystem → String → IO FileSystem
  | 0, files, _ => return files
  | depth + 1, files, path => do
    try
      let content ← IO.FS.readBinFile path
      return files.put path.toList (.file content)
    catch _ =>
      try
        let entries ← (← IO.FS.realPath path).readDir
        entries.foldlM
          (fun files entry =>
            addTree depth files (String.ofList (Path.join path.toList entry.fileName.toList)))
          (files.put path.toList .directory)
      catch _ => return files

/-- The files that can matter to settings. -/
def addSettingsFiles (files : FileSystem) (invocation : Invocation)
    (environment : List (String × String)) : IO FileSystem := do
  let chosen := invocation.settingsFile <|>
    Settings.variableValue? environment Settings.fileVariable
  let path := chosen.getD Settings.usualFile
  addTree 1 (← addTree 1 files path) (path ++ ".toml")

/-- The script of a task. -/
def scriptOf? : Task → Option String
  | .check file _ | .run file _ | .background file _ _ _ => some file
  | .listCommands | .showSettings => none

/-- The greatest depth of directories below the script root. -/
def maxTreeDepth : Nat := 32

/-- The files that can matter to a task: its script, and those below the script root. -/
def addScripts (files : FileSystem) (settings : Settings) (task : Task) : IO FileSystem :=
  match scriptOf? task with
  | none => return files
  | some file => do
    addTree 1 (← addTree maxTreeDepth files settings.scriptRoot) file

/-! ## Failures -/

/-- A failure with its causes, from the outside in. -/
def failureLines : List String → List String
  | [] => []
  | [message] => ["Error: " ++ message]
  | [message, cause] => ["Error: " ++ message, "", "Caused by:", "    " ++ cause]
  | message :: causes =>
    ["Error: " ++ message, "", "Caused by:"] ++
      (causes.zipIdx.map fun (cause, i) => "    " ++ toString i ++ ": " ++ cause)

/-- How the program is used. -/
def usageLines : List String :=
  ["Usage: lute [--config <CONFIG>] [--script-root <SCRIPT_ROOT>] <COMMAND>",
    "",
    "Commands:",
    "  check <FILE> [--dump-ast]",
    "  run <FILE> [ARGS]...",
    "  background <FILE> [ARGS]... [-t|--ticks <TICKS>] [-m|--tick-ms <TICK_MS>]",
    "  commands",
    "  config",
    "  help"]

/-! ## Running -/

/-- Prints lines, and answers with an exit code. -/
def finish (print : String → IO Unit) (lines : List String) (code : UInt32) : IO UInt32 := do
  lines.forM print
  return code

/-- The exit code after a usage error. -/
def usageFailure : UsageError → IO UInt32
  | .help => finish IO.println usageLines 0
  | .nothing => finish IO.eprintln usageLines 2
  | e => finish IO.eprintln (("error: " ++ e.name) :: "" :: usageLines) 2

/-- More steps and calls than any run takes. -/
def unbounded : Nat := 0x1000000000000000

/-- Performs a task and prints its transcript. -/
def performTask (settings : Settings) (files : FileSystem) (task : Task) : IO UInt32 := do
  let files ← addScripts files settings task
  let seed := (← IO.getRandomBytes 8).toUInt64LE!
  match perform unbounded seed settings files task with
  | none => finish IO.eprintln ["Error: the script runs without end"] 1
  | some performance => do
    performance.transcript.complaints.forM IO.eprintln
    performance.transcript.output.forM IO.println
    match performance.failure with
    | none => return 0
    | some chain => finish IO.eprintln (failureLines chain) 1

/-- The program behind its name. -/
def runWords (words : List String) : IO UInt32 := do
  match read words with
  | .error e => usageFailure e
  | .ok invocation => do
    let environment ← environment
    let files ← addSettingsFiles (← workingDirectory) invocation environment
    match plan words environment files with
    | .error (.usage e) => usageFailure e
    | .error (.settings e) => finish IO.eprintln (failureLines [e.message]) 1
    | .ok (settings, task) => performTask settings files task

end ScriptMachine

/-- The program. -/
def main (words : List String) : IO UInt32 :=
  ScriptMachine.runWords words
