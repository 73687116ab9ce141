import ScriptMachine.Settings.Layer

/-!
# The words of a command line

A command line names a task, with options in front of and behind its name.  Words are taken
one by one.  The value of an option, and the name of a script, are looked at only when the
next thing begins, so that a word that nobody knows is noticed before a value that is wrong.

Main results:

- {lit}`CommandLine.read`: the request that the words of a command line make.
- {lit}`CommandLine.read_nil`: no words ask for help.
-/

namespace ScriptMachine
namespace CommandLine

/-! ## Tasks -/

/-- What is to be done. -/
inductive Task where
  /-- Compile a script and say what is wrong with it. -/
  | check (file : String) (withTree : Bool)
  | run (file : String) (arguments : List String)
  /-- Run a script in the background for some ticks. -/
  | background (file : String) (arguments : List String) (ticks tickMilliseconds : Nat)
  | listCommands
  | showSettings
deriving Repr, DecidableEq

/-- A task with the options that hold for all tasks. -/
structure Invocation where
  settingsFile : Option String
  scriptRoot : Option String
  task : Task
deriving Repr, DecidableEq

/-- Why the words of a command line make no request. -/
inductive UsageError where
  /-- Help is asked for. -/
  | help
  /-- There are no words at all. -/
  | nothing
  | noTask
  | unknownTask
  | unknownWord
  | missingFile
  /-- An option or a file name is without its text. -/
  | missingText
  | badNumber
  | repeated
  | needlessText
deriving Repr, DecidableEq

/-- The name of a usage error. -/
def UsageError.name : UsageError → String
  | .help => "DisplayHelp"
  | .nothing => "DisplayHelpOnMissingArgumentOrSubcommand"
  | .noTask => "MissingSubcommand"
  | .unknownTask => "InvalidSubcommand"
  | .unknownWord => "UnknownArgument"
  | .missingFile => "MissingRequiredArgument"
  | .missingText => "InvalidValue"
  | .badNumber => "ValueValidation"
  | .repeated => "ArgumentConflict"
  | .needlessText => "TooManyValues"

/-! ## Options -/

/-- The options. -/
inductive Switch where
  | settingsFile
  | scriptRoot
  | withTree
  | ticks
  | tickMilliseconds
  | help
deriving Repr, DecidableEq

/-- Whether an option has a text behind it. -/
def Switch.takesText : Switch → Bool
  | .settingsFile | .scriptRoot | .ticks | .tickMilliseconds => true
  | .withTree | .help => false

/-- The names of tasks. -/
inductive TaskName where
  | check
  | run
  | background
  | listCommands
  | showSettings
deriving Repr, DecidableEq

/-- The task that a word names. -/
def TaskName.ofWord? : String → Option TaskName
  | "check" => some .check
  | "run" => some .run
  | "background" => some .background
  | "commands" => some .listCommands
  | "config" => some .showSettings
  | _ => none

/-- What may stand at a place of the command line: in front of the name of the task, or behind
one. -/
structure Level where
  long : List (String × Switch)
  short : List (Char × Switch)
  /-- Whether a script is named. -/
  hasFile : Bool
  /-- Whether arguments of the script may follow. -/
  hasArguments : Bool

namespace Level

/-- What may stand in front of the name of the task. -/
def top : Level where
  long := [("config", .settingsFile), ("script-root", .scriptRoot), ("help", .help)]
  short := [('h', .help)]
  hasFile := false
  hasArguments := false

/-- What may stand behind the name of a task. -/
def ofTask : TaskName → Level
  | .check => { top with long := ("dump-ast", .withTree) :: top.long, hasFile := true }
  | .run => { top with hasFile := true, hasArguments := true }
  | .background => {
      long := ("ticks", .ticks) :: ("tick-ms", .tickMilliseconds) :: top.long
      short := ('t', .ticks) :: ('m', .tickMilliseconds) :: top.short
      hasFile := true
      hasArguments := true }
  | .listCommands | .showSettings => top

/-- The option with a long name. -/
def long? (level : Level) (name : List Char) : Option Switch :=
  (level.long.find? fun entry => entry.1.toList == name).map Prod.snd

/-- The option with a short name. -/
def short? (level : Level) (name : Char) : Option Switch :=
  (level.short.find? fun entry => entry.1 == name).map Prod.snd

end Level

/-! ## What has been given -/

/-- Something that has been taken but not looked at. -/
inductive Pending where
  | switch (switch : Switch) (text : Option String)
  | file (name : String)

/-- What the words so far have given. -/
structure Given where
  settingsFile : Option String
  scriptRoot : Option String
  withTree : Bool
  ticks : Option Nat
  tickMilliseconds : Option Nat
  file : Option String
  arguments : List String
  pending : Option Pending
  /-- Whether all further words are plain. -/
  onlyPlain : Bool

namespace Given

/-- Nothing has been given. -/
def empty : Given where
  settingsFile := none
  scriptRoot := none
  withTree := false
  ticks := none
  tickMilliseconds := none
  file := none
  arguments := []
  pending := none
  onlyPlain := false

/-- Whether no option has been given. -/
def isEmpty (given : Given) : Bool :=
  given.settingsFile.isNone && given.scriptRoot.isNone

/-- A path, which is never empty. -/
def path (text : String) : Except UsageError String :=
  if text.isEmpty then .error .missingText else .ok text

/-- The greatest number of ticks. -/
def maxTicks : Nat := 0xFFFFFFFF

/-- A number of ticks. -/
def tickCount (text : String) : Except UsageError Nat :=
  match RawValue.integer? text.toList with
  | some i => if 0 ≤ i ∧ i ≤ maxTicks then .ok i.toNat else .error .badNumber
  | none => .error .badNumber

/-- A number of milliseconds. -/
def milliseconds (text : String) : Except UsageError Nat :=
  match RawValue.natural? text.toList with
  | some n => .ok n
  | none => .error .badNumber

/-- Something that is given once. -/
def once {α : Type} (old : Option α) (new : Except UsageError α) : Except UsageError (Option α) :=
  if old.isSome then .error .repeated else new.map some

/-- Takes an option with its text, or with none. -/
def accept (given : Given) (switch : Switch) (text : String) : Except UsageError Given :=
  match switch with
  | .settingsFile => do
    return { given with settingsFile := ← once given.settingsFile (path text) }
  | .scriptRoot => do return { given with scriptRoot := ← once given.scriptRoot (path text) }
  | .ticks => do return { given with ticks := ← once given.ticks (tickCount text) }
  | .tickMilliseconds => do
    return { given with tickMilliseconds := ← once given.tickMilliseconds (milliseconds text) }
  | .withTree => if given.withTree then .error .repeated else .ok { given with withTree := true }
  | .help => .error .help

/-- Looks at what has been taken. -/
def settle (given : Given) : Except UsageError Given :=
  let settled := { given with pending := none }
  match given.pending with
  | none => .ok settled
  | some (.switch _ none) => .error .missingText
  | some (.switch switch (some text)) => settled.accept switch text
  | some (.file name) => do return { settled with file := some (← path name) }

/-- Takes an option; a text that is attached to it is looked at at once. -/
def take (given : Given) (switch : Switch) (attached : Option String) : Except UsageError Given :=
  match switch.takesText, attached with
  | true, none => do return { ← given.settle with pending := some (.switch switch none) }
  | true, some text => do (← given.settle).accept switch text
  | false, _ => do (← given.settle).accept switch ""

/-- Takes a long option, after its two dashes. -/
def takeLong (level : Level) (given : Given) (word : List Char) : Except UsageError Given :=
  let attached : Option String :=
    match word.dropWhile (· != '=') with
    | [] => none
    | _ :: text => some (String.ofList text)
  match level.long? (word.takeWhile (· != '=')) with
  | none => .error .unknownWord
  | some switch =>
    if !switch.takesText && attached.isSome then .error .needlessText
    else given.take switch attached

/-- Takes a short option, after its dash; what follows the letter is its text. -/
def takeShort (level : Level) (given : Given) (name : Char) (rest : List Char) :
    Except UsageError Given :=
  match level.short? name with
  | none => .error .unknownWord
  | some switch =>
    given.take switch
      (match rest with
        | [] => none
        | '=' :: text => some (String.ofList text)
        | text => some (String.ofList text))

/-- Takes a word that is no plain word here: an option, the text of an option, or the dashes
behind which all words are plain. -/
def takeMarked? (level : Level) (given : Given) (word : String) : Option (Except UsageError Given) :=
  if given.onlyPlain then none
  else
    match word.toList, given.pending with
    | ['-', '-'], _ => some (.ok { given with onlyPlain := true })
    | '-' :: '-' :: rest, _ => some (takeLong level given rest)
    | '-' :: name :: rest, _ => some (takeShort level given name rest)
    | _, some (.switch switch none) =>
      some (.ok { given with pending := some (.switch switch (some word)) })
    | _, _ => none

/-- Takes a plain word: the name of the script, then its arguments. -/
def takePlain (level : Level) (given : Given) (word : String) : Except UsageError Given :=
  let named := given.file.isSome || given.pending matches some (.file _)
  if level.hasFile && !named then do
    return { ← given.settle with pending := some (.file word) }
  else if level.hasArguments then do
    let given ← given.settle
    return { given with arguments := given.arguments ++ [word] }
  else .error .unknownWord

/-- Takes the words behind the name of a task. -/
def takeAll (level : Level) : Given → List String → Except UsageError Given
  | given, [] => given.settle
  | given, word :: rest => do
    let given ← (takeMarked? level given word).getD (takePlain level given word)
    takeAll level given rest

/-- The task that the words behind its name describe. -/
def task (given : Given) : TaskName → Except UsageError Task
  | .check => do return .check (← file) given.withTree
  | .run => do return .run (← file) given.arguments
  | .background => do
    return .background (← file) given.arguments (given.ticks.getD 10)
      (given.tickMilliseconds.getD 100)
  | .listCommands => return .listCommands
  | .showSettings => return .showSettings
where
  file : Except UsageError String :=
    match given.file with
    | some name => .ok name
    | none => .error .missingFile

end Given

/-! ## Whole command lines -/

/-- What the words behind the word for help are good for: at most one task can be named. -/
def helpError : List String → UsageError
  | [] => .help
  | [word] => if word == "help" || (TaskName.ofWord? word).isSome then .help else .unknownTask
  | _ => .unknownTask

/-- Reads the words behind the name of a task, then looks at what stands in front of it. -/
def readTask (front : Given) (name : TaskName) (words : List String) :
    Except UsageError Invocation := do
  let behind ← Given.takeAll (Level.ofTask name) .empty words
  let task ← behind.task name
  let front ← front.settle
  return ⟨behind.settingsFile <|> front.settingsFile, behind.scriptRoot <|> front.scriptRoot, task⟩

/-- Reads words up to the name of a task, and then those behind it. -/
def readFrom (given : Given) : List String → Except UsageError Invocation
  | [] => do
    let given ← given.settle
    .error (if given.isEmpty then .nothing else .noTask)
  | word :: rest =>
    match given.takeMarked? .top word with
    | some taken => do readFrom (← taken) rest
    | none =>
      match TaskName.ofWord? word with
      | some name => if given.onlyPlain then .error .unknownWord else readTask given name rest
      | none =>
        if word != "help" then .error .unknownTask
        else if given.onlyPlain then .error .unknownWord
        else .error (helpError rest)

/-- The request that the words of a command line make. -/
def read (words : List String) : Except UsageError Invocation :=
  readFrom .empty words

/-- No words ask for help. -/
theorem read_nil : read [] = .error .nothing := rfl

end CommandLine
end ScriptMachine
