import ScriptMachine.FileSystem
import ScriptMachine.Settings
import ScriptMachine.Settings.Layer
import ScriptMachine.Toml.Reader
import ScriptMachine.Toml.Text

/-!
# Loading settings

The settings of a machine come from four layers: the standard ones, a settings file, the
environment, and the script root when it is chosen explicitly.  A settings file that was
chosen must be readable; the usual one in the working directory need not be.

Main results:

- {lit}`Settings.load`: the settings from all layers.
- {lit}`Settings.toToml?`: settings as a settings file.
- {lit}`Settings.ofLayer?_layer`: settings are read back from their own layer.
-/

namespace ScriptMachine

/-! ## Errors -/

/-- Why settings cannot be loaded. -/
inductive SettingsError where
  | notFound (path : String)
  | unreadable
  | invalid
  | dottedExtension (extension : String)
deriving Repr, DecidableEq

/-- The text of a settings error. -/
def SettingsError.message : SettingsError → String
  | .notFound path => "Config file not found: " ++ path
  | .unreadable => "Failed to load configuration"
  | .invalid => "Invalid configuration"
  | .dottedExtension extension => "script_extension must not start with '.': " ++ extension

namespace Settings

/-! ## Settings and layers -/

/-- The layer that gives just these settings. -/
def layer (settings : Settings) : Layer :=
  [("script_root", .text settings.scriptRoot),
    ("script_extension", .text settings.scriptExtension),
    ("step_budget", .integer settings.stepBudget),
    ("max_call_depth", .integer settings.maxCallDepth),
    ("log_filter", .text settings.logFilter)]

/-- The settings of a layer; every one of them must have a value of its kind. -/
def ofLayer? (layer : Layer) : Option Settings := do
  let text (key : String) : Option String := (layer.get? key).bind RawValue.text?
  let count (key : String) : Option Nat := (layer.get? key).bind RawValue.count?
  some {
    scriptRoot := ← text "script_root"
    scriptExtension := ← text "script_extension"
    stepBudget := ← count "step_budget"
    maxCallDepth := ← count "max_call_depth"
    logFilter := ← text "log_filter" }

/-- Settings are read back from their own layer. -/
theorem ofLayer?_layer (settings : Settings) : ofLayer? settings.layer = some settings := by
  simp [ofLayer?, layer, Layer.get?, RawValue.text?, RawValue.count?]

/-! ## The settings file -/

/-- The settings file of a working directory. -/
def usualFile : String := "lute.toml"

/-- The environment variable that chooses a settings file. -/
def fileVariable : String := "LUTE_CONFIG_PATH"

/-- The bytes of the file at a path. -/
def bytesAt? (files : FileSystem) (path : List Char) : Option ByteArray :=
  match files.find path with
  | .ok (_, .file content) => some content
  | _ => none

/-- The text of a settings file; its extension need not be given.  A file whose bytes are not
a text cannot be read. -/
def textOfFile? (files : FileSystem) (path : List Char) : Option String :=
  (bytesAt? files path <|>
    (if (Path.fileName? path).isSome then
      bytesAt? files (Path.throughFileName path ++ ".toml".toList)
    else none)).bind String.fromUTF8?

/-- The layer of the text of a settings file. -/
def layerOfText (text : String) : Except SettingsError Layer :=
  match Toml.parse? text.toList with
  | some entries => .ok (.ofToml entries)
  | none => .error .unreadable

/-- The layer of the settings file: the chosen one, or the usual one if it can be read. -/
def fileLayer (files : FileSystem) : Option String → Except SettingsError Layer
  | some path =>
    if !files.pathExists path.toList then .error (.notFound path)
    else
      match textOfFile? files path.toList with
      | some text => layerOfText text
      | none => .error .unreadable
  | none =>
    match textOfFile? files usualFile.toList with
    | some text => layerOfText text
    | none => .ok []

/-! ## Loading -/

/-- What is chosen explicitly. -/
structure Choice where
  settingsFile : Option String
  scriptRoot : Option String

/-- Nothing is chosen. -/
def Choice.none : Choice := ⟨Option.none, Option.none⟩

/-- The value of an environment variable. -/
def variableValue? (environment : List (String × String)) (name : String) : Option String :=
  (environment.findRev? fun entry => entry.1 == name).map Prod.snd

/-- Settings that a machine can start with. -/
def check (settings : Settings) : Except SettingsError Settings :=
  if settings.scriptExtension.toList.head? == some '.' then
    .error (.dottedExtension settings.scriptExtension)
  else .ok settings

/-- The settings from all layers, a later one winning over an earlier one. -/
def load (choice : Choice) (environment : List (String × String)) (files : FileSystem) :
    Except SettingsError Settings := do
  let file ← fileLayer files (choice.settingsFile <|> variableValue? environment fileVariable)
  let explicit : Layer := (choice.scriptRoot.map fun root => ("script_root", .text root)).toList
  match ofLayer? (standard.layer ++ file ++ Layer.ofEnvironment environment ++ explicit) with
  | none => .error .invalid
  | some settings => settings.check

/-! ## Writing -/

/-- The greatest number that a settings file can hold. -/
def maxWritten : Nat := Number.maxSigned64.toNat

/-- The lines of settings in a settings file, unless a number is too large for one. -/
def tomlLines? (settings : Settings) : Option (List String) :=
  if maxWritten < settings.stepBudget ∨ maxWritten < settings.maxCallDepth then none
  else
    let quoted (s : String) : String := String.ofList (Toml.stringText s.toList)
    some [
      "script_root = " ++ quoted settings.scriptRoot,
      "script_extension = " ++ quoted settings.scriptExtension,
      "step_budget = " ++ toString settings.stepBudget,
      "max_call_depth = " ++ toString settings.maxCallDepth,
      "log_filter = " ++ quoted settings.logFilter]

/-- Settings as a settings file. -/
def toToml? (settings : Settings) : Option String :=
  settings.tomlLines?.map fun lines => "".intercalate (lines.map (· ++ "\n"))

/-- What is said when settings cannot be written, from the outside in. -/
def writeFailure : List String :=
  ["Failed to render configuration as TOML", "out-of-range value for u64 type"]

end Settings
end ScriptMachine
