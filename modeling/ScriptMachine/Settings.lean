/-!
# Settings of a machine

Where named scripts are found, how long a background run may take before it is parked, and
how deeply scripts may call each other.

Main results:

- {lit}`Settings.standard`: the settings that hold unless something else is said.
-/

namespace ScriptMachine

/-- The settings of a machine. -/
structure Settings where
  /-- The directory against which named scripts are resolved. -/
  scriptRoot : String
  /-- The extension of named scripts that have none. -/
  scriptExtension : String
  /-- The steps that a background run may take in one tick; zero sets no limit. -/
  stepBudget : Nat
  /-- The greatest nesting of script calls. -/
  maxCallDepth : Nat
  /-- Which messages are logged. -/
  logFilter : String
deriving Repr, DecidableEq

/-- The settings that hold unless something else is said. -/
def Settings.standard : Settings where
  scriptRoot := "."
  scriptExtension := "lute"
  stepBudget := 256
  maxCallDepth := 64
  logFilter := "info"

end ScriptMachine
