import ScriptMachine.Fault
import ScriptMachine.Script.Diagnostic
import ScriptMachine.Script.Tree

/-!
# Programs

A program is the outcome of compiling one script: its name, variables and parameters, its
tree with compiled expressions, and what was wrong with it.  It does not change after
compilation; whether its compiled form has become stale is known to the machine.

Main results:

- {lit}`Program.slot?_lt`: the slot of a variable is one of its declarations.
-/

namespace ScriptMachine

open Text

/-- How far a program has come. -/
inductive ProgramState where
  | uncompiled
  | parsed
  | valid
  | compileError
  /-- A command or global that the program refers to went away. -/
  | invalidBytecode
deriving Repr, DecidableEq

/-- The name of a state. -/
def ProgramState.name : ProgramState → String
  | .uncompiled => "Uncompiled"
  | .parsed => "Parsed"
  | .valid => "Valid"
  | .compileError => "CompileError"
  | .invalidBytecode => "InvalidBytecode"

/-- Whether a state lies behind a successful parse. -/
def ProgramState.isCompiled : ProgramState → Bool
  | .uncompiled | .compileError => false
  | .parsed | .valid | .invalidBytecode => true

/-- A declared variable. -/
structure Variable where
  /-- The folded name. -/
  name : String
  /-- The text of the declaration from the name on, when more than the name is given. -/
  initializer : Option (List Char)
  line : Nat

/-- A script after compilation. -/
structure Program where
  id : Nat
  path : Option String
  name : String
  /-- Seconds between background runs; zero runs on every tick. -/
  interval : Float
  /-- The position of a variable is its slot. -/
  declarations : List Variable
  /-- The slots of the parameters, in order. -/
  parameters : List Nat
  tree : Option Tree
  state : ProgramState
  diagnostics : List Diagnostic
  references : Option References

namespace Program

/-- The name of a program whose header was never read. -/
def unnamed : String := "<unnamed>"

/-- A program before anything is read. -/
def fresh (id : Nat) (path : Option String) : Program where
  id := id
  path := path
  name := unnamed
  interval := 0.0
  declarations := []
  parameters := []
  tree := none
  state := .uncompiled
  diagnostics := []
  references := none

/-- The slot of a variable in a list of declarations. -/
def slotIn? (declarations : List Variable) (name : String) : Option Nat :=
  declarations.findIdx? fun declared => sameName declared.name name

/-- The slot of a variable. -/
def slot? (program : Program) (name : String) : Option Nat :=
  slotIn? program.declarations name

/-- The slot of a variable is one of its declarations. -/
theorem slot?_lt (program : Program) (name : String) (slot : Nat)
    (h : program.slot? name = some slot) : slot < program.declarations.length :=
  (List.findIdx?_eq_some_iff_getElem.1 h).1

end Program
end ScriptMachine
