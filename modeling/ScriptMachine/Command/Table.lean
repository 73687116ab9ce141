import ScriptMachine.Command.Builtin
import ScriptMachine.Text.Escaped

/-!
# The command table

A host may add commands of its own to the built-in ones.  A name or alias is taken by at
most one command, whatever its letter case, so a name finds at most one command.

Main results:

- {lit}`CommandTable.register`: adds a command, or names the key that is taken.
- {lit}`CommandTable.lookup?_mem`: what is found is listed and answers to the name.
- {lit}`CommandTable.unregister`: removes a command under both of its keys.
-/

namespace ScriptMachine

open Text

/-! ## Commands -/

/-- What a host command does when it is called. -/
inductive HostAction where
  /-- Leaves the preset result. -/
  | nothing
  /-- Answers with an argument; the result type is checked or not. -/
  | echo (index : Nat) (checked : Bool)
  /-- Answers with a fixed value. -/
  | constant (v : Value)
  /-- Fails with a message. -/
  | fail (message : String)
  /-- Answers with the number of arguments. -/
  | countArguments
  /-- Answers with an argument read as a number. -/
  | numberOf (index : Nat)
  /-- Answers with an argument read as a string. -/
  | stringOf (index : Nat)
  /-- Answers with an argument read as an array. -/
  | arrayOf (index : Nat)
  /-- Answers with an argument read as a position. -/
  | indexOf (index : Nat)
  /-- Raises the global exception. -/
  | raise
  /-- Removes a global. -/
  | removeGlobal (name : String)
  /-- Unregisters a command, whether it is registered or not. -/
  | unregister (name : String)
  /-- Backgrounds the running program with the arguments of the call. -/
  | backgroundSelf

/-- What a command does: one of the built-in operations or an action of the host. -/
inductive CommandAction where
  | builtin (operation : Builtin)
  | host (action : HostAction)

/-- A command: what it publishes and what it does. -/
structure Command where
  signature : Signature
  action : CommandAction

/-- A built-in command. -/
def Builtin.command (builtin : Builtin) : Command :=
  ⟨builtin.signature, .builtin builtin⟩

/-! ## The table -/

/-- The registered commands, in order of registration. -/
structure CommandTable where
  commands : List Command

/-- Why the table refuses a change. -/
inductive CommandError where
  | duplicate (key : String)
  | notRegistered (name : String)
deriving Repr, DecidableEq

/-- The text of a refusal. -/
def CommandError.message : CommandError → String
  | .duplicate key => "command '" ++ key ++ "' is already registered"
  | .notRegistered name => "command '" ++ name ++ "' is not registered"

namespace CommandTable

/-- No commands. -/
def empty : CommandTable := ⟨[]⟩

/-- The command that answers to a name. -/
def lookup? (table : CommandTable) (name : String) : Option Command :=
  table.commands.find? fun command => command.signature.answersTo name

/-- Whether a command answers to a name. -/
def contains (table : CommandTable) (name : String) : Bool :=
  (table.lookup? name).isSome

/-- The number of commands. -/
def size (table : CommandTable) : Nat :=
  table.commands.length

/-- Adds a command, unless its name or its alias is taken. -/
def register (table : CommandTable) (command : Command) : Except CommandError CommandTable :=
  match command.signature.keys.find? table.contains with
  | some key => .error (.duplicate key)
  | none => .ok ⟨table.commands ++ [command]⟩

/-- Removes the command that answers to a name. -/
def unregister (table : CommandTable) (name : String) : Except CommandError (Command × CommandTable) :=
  match table.lookup? name with
  | none => .error (.notRegistered name)
  | some command =>
    .ok (command, ⟨table.commands.filter fun other =>
      !(other.signature.answersTo command.signature.name)⟩)

/-- The table with every built-in command. -/
def standard : CommandTable :=
  ⟨Builtin.all.map Builtin.command⟩

/-- The names of all commands, each between quotes. -/
def outline (table : CommandTable) : String :=
  "[" ++ ", ".intercalate (table.commands.map fun command => escaped command.signature.name) ++ "]"

/-- What is found is listed and answers to the name. -/
theorem lookup?_mem (table : CommandTable) (name : String) (command : Command)
    (h : table.lookup? name = some command) :
    command ∈ table.commands ∧ command.signature.answersTo name = true := by
  unfold lookup? at h
  exact ⟨List.mem_of_find?_eq_some h, by simpa using List.find?_some h⟩

end CommandTable
end ScriptMachine
