import ScriptMachine.Expr.Resolve
import ScriptMachine.FileSystem
import ScriptMachine.Source.Keyword

/-!
# Diagnostics

What is wrong with a script is reported by line: mistakes of structure, expressions that do
not compile, and files that cannot be read.

Main results:

- {lit}`Diagnostic.text`: a diagnostic as it is printed.
-/

namespace ScriptMachine

open Source

/-- The greatest number of parameters of a script. -/
def maxParameters : Nat := 10

/-- A mistake in the structure of a script. -/
inductive StructureError where
  | empty
  | noHeader
  | noScriptName
  | headerAgain
  | declarationInBlock
  | noVariableName
  | badVariableName (name : String)
  | redeclared (name : String)
  | shadowsGlobal (name : String)
  | nestedBegin
  | secondBegin
  | tooManyParameters (count : Nat)
  | duplicateParameter (name : String)
  | unknownParameter (name : String)
  | endWithoutBegin
  | outsideBegin (what : String)
  | noCondition
  | badForEach
  | unknownIterator (name : String)
  | loopWithoutStart
  | branchWithoutIf (keyword : Keyword)
  | elseIfAfterElse
  | secondElse
  | endIfWithoutIf
  | statementOutside
  | jumpOutsideLoop (keyword : Keyword)
  | noBegin
  | unterminated (expected : Keyword)
deriving Repr, DecidableEq

namespace StructureError

/-- The text of a mistake. -/
def message : StructureError → String
  | .empty => "Script is empty"
  | .noHeader => "Scripts should start with a script name declaration"
  | .noScriptName => "Invalid script name"
  | .headerAgain => "Script name already declared"
  | .declarationInBlock => "Variables must be declared outside of blocks"
  | .noVariableName => "Invalid variable name"
  | .badVariableName name => "Invalid variable name '" ++ name ++ "'"
  | .redeclared name => "Variable '" ++ name ++ "' redeclared"
  | .shadowsGlobal name => "Variable '" ++ name ++ "' collides with a global of the same name"
  | .nestedBegin => "Begin blocks cannot be nested"
  | .secondBegin => "Only one Begin block is allowed"
  | .tooManyParameters count =>
    "Too many parameters (" ++ toString count ++ ", max " ++ toString maxParameters ++ ")"
  | .duplicateParameter name => "Duplicate parameter '" ++ name ++ "'"
  | .unknownParameter name =>
    "Couldn't initialize parameter '" ++ name ++ "' - non-existent variable"
  | .endWithoutBegin => "'End' has no matching 'Begin'"
  | .outsideBegin what => "'" ++ what ++ "' must be inside a Begin block"
  | .noCondition => "Invalid condition expression"
  | .badForEach => "Invalid ForEach expression, expected 'foreach <variable> in <array>'"
  | .unknownIterator name => "ForEach iterator '" ++ name ++ "' is not a declared variable"
  | .loopWithoutStart => "'Loop' has no matching 'While' or 'ForEach'"
  | .branchWithoutIf keyword => "'" ++ keyword.text ++ "' has no matching 'If'"
  | .elseIfAfterElse => "'ElseIf' cannot follow 'Else'"
  | .secondElse => "If blocks can only have one 'Else'"
  | .endIfWithoutIf => "'EndIf' has no matching 'If'"
  | .statementOutside => "Statements must be inside a Begin block"
  | .jumpOutsideLoop keyword => "'" ++ keyword.text ++ "' called outside a loop"
  | .noBegin => "Script has no Begin block"
  | .unterminated expected => "Unterminated block, expected '" ++ expected.text ++ "'"

end StructureError

/-- Why a script does not compile at some line. -/
inductive CompileError where
  | structural (e : StructureError)
  | expression (e : ExprError)
  | unreadable (path : String) (e : ReadError)
deriving Repr, DecidableEq

/-- The text of a compile error. -/
def CompileError.message : CompileError → String
  | .structural e => e.message
  | .expression e => e.message
  | .unreadable path e => "couldn't read " ++ path ++ ": " ++ e.message

/-- A compile error at a source line. -/
structure Diagnostic where
  line : Nat
  cause : CompileError
deriving Repr, DecidableEq

/-- A diagnostic as it is printed. -/
def Diagnostic.text (diagnostic : Diagnostic) : String :=
  "Line " ++ toString diagnostic.line ++ ": " ++ diagnostic.cause.message

end ScriptMachine
