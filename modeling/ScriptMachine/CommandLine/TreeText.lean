import ScriptMachine.Script.Tree
import ScriptMachine.Value.Snapshot

/-!
# Trees as text

The syntax tree of a script is printed as JSON over several lines, each level two blanks
further to the right.

Main results:

- {lit}`Document.render`: JSON over several lines.
- {lit}`Tree.document`: what is printed of a tree.
- {lit}`Document.render_list_nil`: an empty list stays in one line.
-/

namespace ScriptMachine
namespace CommandLine

/-! ## JSON over several lines -/

/-- A JSON value whose scalars are written already. -/
inductive Document where
  | scalar (text : String)
  | list (items : List Document)
  | record (fields : List (String × Document))

namespace Document

/-- The start of a line at a level. -/
def lineStart (level : Nat) : String :=
  String.ofList ('\n' :: List.replicate (2 * level) ' ')

/-- Items between brackets, each in a line of its own. -/
def enclose (opening closing : String) (level : Nat) : List String → String
  | [] => opening ++ closing
  | items =>
    opening ++ lineStart (level + 1) ++ (("," ++ lineStart (level + 1)).intercalate items) ++
      lineStart level ++ closing

mutual

/-- The text of a value at a level. -/
def render (level : Nat) : Document → String
  | .scalar text => text
  | .list items => enclose "[" "]" level (renderItems (level + 1) items)
  | .record fields => enclose "\x7b" "\x7d" level (renderFields (level + 1) fields)

/-- The texts of the items of a list. -/
def renderItems (level : Nat) : List Document → List String
  | [] => []
  | item :: rest => render level item :: renderItems level rest

/-- The texts of the fields of a record. -/
def renderFields (level : Nat) : List (String × Document) → List String
  | [] => []
  | (key, value) :: rest =>
    (Snapshot.jsonString key ++ ": " ++ render level value) :: renderFields level rest

end

/-- An empty list stays in one line. -/
theorem render_list_nil (level : Nat) : render level (.list []) = "[" ++ "]" := by
  simp [render, renderItems, enclose]

/-- A number. -/
def number (n : Nat) : Document := .scalar (toString n)

/-- A text. -/
def text (s : String) : Document := .scalar (Snapshot.jsonString s)

/-- Something that may be missing. -/
def optional {α : Type} (document : α → Document) : Option α → Document
  | some x => document x
  | none => .scalar "null"

/-- A list of numbers. -/
def numbers (ns : List Nat) : Document := .list (ns.map number)

end Document

end CommandLine

/-! ## Trees -/

open CommandLine

/-- What is printed of the kind of a node: its name, then its links. -/
def NodeKind.document : NodeKind → Document
  | .entry => .record [("t", .text "Begin")]
  | .expression => .record [("t", .text "Expression")]
  | .conditional elseIfs elseBranch =>
    .record [("t", .text "If"), ("else_ifs", .numbers elseIfs),
      ("else_branch", .optional .number elseBranch)]
  | .elseIf => .record [("t", .text "ElseIf")]
  | .otherwise => .record [("t", .text "Else")]
  | .whileLoop => .record [("t", .text "While")]
  | .forEach iterator slot =>
    .record [("t", .text "ForEach"), ("iterator", .text iterator), ("slot", .number slot)]

/-- What is printed of a node. -/
def Node.document (node : Node) : Document :=
  .record [("kind", node.kind.document), ("source", .text (String.ofList node.source)),
    ("expression", .optional (fun e => .text (String.ofList e)) node.expression),
    ("line", .number node.line), ("children", .numbers node.children)]

/-- What is printed of a tree. -/
def Tree.document (tree : Tree) : Document :=
  .record [("nodes", .list (tree.nodes.toList.map Node.document)), ("root", .number tree.root),
    ("initializers", .numbers tree.initializers)]

end ScriptMachine
