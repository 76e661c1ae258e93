import RowPlan.Node

/-!
The tree print of a row expression: a line per node in prefix order, two more spaces of indentation
per level. Unlike the digest it shows the types of calls.
-/

namespace RowPlan.Node

/-- What the line of a call says: its operator, and its type if it has one. -/
def header (op : Operator) : Option SqlType → List Char
  | none => op.name.toList
  | some t => op.name.toList ++ " : ".toList ++ t.name.toList

/-- A line with spaces in front. -/
def indented (indent : Nat) (line : List Char) : List Char := List.replicate indent ' ' ++ line

mutual

/-- The lines of a node whose own line is indented by `indent`, without their ends. -/
def lines (indent : Nat) : Node → List (List Char)
  | inputRef index => [indented indent (text (inputRef index))]
  | literal value => [indented indent (text (literal value))]
  | call op operands type => indented indent (header op type) :: linesOfAll (indent + 2) operands

def linesOfAll (indent : Nat) : List Node → List (List Char)
  | [] => []
  | n :: ns => lines indent n ++ linesOfAll indent ns

end

/-- The tree print, as characters: every line is ended by a newline. -/
def treeText (n : Node) : List Char := (n.lines 0).flatMap fun line => line ++ ['\n']

def tree (n : Node) : String := String.ofList n.treeText

end RowPlan.Node
