import RowPlan.Double.Text
import RowPlan.Flag
import RowPlan.Literal
import RowPlan.Operator
import RowPlan.SqlType

/-!
Row expressions, the form the optimizer works on: columns of the input row, constants (flags among
them) and operators applied to operands. The digest of a row expression is its text on one line.
-/

namespace RowPlan

/-- A row expression. A call without a type has its type derived later. -/
inductive Node where
  | inputRef (index : UInt64)
  | literal (value : Literal Flag)
  | call (op : Operator) (operands : List Node) (type : Option SqlType)

/-- The text of a constant in a digest. A quote inside a string is doubled. -/
def Literal.digest : Literal Flag → List Char
  | .null => "null".toList
  | .boolean b => (toString b).toList
  | .integer n => (toString n.toInt).toList
  | .double d => d.text .row
  | .string s =>
    '\'' :: s.toList.flatMap (fun c => if c = '\'' then ['\'', '\''] else [c]) ++ ['\'']
  | .symbol f => "FLAG(".toList ++ f.name.toList ++ [')']

namespace Node

mutual

/-- The digest, as characters: `$0` for a column, `OP(operand, operand)` for a call, whose type is
left out. -/
def text : Node → List Char
  | inputRef index => '$' :: (toString index.toNat).toList
  | literal value => value.digest
  | call op operands _ => op.name.toList ++ '(' :: [',', ' '].intercalate (texts operands) ++ [')']

def texts : List Node → List (List Char)
  | [] => []
  | n :: ns => text n :: texts ns

end

def digest (n : Node) : String := String.ofList n.text

/-- The flag, if the node is one. -/
def flag? : Node → Option Flag
  | literal (.symbol f) => some f
  | _ => none

def isFlag (n : Node) : Bool := n.flag?.isSome

/-- The operands of a call; a leaf has none. -/
def operands : Node → List Node
  | call _ operands _ => operands
  | _ => []

/-- The flags among the operands, in order. -/
def flags (n : Node) : List Flag := n.operands.filterMap flag?

mutual

/-- Equality of trees, doubles being compared as numbers. -/
def sameValue : Node → Node → Bool
  | inputRef index, inputRef index' => index == index'
  | literal value, literal value' => value.sameValue value'
  | call op operands type, call op' operands' type' =>
    op == op' && sameValues operands operands' && type == type'
  | _, _ => false

def sameValues : List Node → List Node → Bool
  | [], [] => true
  | n :: ns, n' :: ns' => sameValue n n' && sameValues ns ns'
  | _, _ => false

end

end Node

end RowPlan
