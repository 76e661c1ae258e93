import RowPlan.Node

/-!
Requests for nodes. Whoever lowers expressions never makes a node itself: it sends a request to a
builder. The plain builder answers with the node that the request describes.
-/

namespace RowPlan

/-- A request for one node. -/
inductive Request where
  | inputRef (index : UInt64)
  | literal (value : Literal Flag)
  | flag (f : Flag)
  | call (op : Operator) (operands : List Node)
  | typedCall (type : SqlType) (op : Operator) (operands : List Node)

/-- What answers requests. -/
abbrev Builder := Request → Node

/-- The node that a request describes. -/
def Request.node : Builder
  | inputRef index => .inputRef index
  | literal value => .literal value
  | flag f => .literal (.symbol f)
  | call op operands => .call op operands none
  | typedCall type op operands => .call op operands (some type)

/-- The request for a literal of an expression: a flag for a symbol, a constant for the others. -/
def Request.ofLiteral : Literal Symbol → Request
  | .null => literal .null
  | .boolean b => literal (.boolean b)
  | .integer n => literal (.integer n)
  | .double d => literal (.double d)
  | .string s => literal (.string s)
  | .symbol s => flag (.ofSymbol s)

end RowPlan
