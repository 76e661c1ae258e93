import RowPlan.BuiltIn
import RowPlan.Double.Text
import RowPlan.Literal
import RowPlan.SqlType
import RowPlan.Symbol

/-!
Resolved expressions: fields of the input row, literals, types used as arguments, and calls of
built-in functions. Only a literal has a value at planning time; configuration arguments are read
through the accessors here, which answer `none` for everything else.
-/

namespace RowPlan

/-- An expression. The name of a field is kept for display; its index is what counts. -/
inductive Expr where
  | field (name : String) (index : UInt64)
  | literal (value : Literal Symbol)
  | type (type : SqlType)
  | call (function : BuiltIn) (args : List Expr)

/-- A function applied to arguments. -/
structure Call where
  function : BuiltIn
  args : List Expr

/-- The text of a literal in an expression. Strings are quoted and nothing in them is escaped. -/
def Literal.exprText : Literal Symbol → List Char
  | .null => "NULL".toList
  | .boolean b => (toString b).toList
  | .integer n => (toString n.toInt).toList
  | .double d => d.text .expression
  | .string s => '\'' :: s.toList ++ ['\'']
  | .symbol s => s.name.toList

namespace Expr

mutual

/-- The text of an expression: `name(argument, argument)` for calls. -/
def text : Expr → List Char
  | field name _ => name.toList
  | literal value => value.exprText
  | type t => t.name.toList
  | call function args => function.name.toList ++ '(' :: [',', ' '].intercalate (texts args) ++ [')']

def texts : List Expr → List (List Char)
  | [] => []
  | e :: es => text e :: texts es

end

def display (e : Expr) : String := String.ofList e.text

/-- What an expression is called in messages. -/
def kind : Expr → String
  | field .. => "field reference"
  | literal _ => "literal"
  | type _ => "type literal"
  | call .. => "call"

/-- The value, if the expression is a literal. -/
def literal? : Expr → Option (Literal Symbol)
  | literal value => some value
  | _ => none

/-- The type, if the expression is one. -/
def type? : Expr → Option SqlType
  | type t => some t
  | _ => none

def call? : Expr → Option Call
  | call function args => some ⟨function, args⟩
  | _ => none

def symbol? (e : Expr) : Option Symbol := e.literal?.bind Literal.symbol?

mutual

/-- Equality of trees, doubles being compared as numbers. -/
def sameValue : Expr → Expr → Bool
  | field name index, field name' index' => name == name' && index == index'
  | literal value, literal value' => value.sameValue value'
  | type t, type t' => t == t'
  | call function args, call function' args' => function == function' && sameValues args args'
  | _, _ => false

def sameValues : List Expr → List Expr → Bool
  | [], [] => true
  | e :: es, e' :: es' => sameValue e e' && sameValues es es'
  | _, _ => false

end

end Expr

def Call.toExpr (c : Call) : Expr := .call c.function c.args

end RowPlan
