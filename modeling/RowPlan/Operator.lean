/-!
The operators of row expressions. The name of an operator is what plans print; its JSON tag is a
word.
-/

namespace RowPlan

/-- An operator of a row expression. -/
inductive Operator where
  | plus
  | minus
  | multiply
  | divide
  | equals
  | notEquals
  | greaterThan
  | lessThan
  | isNull
  | and
  | or
  | not
  | upper
  | lower
  | concat
  | jsonExists
  | jsonValue
  | jsonQuery
  deriving DecidableEq

namespace Operator

def all : List Operator :=
  [.plus, .minus, .multiply, .divide, .equals, .notEquals, .greaterThan, .lessThan, .isNull, .and,
    .or, .not, .upper, .lower, .concat, .jsonExists, .jsonValue, .jsonQuery]

/-- The name in plans. -/
def name : Operator → String
  | plus => "+"
  | minus => "-"
  | multiply => "*"
  | divide => "/"
  | equals => "="
  | notEquals => "<>"
  | greaterThan => ">"
  | lessThan => "<"
  | isNull => "IS NULL"
  | and => "AND"
  | or => "OR"
  | not => "NOT"
  | upper => "UPPER"
  | lower => "LOWER"
  | concat => "||"
  | jsonExists => "JSON_EXISTS"
  | jsonValue => "JSON_VALUE"
  | jsonQuery => "JSON_QUERY"

/-- The tag in JSON. -/
def tag : Operator → String
  | plus => "PLUS"
  | minus => "MINUS"
  | multiply => "MULTIPLY"
  | divide => "DIVIDE"
  | equals => "EQUALS"
  | notEquals => "NOT_EQUALS"
  | greaterThan => "GREATER_THAN"
  | lessThan => "LESS_THAN"
  | isNull => "IS_NULL"
  | and => "AND"
  | or => "OR"
  | not => "NOT"
  | upper => "UPPER"
  | lower => "LOWER"
  | concat => "CONCAT"
  | jsonExists => "JSON_EXISTS"
  | jsonValue => "JSON_VALUE"
  | jsonQuery => "JSON_QUERY"

def ofTag? (s : String) : Option Operator := all.find? (·.tag == s)

theorem ofTag?_tag (op : Operator) : ofTag? op.tag = some op := by
  cases op <;> simp [ofTag?, all, tag]

/-- The comparisons of two values. -/
def isComparison : Operator → Bool
  | equals | notEquals | greaterThan | lessThan => true
  | _ => false

/-- The SQL/JSON functions. -/
def isJson : Operator → Bool
  | jsonExists | jsonValue | jsonQuery => true
  | _ => false

end Operator

end RowPlan
