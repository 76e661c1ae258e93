/-!
The functions a call may apply. The planner trusts the argument layouts fixed by whoever resolved
the call, up to the checks its rules make.
-/

namespace RowPlan

/-- A built-in function. -/
inductive BuiltIn where
  | plus
  | minus
  | times
  | divide
  | equals
  | notEquals
  | greaterThan
  | lessThan
  | isNull
  | and
  | or
  | not
  | upper
  | lower
  | concat
  | jsonExists
  | jsonValue
  | jsonQuery
  deriving DecidableEq

namespace BuiltIn

def all : List BuiltIn :=
  [.plus, .minus, .times, .divide, .equals, .notEquals, .greaterThan, .lessThan, .isNull, .and,
    .or, .not, .upper, .lower, .concat, .jsonExists, .jsonValue, .jsonQuery]

/-- The name in expressions and messages. -/
def name : BuiltIn → String
  | plus => "plus"
  | minus => "minus"
  | times => "times"
  | divide => "divide"
  | equals => "equals"
  | notEquals => "notEquals"
  | greaterThan => "greaterThan"
  | lessThan => "lessThan"
  | isNull => "isNull"
  | and => "and"
  | or => "or"
  | not => "not"
  | upper => "upper"
  | lower => "lower"
  | concat => "concat"
  | jsonExists => "JSON_EXISTS"
  | jsonValue => "JSON_VALUE"
  | jsonQuery => "JSON_QUERY"

/-- The tag in JSON. -/
def tag : BuiltIn → String
  | plus => "PLUS"
  | minus => "MINUS"
  | times => "TIMES"
  | divide => "DIVIDE"
  | equals => "EQUALS"
  | notEquals => "NOT_EQUALS"
  | greaterThan => "GREATER_THAN"
  | lessThan => "LESS_THAN"
  | isNull => "IS_NULL"
  | and => "AND"
  | or => "OR"
  | not => "NOT"
  | upper => "UPPER"
  | lower => "LOWER"
  | concat => "CONCAT"
  | jsonExists => "JSON_EXISTS"
  | jsonValue => "JSON_VALUE"
  | jsonQuery => "JSON_QUERY"

def ofTag? (s : String) : Option BuiltIn := all.find? (·.tag == s)

theorem ofTag?_tag (f : BuiltIn) : ofTag? f.tag = some f := by
  cases f <;> simp [ofTag?, all, tag]

end BuiltIn

end RowPlan
