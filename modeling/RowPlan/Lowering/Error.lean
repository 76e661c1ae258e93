import RowPlan.Arity
import RowPlan.Expr

/-!
The causes for which an expression cannot be lowered, and their messages. Every error ends the
lowering of the whole expression.
-/

namespace RowPlan

/-- Why an expression cannot be lowered. -/
inductive LowerError where
  /-- The call has a number of arguments that its conversion does not accept. -/
  | arity (function : BuiltIn) (expected : Arity) (actual : Nat)
  /-- A configuration argument is absent, or no literal of the expected kind. -/
  | missingConfiguration (function : BuiltIn) (behavior : String)
  /-- A configuration value has no counterpart in row expressions. -/
  | unknownBehavior (behavior value : String)
  /-- No rule claims the function. -/
  | unsupportedFunction (function : BuiltIn)
  /-- The expression has a meaning only as an argument. -/
  | unsupportedExpression (kind : String)
  /-- The expression is nested more deeply than the limit. -/
  | depthExceeded (limit : Nat)
  /-- A conversion asked for an argument beyond the last one; those of this library never do. -/
  | argumentMissing (function : BuiltIn) (position : Nat)
  deriving DecidableEq

def LowerError.message : LowerError → String
  | arity function expected actual =>
    "Invalid number of arguments for " ++ function.name ++ ": expected " ++ expected.display ++
      ", got " ++ toString actual
  | missingConfiguration function behavior =>
    "Missing argument for " ++ behavior ++ " behavior of " ++ function.name
  | unknownBehavior behavior value => "Unknown " ++ behavior ++ " behavior: " ++ value
  | unsupportedFunction function => "Unsupported function: " ++ function.name
  | unsupportedExpression kind => "Unsupported expression: " ++ kind ++ " cannot be lowered"
  | depthExceeded limit =>
    "Expression nesting exceeds the maximum depth of " ++ toString limit
  | argumentMissing function position =>
    "Missing argument " ++ toString position ++ " of " ++ function.name

/-- An arity error unless the call has an accepted number of arguments. -/
def Call.checkArity (c : Call) (arity : Arity) : Except LowerError Unit :=
  if arity.accepts c.args.length then .ok ()
  else .error (.arity c.function arity c.args.length)

end RowPlan
