import RowPlan.Lowering.JsonFunctions

/-!
Rules. A rule claims a call and lowers it, or declines it, so that the next rule gets its chance.

The rules of this library claim calls by their function alone. Each is given by a table from
functions to handlers: one operator over all arguments, a dedicated conversion, or nothing but the
only argument.
-/

namespace RowPlan

/-- A rule: a recipe that ends with `none` if the rule declines. -/
abbrev Rule := Call → Recipe (Option Node)

/-- What a table rule does with a call that it claims. -/
inductive Handler where
  /-- One operator over the lowered arguments. -/
  | operator (op : Operator) (arity : Arity)
  /-- A dedicated conversion. -/
  | conversion (c : JsonConversion)
  /-- The only argument, lowered, in place of the call. -/
  | identity
  deriving DecidableEq

namespace Handler

def operatorRecipe (op : Operator) (arity : Arity) (c : Call) : Recipe Node := do
  .ofExcept (c.checkArity arity)
  let operands ← .lowerAll c.args
  .built (.call op operands)

def identityRecipe (c : Call) : Recipe Node := do
  .ofExcept (c.checkArity (.exactly 1))
  .lowered (← c.arg 0)

def recipe : Handler → Call → Recipe Node
  | operator op arity => operatorRecipe op arity
  | conversion c => c.recipe
  | identity => identityRecipe

end Handler

/-- The rule that claims the calls of the functions in a table. -/
def Rule.ofTable (table : BuiltIn → Option Handler) : Rule := fun c =>
  match table c.function with
  | some h => do return some (← h.recipe c)
  | none => .done none

/-- The functions that map to one operator, with the operator and the accepted arity. -/
def BuiltIn.direct? : BuiltIn → Option (Operator × Arity)
  | .plus => some (.plus, .exactly 2)
  | .minus => some (.minus, .exactly 2)
  | .times => some (.multiply, .exactly 2)
  | .divide => some (.divide, .exactly 2)
  | .equals => some (.equals, .exactly 2)
  | .notEquals => some (.notEquals, .exactly 2)
  | .greaterThan => some (.greaterThan, .exactly 2)
  | .lessThan => some (.lessThan, .exactly 2)
  | .isNull => some (.isNull, .exactly 1)
  | .and => some (.and, .atLeast 2)
  | .or => some (.or, .atLeast 2)
  | .not => some (.not, .exactly 1)
  | .upper => some (.upper, .exactly 1)
  | .lower => some (.lower, .exactly 1)
  | .concat => some (.concat, .atLeast 1)
  | .jsonExists => none
  | .jsonValue => none
  | .jsonQuery => none

/-- Dedicated conversions, by the function they are registered for. -/
structure Registry where
  conversion? : BuiltIn → Option JsonConversion

namespace Registry

def empty : Registry := ⟨fun _ => none⟩

/-- Register a conversion, in place of the one registered for that function before. -/
def register (r : Registry) (function : BuiltIn) (c : JsonConversion) : Registry :=
  ⟨fun f => if f = function then some c else r.conversion? f⟩

def contains (r : Registry) (function : BuiltIn) : Bool := (r.conversion? function).isSome

/-- The registry that results from registrations in order. -/
def ofList (entries : List (BuiltIn × JsonConversion)) : Registry :=
  entries.foldl (fun r (function, c) => r.register function c) empty

/-- Each SQL/JSON function with its own conversion. -/
def standard : Registry :=
  ofList [(.jsonExists, .jsonExists), (.jsonValue, .jsonValue), (.jsonQuery, .jsonQuery)]

end Registry

/-- A rule given by a table. -/
inductive TableRule where
  /-- The functions that map to one operator. -/
  | direct
  /-- The functions in a registry. -/
  | customized (registry : Registry)
  /-- One function, whose calls stand for their only argument. -/
  | identity (function : BuiltIn)

namespace TableRule

/-- The handler of a function, if the rule claims its calls. -/
def handler? : TableRule → BuiltIn → Option Handler
  | direct, f => f.direct?.map fun (op, arity) => .operator op arity
  | customized registry, f => (registry.conversion? f).map .conversion
  | identity function, f => if f = function then some .identity else none

def toRule (r : TableRule) : Rule := .ofTable r.handler?

end TableRule

/-- The rules in use unless others are given. -/
def TableRule.standard : List TableRule := [.direct, .customized .standard]

end RowPlan
