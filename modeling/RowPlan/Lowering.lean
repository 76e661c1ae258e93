import RowPlan.Lowering.Rule

/-!
Lowering of whole expressions. The tree is walked from the root; every call goes to the first rule
that does not decline it, and the rule hands the arguments it wants lowered back to the walk, one
level deeper. The depth limit alone ends the walk, whatever expressions rules hand back.
-/

namespace RowPlan

/-- Offer a call to rules in order. Errors end the search, and so does a node. -/
def offer (c : Context) (call : Call) : List Rule → Logged Step Node
  | [] => .fail (.unsupportedFunction call.function)
  | rule :: rules =>
    ((rule call).run c 0).bind fun
      | some n => .pure n
      | none => offer c call rules

/-- Rules, a builder and a depth limit. -/
structure Planner where
  rules : List Rule
  builder : Builder
  limit : Nat

namespace Planner

/-- Lower an expression that may nest calls up to `levels - 1` deep. -/
def lowerWithin (p : Planner) : (levels : Nat) → Expr → Logged Request Node
  | 0, _ => .fail (.depthExceeded p.limit)
  | levels + 1, e =>
    let context : Context := ⟨fun _ e => p.lowerWithin levels e, p.builder⟩
    match e with
    | .field _ index => context.build (.inputRef index)
    | .literal value => context.build (.ofLiteral value)
    | .type t => .fail (.unsupportedExpression (Expr.type t).kind)
    | .call function args =>
      (offer context ⟨function, args⟩ p.rules).requests

/-- Lower an expression found at a depth. -/
def lowerAt (p : Planner) (depth : Nat) (e : Expr) : Logged Request Node :=
  p.lowerWithin (p.limit + 1 - depth) e

/-- Lower an expression, with a log of the nodes requested. -/
def lower (p : Planner) (e : Expr) : Logged Request Node := p.lowerAt 0 e

/-- The row expression of an expression. -/
def convert (p : Planner) (e : Expr) : Except LowerError Node := (p.lower e).outcome

/-- A planner with table rules and the plain builder. -/
def ofTables (rules : List TableRule) (limit : Nat) : Planner :=
  ⟨rules.map TableRule.toRule, Request.node, limit⟩

/-- The planner with the standard rules. -/
def standard (limit : Nat) : Planner := ofTables TableRule.standard limit

/-- Append a rule, tried after the others. -/
def withRule (p : Planner) (rule : Rule) : Planner := { p with rules := p.rules ++ [rule] }

end Planner

end RowPlan
