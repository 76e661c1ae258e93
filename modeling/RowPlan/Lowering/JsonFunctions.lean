import RowPlan.Lowering.Recipe

/-!
The conversions of the SQL/JSON functions, whose operands are not lowered one to one. Each checks
the number of its arguments, reads its configuration from literal arguments, which are never
lowered, and passes it on as flags.

Which conversion belongs to which function is for the rules to say. A conversion applied to a call
of another function treats it alike and reports errors under that function's name.
-/

namespace RowPlan

namespace Call

/-- The argument at a position. -/
def argument (c : Call) (position : Nat) : Except LowerError Expr :=
  match c.args[position]? with
  | some e => .ok e
  | none => .error (.argumentMissing c.function position)

/-- The configuration that `read` finds in the argument at a position. An absent argument and one
that `read` rejects both count as missing. -/
def configuration {α : Type} (c : Call) (read : Expr → Option α) (position : Nat)
    (behavior : String) : Except LowerError α :=
  match c.args[position]?.bind read with
  | some a => .ok a
  | none => .error (.missingConfiguration c.function behavior)

/-- The symbol of one enumeration in the argument at a position. -/
def symbolArgument {α : Type} (c : Call) (read : Symbol → Option α) (position : Nat)
    (behavior : String) : Except LowerError α :=
  c.configuration (fun e => e.symbol?.bind read) position behavior

/-- The type in the argument at a position. Any other argument there counts as missing. -/
def typeArgument (c : Call) (position : Nat) (behavior : String) : Except LowerError SqlType := do
  match (← c.argument position).type? with
  | some t => return t
  | none => .error (.missingConfiguration c.function behavior)

/-- Take the argument at a position. -/
def arg (c : Call) (position : Nat) : Recipe Expr := .ofExcept (c.argument position)

/-- Take the symbol at a position. -/
def symbolAt {α : Type} (c : Call) (read : Symbol → Option α) (position : Nat)
    (behavior : String) : Recipe α :=
  .ofExcept (c.symbolArgument read position behavior)

/-- Take the type at a position. -/
def typeAt (c : Call) (position : Nat) (behavior : String) : Recipe SqlType :=
  .ofExcept (c.typeArgument position behavior)

end Call

/-- A conversion dedicated to one SQL/JSON function. -/
inductive JsonConversion where
  | jsonExists
  | jsonValue
  | jsonQuery
  deriving DecidableEq

namespace JsonConversion

def arity : JsonConversion → Arity
  | jsonExists => .between 2 3
  | jsonValue => .exactly 7
  | jsonQuery => .exactly 5

/-- `JSON_EXISTS(json, path [, on_error])`: two lowered operands, and a flag if the third argument
is there. -/
def existsRecipe (c : Call) : Recipe Node := do
  .ofExcept (c.checkArity jsonExists.arity)
  let json ← .lowered (← c.arg 0)
  let path ← .lowered (← c.arg 1)
  if c.args.length = 3 then
    let onError ← c.symbolAt Symbol.existsFallback? 2 "on-error"
    let flag ← .built (.flag (.existsFallback (.ofSymbol onError)))
    .built (.call .jsonExists [json, path, flag])
  else .built (.call .jsonExists [json, path])

/-- `JSON_QUERY(json, path, wrapping, on_empty, on_error)`: two lowered operands and three flags,
which are requested only after all three have been read. -/
def queryRecipe (c : Call) : Recipe Node := do
  .ofExcept (c.checkArity jsonQuery.arity)
  let json ← .lowered (← c.arg 0)
  let path ← .lowered (← c.arg 1)
  let wrapping ← c.symbolAt Symbol.wrapper? 2 "wrapping"
  let onEmpty ← c.symbolAt Symbol.queryFallback? 3 "on-empty"
  let onError ← c.symbolAt Symbol.queryFallback? 4 "on-error"
  let wrapping ← .built (.flag (.wrapper (.ofSymbol wrapping)))
  let onEmpty ← .built (.flag (.queryFallback (.ofSymbol onEmpty)))
  let onError ← .built (.flag (.queryFallback (.ofSymbol onError)))
  .built (.call .jsonQuery [json, path, wrapping, onEmpty, onError])

/-- A clause of `JSON_VALUE`, whose behavior is the argument at `position`: the behavior's flag, the
next argument lowered if the behavior is to use it, and the marker of the clause. -/
def clauseRecipe (c : Call) (position : Nat) (behavior : String) (clause : Flag.Clause) :
    Recipe (List Node) := do
  let fallback ← c.symbolAt Symbol.valueFallback? position behavior
  let flag ← .built (.flag (.valueFallback (.ofSymbol fallback)))
  if fallback = .default then
    let value ← .lowered (← c.arg (position + 1))
    let marker ← .built (.flag (.clause clause))
    return [flag, value, marker]
  else
    let marker ← .built (.flag (.clause clause))
    return [flag, marker]

/-- `JSON_VALUE(json, path, returning, on_empty, empty_default, on_error, error_default)`: two
lowered operands and the two clauses, in a call of the returning type. That type is read before
anything is lowered. -/
def valueRecipe (c : Call) : Recipe Node := do
  .ofExcept (c.checkArity jsonValue.arity)
  let returning ← c.typeAt 2 "returning type"
  let json ← .lowered (← c.arg 0)
  let path ← .lowered (← c.arg 1)
  let onEmpty ← clauseRecipe c 3 "on-empty" .empty
  let onError ← clauseRecipe c 5 "on-error" .error
  .built (.typedCall returning .jsonValue ([json, path] ++ onEmpty ++ onError))

def recipe : JsonConversion → Call → Recipe Node
  | jsonExists => existsRecipe
  | jsonValue => valueRecipe
  | jsonQuery => queryRecipe

end JsonConversion

end RowPlan
