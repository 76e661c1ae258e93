import RowPlan.Lowering.Rule

/-!
Attempts: what a rule does with one call if failures come back to it. Every expression that is
handed over for lowering is answered by a result, and what happens next may depend on the error just
as on the node: an attempt may end with that error or with another one, ask once more, or go on as
if nothing had failed.

The rules of this library are written here as attempts that take each answer and look at it. A
recipe has no such choice; that these attempts come to the same as the recipes of their rules is a
theorem about each of them.
-/

namespace RowPlan

/-- A finite course of lowering and building in which lowerings are answered by results. -/
inductive Attempt (α : Type) where
  | done (result : α)
  | fail (error : LowerError)
  | lower (e : Expr) (next : Except LowerError Node → Attempt α)
  | build (request : Request) (next : Node → Attempt α)

namespace Attempt

variable {α β : Type}

def bind : Attempt α → (α → Attempt β) → Attempt β
  | done a, f => f a
  | fail error, _ => fail error
  | lower e next, f => lower e fun answer => (next answer).bind f
  | build request next, f => build request fun n => (next n).bind f

instance : Monad Attempt where
  pure := done
  bind := bind

/-- Hand an expression over and take the answer, whatever it is. -/
def ask (e : Expr) : Attempt (Except LowerError Node) := lower e done

/-- Request a node and take it. -/
def built (request : Request) : Attempt Node := build request done

/-- Take what a result holds, or fail with its error. -/
def ofExcept : Except LowerError α → Attempt α
  | .ok a => done a
  | .error error => fail error

/-- Ask for expressions from left to right, up to the first one that fails. -/
def collect : List Expr → Attempt (Except LowerError (List Node))
  | [] => return .ok []
  | e :: es => do
    match ← ask e with
    | .error error => return .error error
    | .ok n => return (← collect es).map (n :: ·)

/-- Carry an attempt out that has handed over `count` expressions so far. A failed lowering is an
answer like any other. -/
def run (c : Context) : (count : Nat) → Attempt α → Logged Step α
  | _, done a => .pure a
  | _, fail error => .fail error
  | count, lower e next =>
    let answer := c.lower count e
    let rest := (next answer.outcome).run c (count + 1)
    ⟨.lowering e :: (answer.log.map .request ++ rest.log), rest.outcome⟩
  | count, build r next => ((next (c.builder r)).run c count).after (.request r)

end Attempt

/-- Ask for the argument at a position. -/
def Call.ask (c : Call) (position : Nat) : Attempt (Except LowerError Node) := do
  .ask (← .ofExcept (c.argument position))

namespace JsonConversion

def existsAttempt (c : Call) : Attempt Node := do
  .ofExcept (c.checkArity jsonExists.arity)
  let json ← .ofExcept (← c.ask 0)
  let path ← .ofExcept (← c.ask 1)
  if c.args.length = 3 then
    let onError ← .ofExcept (c.symbolArgument Symbol.existsFallback? 2 "on-error")
    let flag ← .built (.flag (.existsFallback (.ofSymbol onError)))
    .built (.call .jsonExists [json, path, flag])
  else .built (.call .jsonExists [json, path])

def queryAttempt (c : Call) : Attempt Node := do
  .ofExcept (c.checkArity jsonQuery.arity)
  let json ← .ofExcept (← c.ask 0)
  let path ← .ofExcept (← c.ask 1)
  let wrapping ← .ofExcept (c.symbolArgument Symbol.wrapper? 2 "wrapping")
  let onEmpty ← .ofExcept (c.symbolArgument Symbol.queryFallback? 3 "on-empty")
  let onError ← .ofExcept (c.symbolArgument Symbol.queryFallback? 4 "on-error")
  let wrapping ← .built (.flag (.wrapper (.ofSymbol wrapping)))
  let onEmpty ← .built (.flag (.queryFallback (.ofSymbol onEmpty)))
  let onError ← .built (.flag (.queryFallback (.ofSymbol onError)))
  .built (.call .jsonQuery [json, path, wrapping, onEmpty, onError])

/-- A clause of `JSON_VALUE`, whose behavior is the argument at `position`. -/
def clauseAttempt (c : Call) (position : Nat) (behavior : String) (clause : Flag.Clause) :
    Attempt (List Node) := do
  let fallback ← .ofExcept (c.symbolArgument Symbol.valueFallback? position behavior)
  let flag ← .built (.flag (.valueFallback (.ofSymbol fallback)))
  if fallback = .default then
    let value ← .ofExcept (← c.ask (position + 1))
    let marker ← .built (.flag (.clause clause))
    return [flag, value, marker]
  else
    let marker ← .built (.flag (.clause clause))
    return [flag, marker]

def valueAttempt (c : Call) : Attempt Node := do
  .ofExcept (c.checkArity jsonValue.arity)
  let returning ← .ofExcept (c.typeArgument 2 "returning type")
  let json ← .ofExcept (← c.ask 0)
  let path ← .ofExcept (← c.ask 1)
  let onEmpty ← clauseAttempt c 3 "on-empty" .empty
  let onError ← clauseAttempt c 5 "on-error" .error
  .built (.typedCall returning .jsonValue ([json, path] ++ onEmpty ++ onError))

def attempt : JsonConversion → Call → Attempt Node
  | jsonExists => existsAttempt
  | jsonValue => valueAttempt
  | jsonQuery => queryAttempt

end JsonConversion

namespace Handler

def operatorAttempt (op : Operator) (arity : Arity) (c : Call) : Attempt Node := do
  .ofExcept (c.checkArity arity)
  let operands ← .ofExcept (← .collect c.args)
  .built (.call op operands)

def identityAttempt (c : Call) : Attempt Node := do
  .ofExcept (c.checkArity (.exactly 1))
  .ofExcept (← c.ask 0)

def attempt : Handler → Call → Attempt Node
  | operator op arity => operatorAttempt op arity
  | conversion c => c.attempt
  | identity => identityAttempt

end Handler

/-- The attempt of the handler for the function, with `none` if the rule declines. -/
def TableRule.attempt (r : TableRule) (c : Call) : Attempt (Option Node) :=
  match r.handler? c.function with
  | some h => do return some (← h.attempt c)
  | none => .done none

end RowPlan
