import RowPlan.Lowering.Error
import RowPlan.Lowering.Request

/-!
Recipes: what a rule does with one call. A recipe may hand expressions to be lowered, request nodes,
and end with a result or an error; what happens next may depend on the nodes it has been given. It
has no means to look at anything else, and if a lowering fails, so does the recipe, with the same
error. Where failures are handed back to a rule, it is an `Attempt`.

`Recipe.run` carries a recipe out in a context that lowers and builds for it. The outcome comes with
a log of the steps taken, complete up to the failure if there is one.
-/

namespace RowPlan

/-- A finite course of lowering and building, with a result of type `α`. -/
inductive Recipe (α : Type) where
  | done (result : α)
  | fail (error : LowerError)
  | lower (e : Expr) (next : Node → Recipe α)
  | build (request : Request) (next : Node → Recipe α)

namespace Recipe

variable {α β : Type}

def bind : Recipe α → (α → Recipe β) → Recipe β
  | done a, f => f a
  | fail error, _ => fail error
  | lower e next, f => lower e fun n => (next n).bind f
  | build request next, f => build request fun n => (next n).bind f

instance : Monad Recipe where
  pure := done
  bind := bind

/-- Lower an expression and take the node. -/
def lowered (e : Expr) : Recipe Node := lower e done

/-- Request a node and take it. -/
def built (request : Request) : Recipe Node := build request done

/-- Take a result that is at hand, or fail. -/
def ofExcept : Except LowerError α → Recipe α
  | .ok a => done a
  | .error error => fail error

/-- Lower expressions from left to right. -/
def lowerAll : List Expr → Recipe (List Node)
  | [] => done []
  | e :: es => do
    let n ← lowered e
    let ns ← lowerAll es
    return n :: ns

end Recipe

/-- An outcome, with a log of what was done on the way to it. -/
structure Logged (ε α : Type) where
  log : List ε
  outcome : Except LowerError α

namespace Logged

variable {ε δ α β : Type}

def pure (a : α) : Logged ε α := ⟨[], .ok a⟩

def fail (error : LowerError) : Logged ε α := ⟨[], .error error⟩

def bind (x : Logged ε α) (f : α → Logged ε β) : Logged ε β :=
  match x.outcome with
  | .ok a =>
    let y := f a
    ⟨x.log ++ y.log, y.outcome⟩
  | .error error => ⟨x.log, .error error⟩

instance : Monad (Logged ε) where
  pure := pure
  bind := bind

/-- The same, with an entry in front of the log. -/
def after (entry : ε) (x : Logged ε α) : Logged ε α := ⟨entry :: x.log, x.outcome⟩

/-- The same, with every entry of the log rewritten. -/
def mapLog (f : ε → δ) (x : Logged ε α) : Logged δ α := ⟨x.log.map f, x.outcome⟩

end Logged

/-- A step of a recipe: an expression handed over for lowering, or a node requested, by the recipe or
by the lowering of an expression it handed over. -/
inductive Step where
  | lowering (e : Expr)
  | request (r : Request)

def Step.expr? : Step → Option Expr
  | lowering e => some e
  | request _ => none

def Step.request? : Step → Option Request
  | lowering _ => none
  | request r => some r

/-- The expressions handed over, in order. -/
def Logged.handedOver {α : Type} (x : Logged Step α) : List Expr := x.log.filterMap Step.expr?

/-- The same outcome, with the requests alone. -/
def Logged.requests {α : Type} (x : Logged Step α) : Logged Request α :=
  ⟨x.log.filterMap Step.request?, x.outcome⟩

/-- What carries recipes out. Lowering is told how many expressions the recipe has handed over
before. -/
structure Context where
  lower : Nat → Expr → Logged Request Node
  builder : Builder

/-- Answer one request. -/
def Context.build (c : Context) (r : Request) : Logged Request Node := ⟨[r], .ok (c.builder r)⟩

/-- Carry a recipe out that has handed over `count` expressions so far. -/
def Recipe.run {α : Type} (c : Context) : (count : Nat) → Recipe α → Logged Step α
  | _, done a => .pure a
  | _, fail error => .fail error
  | count, lower e next =>
    .after (.lowering e) <|
      ((c.lower count e).mapLog .request).bind fun n => (next n).run c (count + 1)
  | count, build r next => ((c.build r).mapLog .request).bind fun n => (next n).run c count

end RowPlan
