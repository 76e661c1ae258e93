import RowPlan.Lowering.Attempt
import RowPlan.Proofs.Recipes

/-! Recipes as attempts. A recipe goes on with nodes alone, so as an attempt it answers a failed
lowering with that failure. This sends sequencing to sequencing and keeps the run in every context.
The attempts of rules and conversions are such images of their recipes: none of them makes anything
else of a failure. -/
namespace RowPlan

namespace Attempt
variable {α β γ : Type}

@[simp]
theorem bind_eq (x : Attempt α) (f : α → Attempt β) : x >>= f = x.bind f := rfl

@[simp]
theorem bind_assoc (x : Attempt α) (f : α → Attempt β) (g : β → Attempt γ) :
    (x.bind f).bind g = x.bind fun a => (f a).bind g := by
  induction x with
  | done a => rfl
  | fail error => rfl
  | lower e next ih => simp only [bind, ih]
  | build request next ih => simp only [bind, ih]

end Attempt

namespace Recipe
variable {α β : Type}

/-- The attempt that follows the recipe, and fails where a lowering fails. -/
def toAttempt : Recipe α → Attempt α
  | done a => .done a
  | fail error => .fail error
  | lower e next => .lower e fun
    | .ok n => (next n).toAttempt
    | .error error => .fail error
  | build request next => .build request fun n => (next n).toAttempt

@[simp]
theorem toAttempt_bind (r : Recipe α) (f : α → Recipe β) :
    (r.bind f).toAttempt = r.toAttempt.bind fun a => (f a).toAttempt := by
  induction r with
  | done a => rfl
  | fail error => rfl
  | lower e next ih =>
    rw [Recipe.bind, toAttempt, toAttempt, Attempt.bind]
    congr 1
    funext answer
    cases answer with
    | ok n => exact ih n
    | error error => rfl
  | build request next ih => simp only [Recipe.bind, toAttempt, Attempt.bind, ih]

@[simp]
theorem toAttempt_pure (a : α) : (Pure.pure a : Recipe α).toAttempt = Pure.pure a := rfl

@[simp]
theorem toAttempt_built (request : Request) : (built request).toAttempt = .built request := rfl

@[simp]
theorem toAttempt_ofExcept (result : Except LowerError α) :
    (ofExcept result).toAttempt = .ofExcept result := by
  cases result <;> rfl

@[simp]
theorem toAttempt_lowered (e : Expr) :
    (lowered e).toAttempt = (Attempt.ask e).bind .ofExcept := by
  rw [lowered, toAttempt, Attempt.ask, Attempt.bind]
  congr 1
  funext answer
  cases answer <;> rfl

/-- Asking for one after the other, up to the first failure, is what a recipe does with a list. -/
@[simp]
theorem toAttempt_lowerAll (es : List Expr) :
    (lowerAll es).toAttempt = (Attempt.collect es).bind .ofExcept := by
  induction es with
  | nil => rfl
  | cons e es ih =>
    rw [lowerAll, Attempt.collect, bind_eq, toAttempt_bind, toAttempt_lowered, Attempt.bind_eq,
      Attempt.bind_assoc, Attempt.bind_assoc]
    congr 1
    funext answer
    cases answer with
    | error error => rfl
    | ok n =>
      change ((lowerAll es).bind fun ns => .done (n :: ns)).toAttempt =
        ((Attempt.collect es).bind fun rest => .done (rest.map (n :: ·))).bind .ofExcept
      rw [toAttempt_bind, ih, Attempt.bind_assoc, Attempt.bind_assoc]
      congr 1
      funext rest
      cases rest <;> rfl

/-- A recipe and its attempt take the same steps and end in the same way. -/
theorem run_toAttempt (c : Context) (r : Recipe α) (count : Nat) :
    r.toAttempt.run c count = r.run c count := by
  induction r generalizing count with
  | done a => rfl
  | fail error => rfl
  | lower e next ih =>
    rw [toAttempt, Attempt.run, run]
    cases houtcome : (c.lower count e).outcome with
    | error error =>
      have hx : ((c.lower count e).mapLog Step.request).outcome = .error error := houtcome
      rw [Logged.bind_of_error hx]
      exact congrArg (Logged.mk · _) (congrArg (_ :: ·) (List.append_nil _))
    | ok n =>
      have hx : ((c.lower count e).mapLog Step.request).outcome = .ok n := houtcome
      rw [Logged.bind_of_ok hx, ← ih]
      rfl
  | build request next ih =>
    rw [toAttempt, Attempt.run, ih]
    rfl

end Recipe

namespace Call

@[simp]
theorem toAttempt_arg (call : Call) (position : Nat) :
    (call.arg position).toAttempt = .ofExcept (call.argument position) :=
  Recipe.toAttempt_ofExcept _

@[simp]
theorem toAttempt_symbolAt {α : Type} (call : Call) (read : Symbol → Option α) (position : Nat)
    (behavior : String) :
    (call.symbolAt read position behavior).toAttempt =
      .ofExcept (call.symbolArgument read position behavior) :=
  Recipe.toAttempt_ofExcept _

@[simp]
theorem toAttempt_typeAt (call : Call) (position : Nat) (behavior : String) :
    (call.typeAt position behavior).toAttempt =
      .ofExcept (call.typeArgument position behavior) :=
  Recipe.toAttempt_ofExcept _

end Call

namespace JsonConversion

theorem existsAttempt_eq (call : Call) : existsAttempt call = (existsRecipe call).toAttempt := by
  simp [existsAttempt, existsRecipe, Call.ask, Recipe.bind_eq, apply_ite Recipe.toAttempt]

theorem queryAttempt_eq (call : Call) : queryAttempt call = (queryRecipe call).toAttempt := by
  simp [queryAttempt, queryRecipe, Call.ask, Recipe.bind_eq]

theorem clauseAttempt_eq (call : Call) (position : Nat) (behavior : String)
    (clause : Flag.Clause) :
    clauseAttempt call position behavior clause =
      (clauseRecipe call position behavior clause).toAttempt := by
  simp [clauseAttempt, clauseRecipe, Call.ask, Recipe.bind_eq, apply_ite Recipe.toAttempt]

theorem valueAttempt_eq (call : Call) : valueAttempt call = (valueRecipe call).toAttempt := by
  simp [valueAttempt, valueRecipe, clauseAttempt_eq, Call.ask, Recipe.bind_eq]

theorem attempt_eq (k : JsonConversion) (call : Call) :
    k.attempt call = (k.recipe call).toAttempt := by
  cases k with
  | jsonExists => exact existsAttempt_eq call
  | jsonValue => exact valueAttempt_eq call
  | jsonQuery => exact queryAttempt_eq call

end JsonConversion

namespace Handler

theorem operatorAttempt_eq (op : Operator) (arity : Arity) (call : Call) :
    operatorAttempt op arity call = (operatorRecipe op arity call).toAttempt := by
  simp [operatorAttempt, operatorRecipe, Recipe.bind_eq]

theorem identityAttempt_eq (call : Call) :
    identityAttempt call = (identityRecipe call).toAttempt := by
  simp [identityAttempt, identityRecipe, Call.ask, Recipe.bind_eq]

theorem attempt_eq (h : Handler) (call : Call) : h.attempt call = (h.recipe call).toAttempt := by
  cases h with
  | operator op arity => exact operatorAttempt_eq op arity call
  | conversion k => exact k.attempt_eq call
  | identity => exact identityAttempt_eq call

end Handler

/-- A rule comes to the same whether it looks at failures or not. -/
theorem TableRule.attempt_eq (rule : TableRule) (call : Call) :
    rule.attempt call = (rule.toRule call).toAttempt := by
  rw [attempt, toRule, Rule.ofTable]
  cases rule.handler? call.function with
  | none => rfl
  | some h => simp [h.attempt_eq, Recipe.bind_eq]

end RowPlan
