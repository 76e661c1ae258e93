import RowPlan.Lowering.JsonFunctions
import RowPlan.Proofs.Arguments

/-! The conversions of the SQL/JSON functions, laid out argument by argument. A call with a wrong
number of arguments gets an arity error and nothing else; with a right one every position has
its argument, and the conversion is a plain sequence of lowerings, readings and requests. -/
namespace RowPlan

namespace JsonConversion

/-- The configuration read from an argument, or the error that it is missing. -/
def required {α : Type} (f : BuiltIn) (slot : String) : Option α → Recipe α
  | some a => .done a
  | none => .fail (.missingConfiguration f slot)

/-- A clause of `JSON_VALUE`, given its two arguments. -/
def clause (f : BuiltIn) (slot : String) (behavior value : Expr) (clause : Flag.Clause) :
    Recipe (List Node) := do
  let b ← required f slot behavior.valueFallback?
  let flag ← .built (.flag (.valueFallback (.ofSymbol b)))
  if b = .default then
    let v ← .lowered value
    let marker ← .built (.flag (.clause clause))
    return [flag, v, marker]
  else
    let marker ← .built (.flag (.clause clause))
    return [flag, marker]

theorem recipe_of_rejected (c : JsonConversion) (call : Call)
    (h : c.arity.accepts call.args.length = false) :
    c.recipe call = .fail (.arity call.function c.arity call.args.length) := by
  have hcheck : call.checkArity c.arity =
      .error (.arity call.function c.arity call.args.length) := by
    rw [Call.checkArity, h]
    rfl
  cases c with
  | jsonExists =>
    rw [recipe, existsRecipe, hcheck]
    rfl
  | jsonValue =>
    rw [recipe, valueRecipe, hcheck]
    rfl
  | jsonQuery =>
    rw [recipe, queryRecipe, hcheck]
    rfl

theorem symbolAt_eq_required {α : Type} {call : Call} {position : Nat} {e : Expr}
    (he : call.args[position]? = some e) (read : Symbol → Option α) (slot : String) :
    call.symbolAt read position slot =
      required call.function slot (e.symbol?.bind read) := by
  rw [Call.symbolAt, Call.symbolArgument, Call.configuration, he, Option.bind_some]
  cases e.symbol?.bind read <;> rfl

theorem existsRecipe_two (f : BuiltIn) (json path : Expr) :
    existsRecipe ⟨f, [json, path]⟩ =
      (do let j ← .lowered json
          let p ← .lowered path
          .built (.call .jsonExists [j, p])) := rfl

theorem existsRecipe_three (f : BuiltIn) (json path onError : Expr) :
    existsRecipe ⟨f, [json, path, onError]⟩ =
      (do let j ← .lowered json
          let p ← .lowered path
          let b ← required f "on-error" onError.existsFallback?
          let flag ← .built (.flag (.existsFallback (.ofSymbol b)))
          .built (.call .jsonExists [j, p, flag])) := by
  rw [existsRecipe, symbolAt_eq_required rfl, Expr.symbol?_bind_existsFallback?]
  rfl

theorem queryRecipe_five (f : BuiltIn) (json path wrapping onEmpty onError : Expr) :
    queryRecipe ⟨f, [json, path, wrapping, onEmpty, onError]⟩ =
      (do let j ← .lowered json
          let p ← .lowered path
          let w ← required f "wrapping" wrapping.wrapper?
          let b ← required f "on-empty" onEmpty.queryFallback?
          let c ← required f "on-error" onError.queryFallback?
          let w ← .built (.flag (.wrapper (.ofSymbol w)))
          let b ← .built (.flag (.queryFallback (.ofSymbol b)))
          let c ← .built (.flag (.queryFallback (.ofSymbol c)))
          .built (.call .jsonQuery [j, p, w, b, c])) := by
  rw [queryRecipe, symbolAt_eq_required rfl, symbolAt_eq_required rfl, symbolAt_eq_required rfl,
    Expr.symbol?_bind_wrapper?, Expr.symbol?_bind_queryFallback?,
    Expr.symbol?_bind_queryFallback?]
  rfl

theorem clauseRecipe_eq_clause {call : Call} {position : Nat} {behavior value : Expr}
    (hbehavior : call.args[position]? = some behavior)
    (hvalue : call.args[position + 1]? = some value) (slot : String) (marker : Flag.Clause) :
    clauseRecipe call position slot marker =
      clause call.function slot behavior value marker := by
  have hdefault : call.arg (position + 1) = .done value := by
    rw [Call.arg, Call.argument, hvalue]
    rfl
  rw [clauseRecipe, symbolAt_eq_required hbehavior, hdefault, Expr.symbol?_bind_valueFallback?]
  rfl

theorem valueRecipe_seven (f : BuiltIn)
    (json path returning onEmpty emptyDefault onError errorDefault : Expr) :
    valueRecipe ⟨f, [json, path, returning, onEmpty, emptyDefault, onError, errorDefault]⟩ =
      (do let t ← required f "returning type" returning.sqlType?
          let j ← .lowered json
          let p ← .lowered path
          let b ← clause f "on-empty" onEmpty emptyDefault .empty
          let c ← clause f "on-error" onError errorDefault .error
          .built (.typedCall t .jsonValue ([j, p] ++ b ++ c))) := by
  have hreturning : Call.typeAt
      ⟨f, [json, path, returning, onEmpty, emptyDefault, onError, errorDefault]⟩ 2
        "returning type" = required f "returning type" returning.sqlType? := by
    rw [← Expr.type?_eq_sqlType?]
    cases returning <;> rfl
  rw [valueRecipe, hreturning, clauseRecipe_eq_clause rfl rfl, clauseRecipe_eq_clause rfl rfl]
  rfl

theorem clause_default {behavior : Expr} (h : behavior.valueFallback? = some .default) (f : BuiltIn)
    (slot : String) (value : Expr) (marker : Flag.Clause) :
    clause f slot behavior value marker =
      (do let flag ← .built (.flag (.valueFallback .default))
          let v ← .lowered value
          let marker ← .built (.flag (.clause marker))
          return [flag, v, marker]) := by
  rw [clause, h]
  rfl

end JsonConversion
end RowPlan
