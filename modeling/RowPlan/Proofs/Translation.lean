import RowPlan.Lowering.Rule

/-! The row expression that an expression stands for, whatever the limit and the depth: a
translation by structure alone. -/
namespace RowPlan

/-- The operator that a function becomes, with the numbers of arguments that it accepts. -/
def BuiltIn.target (f : BuiltIn) : Operator × Arity :=
  f.direct?.getD <| match f with
    | .jsonExists => (.jsonExists, .between 2 3)
    | .jsonValue => (.jsonValue, .exactly 7)
    | _ => (.jsonQuery, .exactly 5)

theorem BuiltIn.target_direct {f : BuiltIn} {x : Operator × Arity} (h : f.direct? = some x) :
    f.target = x := by
  simp only [target, h, Option.getD_some]

theorem BuiltIn.eq_json_of_direct?_none {f : BuiltIn} (h : f.direct? = none) :
    f = .jsonExists ∨ f = .jsonValue ∨ f = .jsonQuery := by
  cases f <;> simp [direct?] at h ⊢

/-- The operands of a clause of `JSON_VALUE`: the flag of its behavior, the default value if that
is the behavior, and the marker of the clause. -/
def clauseOperands (b : Flag.ValueFallback) (value : Node) (clause : Flag.Clause) : List Node :=
  if b = .default then
    [.literal (.symbol (.valueFallback b)), value, .literal (.symbol (.clause clause))]
  else [.literal (.symbol (.valueFallback b)), .literal (.symbol (.clause clause))]

namespace Expr

mutual

/-- Every literal becomes a constant or a flag, and every call a call of the operator of its
function over its translated arguments. Only `JSON_VALUE` rearranges them: its type leaves the
operands, and a default value stays if its clause uses it. What has no row expression goes to
something arbitrary. -/
def translation : Expr → Node
  | field _ index => .inputRef index
  | literal value => .literal (value.map Flag.ofSymbol)
  | type _ => .literal .null
  | call function args =>
    match function, args with
    | .jsonValue, [json, path, type returning, literal (.symbol (.valueFallback onEmpty)),
        emptyDefault, literal (.symbol (.valueFallback onError)), errorDefault] =>
      .call .jsonValue
        (translation json :: translation path ::
          (clauseOperands (.ofSymbol onEmpty) (translation emptyDefault) .empty ++
            clauseOperands (.ofSymbol onError) (translation errorDefault) .error))
        (some returning)
    | function, args => .call function.target.1 (translations args) none

def translations : List Expr → List Node
  | [] => []
  | e :: es => translation e :: translations es

end

theorem translations_eq_map (es : List Expr) : translations es = es.map translation := by
  induction es with
  | nil => rfl
  | cons e es ih => rw [translations, ih, List.map_cons]

theorem translation_call_direct {f : BuiltIn} {op : Operator} {arity : Arity}
    (h : f.direct? = some (op, arity)) (args : List Expr) :
    translation (call f args) = .call op (args.map translation) none := by
  have hf : f.target.1 = op := by rw [BuiltIn.target_direct h]
  rw [← translations_eq_map, ← hf]
  -- No arm but the last is for a direct function.
  cases f <;> first | rfl | cases h

theorem translation_jsonExists (args : List Expr) :
    translation (call .jsonExists args) = .call .jsonExists (args.map translation) none := by
  rw [← translations_eq_map]
  rfl

theorem translation_jsonQuery (args : List Expr) :
    translation (call .jsonQuery args) = .call .jsonQuery (args.map translation) none := by
  rw [← translations_eq_map]
  rfl

theorem translation_jsonValue (json path emptyDefault errorDefault : Expr) (t : SqlType)
    (b c : Symbol.ValueFallback) :
    translation (call .jsonValue [json, path, type t, literal (.symbol (.valueFallback b)),
        emptyDefault, literal (.symbol (.valueFallback c)), errorDefault]) =
      .call .jsonValue
        (json.translation :: path.translation ::
          (clauseOperands (.ofSymbol b) emptyDefault.translation .empty ++
            clauseOperands (.ofSymbol c) errorDefault.translation .error))
        (some t) := rfl

end Expr
end RowPlan
