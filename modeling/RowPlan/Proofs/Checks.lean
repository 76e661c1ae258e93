import RowPlan.Proofs.Arguments
import RowPlan.Proofs.Translation

/-! The checks that lowering makes of an expression, listed in its order. Making them stops at the
first that fails. -/
namespace RowPlan

/-- A condition that lowering checks, with the error that reports its failure. -/
structure Check where
  passes : Bool
  error : LowerError

/-- The error of the first check that fails. -/
def firstFailure? (cs : List Check) : Option LowerError :=
  (cs.find? fun c => !c.passes).map Check.error

namespace Check

def depth (limit depth : Nat) : Check := ⟨decide (depth ≤ limit), .depthExceeded limit⟩

def count (f : BuiltIn) (actual : Nat) : Check :=
  ⟨f.target.2.accepts actual, .arity f f.target.2 actual⟩

/-- The argument has the shape that `read` looks for. -/
def slot {α : Type} (f : BuiltIn) (read : Expr → Option α) (name : String) (e : Expr) : Check :=
  ⟨(read e).isSome, .missingConfiguration f name⟩

end Check

/-- The checks of a clause of `JSON_VALUE`, given those of its default value. -/
def clauseChecks (name : String) (behavior : Expr) (ofValue : List Check) : List Check :=
  .slot .jsonValue Expr.valueFallback? name behavior ::
    if behavior.valueFallback? = some .default then ofValue else []

namespace Expr

mutual

/-- The checks of an expression found at a depth, in the order of lowering. A call of a SQL/JSON
function with a wrong number of arguments comes last; its second check fails. -/
def checks (limit depth : Nat) : Expr → List Check
  | field _ _ => [.depth limit depth]
  | literal _ => [.depth limit depth]
  | type _ => [.depth limit depth, ⟨false, .unsupportedExpression "type literal"⟩]
  | call function args =>
    .depth limit depth :: .count function args.length ::
      match function, args with
      | .jsonExists, [json, path] => checks limit (depth + 1) json ++ checks limit (depth + 1) path
      | .jsonExists, [json, path, onError] =>
        checks limit (depth + 1) json ++ checks limit (depth + 1) path ++
          [.slot .jsonExists existsFallback? "on-error" onError]
      | .jsonQuery, [json, path, wrapping, onEmpty, onError] =>
        checks limit (depth + 1) json ++ checks limit (depth + 1) path ++
          [.slot .jsonQuery wrapper? "wrapping" wrapping,
            .slot .jsonQuery queryFallback? "on-empty" onEmpty,
            .slot .jsonQuery queryFallback? "on-error" onError]
      | .jsonValue, [json, path, returning, onEmpty, emptyDefault, onError, errorDefault] =>
        .slot .jsonValue sqlType? "returning type" returning ::
          (checks limit (depth + 1) json ++ checks limit (depth + 1) path ++
            clauseChecks "on-empty" onEmpty (checks limit (depth + 1) emptyDefault) ++
            clauseChecks "on-error" onError (checks limit (depth + 1) errorDefault))
      | _, args => checksAll limit (depth + 1) args

def checksAll (limit depth : Nat) : List Expr → List Check
  | [] => []
  | e :: es => checks limit depth e ++ checksAll limit depth es

end

theorem checksAll_eq_flatMap (limit depth : Nat) (es : List Expr) :
    checksAll limit depth es = es.flatMap (checks limit depth) := by
  induction es with
  | nil => rfl
  | cons e es ih => rw [checksAll, ih, List.flatMap_cons]

theorem checks_head (limit depth : Nat) (e : Expr) :
    ∃ rest, checks limit depth e = .depth limit depth :: rest := by
  cases e <;> unfold checks <;> exact ⟨_, rfl⟩

theorem checks_call (limit depth : Nat) (f : BuiltIn) (args : List Expr) :
    ∃ rest, checks limit depth (call f args) =
      .depth limit depth :: .count f args.length :: rest := by
  unfold checks
  exact ⟨_, rfl⟩

theorem checks_call_direct {f : BuiltIn} {x : Operator × Arity} (h : f.direct? = some x)
    (limit depth : Nat) (args : List Expr) :
    checks limit depth (call f args) =
      .depth limit depth :: .count f args.length :: args.flatMap (checks limit (depth + 1)) := by
  rw [← checksAll_eq_flatMap]
  -- No arm but the last is for a direct function.
  cases f <;> first | rfl | cases h

end Expr

/-- Make checks in order, up to the first failure. -/
def verify : List Check → Except LowerError Unit
  | [] => .ok ()
  | c :: cs => if c.passes then verify cs else .error c.error

theorem verify_append (cs ds : List Check) :
    verify (cs ++ ds) = (verify cs).bind fun _ => verify ds := by
  induction cs with
  | nil => rfl
  | cons c cs ih =>
    rw [List.cons_append, verify, verify, ih]
    split
    · rfl
    · rfl

theorem verify_eq_error_iff (cs : List Check) (error : LowerError) :
    verify cs = .error error ↔ firstFailure? cs = some error := by
  induction cs with
  | nil => simp [verify, firstFailure?]
  | cons c cs ih =>
    rw [verify, firstFailure?, List.find?_cons]
    cases hc : c.passes with
    | true => exact ih
    | false => simp

theorem verify_eq_ok_iff (cs : List Check) : verify cs = .ok () ↔ ∀ c ∈ cs, c.passes = true := by
  induction cs with
  | nil => simp [verify]
  | cons c cs ih =>
    rw [verify, List.forall_mem_cons, ← ih]
    cases c.passes with
    | true => simp
    | false => simp

theorem verify_depth_cons {limit depth : Nat} (h : depth ≤ limit) (cs : List Check) :
    verify (.depth limit depth :: cs) = verify cs := by
  simp only [verify, Check.depth, h, decide_true, if_true]

theorem verify_too_deep {limit depth : Nat} (h : limit < depth) (cs : List Check) :
    verify (.depth limit depth :: cs) = .error (.depthExceeded limit) := by
  have hn : ¬ depth ≤ limit := by omega
  simp [verify, Check.depth, hn]

theorem verify_count_cons (f : BuiltIn) (actual : Nat) (cs : List Check) :
    verify (.count f actual :: cs) =
      if f.target.2.accepts actual then verify cs else .error (.arity f f.target.2 actual) := rfl

theorem verify_slot_cons {α : Type} (f : BuiltIn) (read : Expr → Option α) (name : String)
    (e : Expr) (cs : List Check) :
    verify (.slot f read name e :: cs) =
      match read e with
      | some _ => verify cs
      | none => .error (.missingConfiguration f name) := by
  rw [verify, Check.slot]
  cases read e with
  | some a => rfl
  | none => rfl

end RowPlan
