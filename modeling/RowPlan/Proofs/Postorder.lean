import RowPlan.Proofs.Courses
import RowPlan.Proofs.Dispatch

/-! The requests of a successful lowering. They build the resulting row expression in postorder:
one request for every row expression inside it, operands from left to right before their call, and
no other request in between. This holds for all table rules. -/
namespace RowPlan

namespace Node

mutual

/-- The row expressions inside a row expression, which comes last itself. The operands of a call are
traversed from left to right. -/
def postorder : Node → List Node
  | inputRef index => [inputRef index]
  | literal value => [literal value]
  | call op operands type => postorderAll operands ++ [call op operands type]

def postorderAll : List Node → List Node
  | [] => []
  | n :: ns => postorder n ++ postorderAll ns

end

/-- The request that makes a row expression from its operands. -/
def request : Node → Request
  | inputRef index => .inputRef index
  | literal (.symbol f) => .flag f
  | literal value => .literal value
  | call op operands none => .call op operands
  | call op operands (some t) => .typedCall t op operands

/-- The requests that make a row expression out of nothing. -/
def construction (n : Node) : List Request := n.postorder.map request

theorem postorderAll_eq_flatMap (ns : List Node) : postorderAll ns = ns.flatMap postorder := by
  induction ns with
  | nil => rfl
  | cons n ns ih => rw [postorderAll, List.flatMap_cons, ih]

theorem postorder_call (op : Operator) (operands : List Node) (type : Option SqlType) :
    (call op operands type).postorder =
      operands.flatMap postorder ++ [call op operands type] := by
  rw [postorder, postorderAll_eq_flatMap]

theorem node_request (n : Node) : n.request.node = n := by
  cases n with
  | inputRef index => rfl
  | literal value => cases value <;> rfl
  | call op operands type => cases type <;> rfl

theorem construction_call (op : Operator) (operands : List Node) (type : Option SqlType) :
    (call op operands type).construction =
      operands.flatMap construction ++ [(call op operands type).request] := by
  have hoperands : operands.flatMap construction = (operands.flatMap postorder).map request :=
    List.map_flatMap.symm
  rw [hoperands, construction, postorder_call, List.map_append]
  rfl

end Node

theorem Course.request_node (k : Course) (operands : List Node) :
    (k.request operands).node = .call k.op operands k.type ∧
      (Node.call k.op operands k.type).request = k.request operands := by
  obtain ⟨stages, op, type⟩ := k
  cases type with
  | none => exact ⟨rfl, rfl⟩
  | some t => exact ⟨rfl, rfl⟩

/-- Where lowering succeeds, it requests the construction of its result and nothing else. -/
def Constructs (lowering : Expr → Logged Request Node) : Prop :=
  ∀ e n, (lowering e).outcome = .ok n → (lowering e).log = n.construction

section
variable {lowering : Expr → Logged Request Node}

/-- A stage requests what constructs the operands that it brings. -/
theorem Constructs.stage (h : Constructs lowering) {s : Stage} {ns : List Node}
    (hs : (s.recipe.perform lowering Request.node).outcome = .ok ns) :
    (s.recipe.perform lowering Request.node).log = ns.flatMap Node.construction := by
  cases s with
  | check c =>
    cases hc : c.passes with
    | true =>
      rw [Stage.perform_check_passed hc] at hs ⊢
      cases hs
      rfl
    | false =>
      rw [Stage.perform_check_failed hc] at hs
      cases hs
  | operand e =>
    rw [Stage.perform_operand] at hs ⊢
    obtain ⟨n, he, hn⟩ := Logged.outcome_bind_eq_ok_iff.mp hs
    cases hn
    have hlog : (lowering e).log = n.construction := h e n he
    rw [Logged.bind_of_ok he, hlog, List.flatMap_singleton]
    exact List.append_nil n.construction
  | flag f =>
    rw [Stage.perform_flag] at hs ⊢
    cases hs
    rfl

theorem Constructs.stages (h : Constructs lowering) {ss : List Stage} {ns : List Node}
    (hss : ((Stage.recipes ss).perform lowering Request.node).outcome = .ok ns) :
    ((Stage.recipes ss).perform lowering Request.node).log = ns.flatMap Node.construction := by
  induction ss generalizing ns with
  | nil =>
    cases hss
    rfl
  | cons s ss ih =>
    rw [Stage.perform_recipes_cons] at hss ⊢
    obtain ⟨ms, hs, hss⟩ := Logged.outcome_bind_eq_ok_iff.mp hss
    obtain ⟨rest, hrest, hns⟩ := Logged.outcome_bind_eq_ok_iff.mp hss
    cases hns
    rw [Logged.bind_of_ok hs, Logged.bind_of_ok hrest, h.stage hs, ih hrest, List.flatMap_append]
    exact congrArg (ms.flatMap Node.construction ++ ·) (List.append_nil _)

/-- The request at the end of a course is the last one of the construction, behind those of the
operands. -/
theorem Constructs.course (h : Constructs lowering) {k : Course} {n : Node}
    (hk : (k.recipe.perform lowering Request.node).outcome = .ok n) :
    (k.recipe.perform lowering Request.node).log = n.construction := by
  rw [Course.perform_recipe] at hk ⊢
  obtain ⟨operands, hss, hk⟩ := Logged.outcome_bind_eq_ok_iff.mp hk
  have hn : (k.request operands).node = n := Except.ok.inj hk
  obtain ⟨hnode, hrequest⟩ := k.request_node operands
  rw [Logged.bind_of_ok hss, ← hn, hnode, Node.construction_call, hrequest, h.stages hss]

theorem Constructs.handler (h : Constructs lowering) {handler : Handler} {call : Call} {n : Node}
    (hn : ((handler.recipe call).perform lowering Request.node).outcome = .ok n) :
    ((handler.recipe call).perform lowering Request.node).log = n.construction := by
  rcases handler.recipe_cases call with ⟨k, hcourse⟩ | ⟨error, hfail⟩ | ⟨e, hcall⟩
  · rw [hcourse] at hn ⊢
    exact h.course hn
  · rw [hfail] at hn
    cases hn
  · -- The result is that of the argument, and so are the requests.
    rw [hcall, Recipe.perform_lowered] at hn ⊢
    exact h e n hn

end

theorem Request.construction_ofLiteral (value : Literal Symbol) :
    (Request.ofLiteral value).node.construction = [.ofLiteral value] := by
  cases value <;> rfl

namespace Planner

theorem constructs_lowerWithin (rules : List TableRule) (limit levels : Nat) :
    Constructs ((ofTables rules limit).lowerWithin levels) := by
  -- A call leaves one level less to its arguments, whichever rule claims it.
  induction levels with
  | zero =>
    intro e n hn
    rw [lowerWithin_zero] at hn
    cases hn
  | succ levels ih =>
    intro e n hn
    cases e with
    | field name index =>
      cases hn
      rfl
    | literal value =>
      cases hn
      exact (Request.construction_ofLiteral value).symm
    | type t => cases hn
    | call f args =>
      cases hf : claimant? rules f with
      | none =>
        have hcall : (ofTables rules limit).lowerWithin (levels + 1) (.call f args) =
            .fail (.unsupportedFunction f) := lowerWithin_unclaimed Request.node limit levels hf args
        rw [hcall] at hn
        cases hn
      | some handler =>
        have hcall : (ofTables rules limit).lowerWithin (levels + 1) (.call f args) = _ :=
          lowerWithin_claimed Request.node limit levels hf args
        rw [hcall] at hn ⊢
        exact ih.handler hn

/-- A successful lowering requests every row expression inside its result once, in postorder, and
nothing else. The answers to its requests are those row expressions. -/
theorem log_eq_postorder_of_convert_eq_ok {rules : List TableRule} {limit : Nat} {e : Expr}
    {n : Node} (h : (ofTables rules limit).convert e = .ok n) :
    ((ofTables rules limit).lower e).log = n.postorder.map Node.request ∧
      ((ofTables rules limit).lower e).log.map Request.node = n.postorder := by
  have hlog : ((ofTables rules limit).lower e).log = n.postorder.map Node.request :=
    constructs_lowerWithin rules limit (limit + 1) e n h
  refine ⟨hlog, ?_⟩
  rw [hlog, List.map_map]
  exact List.map_id'' Node.node_request n.postorder

/-- One function stands for its argument, and `JSON_EXISTS` is converted like `JSON_VALUE`, whose
default value is made between two flags. -/
theorem log_eq_postorder_of_convert_eq_ok_mixed_rules :
    let p := ofTables
      [.identity .upper, .customized (.ofList [(.jsonExists, .jsonValue)]), .direct] 3
    let e : Expr := .call .and [.call .upper [.field "a" 0], .call .jsonExists [.field "b" 1,
      .literal (.string "$"), .type .varchar, .literal (.symbol (.valueFallback .default)),
      .call .not [.field "c" 2], .literal (.symbol (.valueFallback .null)), .type .double]]
    let n : Node := .call .and [.inputRef 0, .call .jsonValue [.inputRef 1, .literal (.string "$"),
      .literal (.symbol (.valueFallback .default)), .call .not [.inputRef 2] none,
      .literal (.symbol (.clause .empty)), .literal (.symbol (.valueFallback .null)),
      .literal (.symbol (.clause .error))] (some .varchar)] none
    p.convert e = .ok n ∧ (p.lower e).log = n.postorder.map Node.request ∧
      (p.lower e).log.map Request.node = n.postorder := by
  intro p e n
  have h : p.convert e = .ok n := rfl
  exact ⟨h, log_eq_postorder_of_convert_eq_ok h⟩

end Planner

end RowPlan
