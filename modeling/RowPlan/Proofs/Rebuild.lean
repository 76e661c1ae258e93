import RowPlan.Proofs.Courses
import RowPlan.Proofs.Dispatch

/-! Lowering through any builder. Table rules make no row expression and look into none; they only
pass on what the builder answers. So lowering through a builder is plain lowering with the result
requested again from the bottom up, whatever the answers are, and it fails where plain lowering
does, with the same error. -/
namespace RowPlan

namespace Node

mutual

/-- Request a row expression again, operands first, of a builder that may answer as it likes. -/
def rebuild (builder : Builder) : Node → Node
  | inputRef index => builder (.inputRef index)
  | literal (.symbol f) => builder (.flag f)
  | literal value => builder (.literal value)
  | call op operands none => builder (.call op (rebuildAll builder operands))
  | call op operands (some t) => builder (.typedCall t op (rebuildAll builder operands))

def rebuildAll (builder : Builder) : List Node → List Node
  | [] => []
  | n :: ns => rebuild builder n :: rebuildAll builder ns

end

theorem rebuildAll_eq_map (builder : Builder) (ns : List Node) :
    rebuildAll builder ns = ns.map (rebuild builder) := by
  induction ns with
  | nil => rfl
  | cons n ns ih => rw [rebuildAll, ih, List.map_cons]

end Node

/-- The lowering through the builder ends as the plain one, with the result rebuilt. -/
def Rebuilds (builder : Builder) (lowering plain : Expr → Logged Request Node) : Prop :=
  ∀ e, (lowering e).outcome = (plain e).outcome.map (Node.rebuild builder)

theorem Course.rebuild_node_request (builder : Builder) (k : Course) (operands : List Node) :
    (k.request operands).node.rebuild builder =
      builder (k.request (operands.map (Node.rebuild builder))) := by
  obtain ⟨stages, op, type⟩ := k
  rw [← Node.rebuildAll_eq_map]
  cases type with
  | none => rfl
  | some t => rfl

theorem Request.rebuild_node_ofLiteral (builder : Builder) (value : Literal Symbol) :
    (Request.ofLiteral value).node.rebuild builder = builder (.ofLiteral value) := by
  cases value <;> rfl

namespace Rebuilds
variable {builder : Builder} {lowering plain : Expr → Logged Request Node}

/-- A stage brings the same operands, each rebuilt. -/
theorem stage (h : Rebuilds builder lowering plain) (s : Stage) :
    (s.recipe.perform lowering builder).outcome =
      (s.recipe.perform plain Request.node).outcome.map (List.map (Node.rebuild builder)) := by
  cases s with
  | check c =>
    cases hc : c.passes with
    | true =>
      rw [Stage.perform_check_passed hc, Stage.perform_check_passed hc]
      rfl
    | false =>
      rw [Stage.perform_check_failed hc, Stage.perform_check_failed hc]
      rfl
  | operand e =>
    have he : (lowering e).outcome = (plain e).outcome.map (Node.rebuild builder) := h e
    rw [Stage.perform_operand, Stage.perform_operand, Logged.outcome_bind, Logged.outcome_bind, he]
    cases (plain e).outcome with
    | ok n => rfl
    | error error => rfl
  | flag f => rfl

theorem stages (h : Rebuilds builder lowering plain) (ss : List Stage) :
    ((Stage.recipes ss).perform lowering builder).outcome =
      ((Stage.recipes ss).perform plain Request.node).outcome.map
        (List.map (Node.rebuild builder)) := by
  induction ss with
  | nil => rfl
  | cons s ss ih =>
    simp only [Stage.perform_recipes_cons, Logged.outcome_bind, h.stage s, ih]
    -- Both runs stop at the same stage, or bring their operands together.
    cases (s.recipe.perform plain Request.node).outcome with
    | error error => rfl
    | ok ns =>
      cases ((Stage.recipes ss).perform plain Request.node).outcome with
      | error error => rfl
      | ok ms =>
        have happend : (ns ++ ms).map (Node.rebuild builder) =
            ns.map (Node.rebuild builder) ++ ms.map (Node.rebuild builder) := List.map_append
        exact congrArg Except.ok happend.symm

theorem course (h : Rebuilds builder lowering plain) (k : Course) :
    (k.recipe.perform lowering builder).outcome =
      (k.recipe.perform plain Request.node).outcome.map (Node.rebuild builder) := by
  rw [Course.perform_recipe, Course.perform_recipe, Logged.outcome_bind, Logged.outcome_bind,
    h.stages k.stages]
  cases ((Stage.recipes k.stages).perform plain Request.node).outcome with
  | error error => rfl
  | ok operands => exact congrArg Except.ok (k.rebuild_node_request builder operands).symm

theorem handler (h : Rebuilds builder lowering plain) (handler : Handler) (call : Call) :
    ((handler.recipe call).perform lowering builder).outcome =
      ((handler.recipe call).perform plain Request.node).outcome.map (Node.rebuild builder) := by
  rcases handler.recipe_cases call with ⟨k, hcourse⟩ | ⟨error, hfail⟩ | ⟨e, hcall⟩
  · rw [hcourse]
    exact h.course k
  · rw [hfail]
    rfl
  · -- The result is that of the argument, so nothing is requested on top of it.
    rw [hcall, Recipe.perform_lowered, Recipe.perform_lowered]
    exact h e

end Rebuilds

namespace Planner

theorem rebuilds_lowerWithin (rules : List TableRule) (builder : Builder) (limit levels : Nat) :
    Rebuilds builder ((ofTablesWith rules builder limit).lowerWithin levels)
      ((ofTables rules limit).lowerWithin levels) := by
  induction levels with
  | zero =>
    intro e
    rfl
  | succ levels ih =>
    intro e
    cases e with
    | field name index => rfl
    | literal value =>
      exact congrArg Except.ok (Request.rebuild_node_ofLiteral builder value).symm
    | type t => rfl
    | call f args =>
      cases hf : claimant? rules f with
      | none =>
        have hplain : (ofTables rules limit).lowerWithin (levels + 1) (.call f args) = _ :=
          lowerWithin_unclaimed Request.node limit levels hf args
        rw [lowerWithin_unclaimed builder limit levels hf, hplain]
        rfl
      | some handler =>
        have hplain : (ofTables rules limit).lowerWithin (levels + 1) (.call f args) = _ :=
          lowerWithin_claimed Request.node limit levels hf args
        rw [lowerWithin_claimed builder limit levels hf, hplain]
        exact ih.handler handler ⟨f, args⟩

/-- Lowering through a builder succeeds exactly where plain lowering does, with the plain result
rebuilt, and fails exactly where plain lowering does, with its error. A builder may answer different
requests alike, so the rebuilt result does not tell what the plain one was. -/
theorem convert_eq_rebuild (rules : List TableRule) (builder : Builder) (limit : Nat) (e : Expr) :
    (∀ m, (ofTablesWith rules builder limit).convert e = .ok m ↔
      ∃ n, (ofTables rules limit).convert e = .ok n ∧ n.rebuild builder = m) ∧
    ∀ error, (ofTablesWith rules builder limit).convert e = .error error ↔
      (ofTables rules limit).convert e = .error error := by
  have houtcome : (ofTablesWith rules builder limit).convert e =
      ((ofTables rules limit).convert e).map (Node.rebuild builder) :=
    rebuilds_lowerWithin rules builder limit (limit + 1) e
  rw [houtcome]
  cases (ofTables rules limit).convert e with
  | ok n => simp [Except.map]
  | error error => simp [Except.map]

/-- A builder that cancels double negation answers the outer request with an operand of the inner
one. -/
example :
    let builder : Builder := fun
      | .call .not [.call .not [n] none] => n
      | r => r.node
    (ofTablesWith TableRule.standard builder 3).convert
        (.call .not [.call .not [.field "a" 0]]) = .ok (.inputRef 0) ∧
      (Node.call .not [.call .not [.inputRef 0] none] none).rebuild builder = .inputRef 0 :=
  ⟨rfl, rfl⟩

end Planner
end RowPlan
