import RowPlan.Lowering
import RowPlan.Proofs.Recipes

/-! Which recipe lowers a call. The rules of a planner amount to one recipe for every call, and
the rules of tables to the handler of the first table that holds the function. With this the walk
has one equation for each kind of expression. -/
namespace RowPlan

/-- The recipe that rules amount to: that of the first rule that does not decline. -/
def select : List Rule → Call → Recipe Node
  | [], call => .fail (.unsupportedFunction call.function)
  | rule :: rules, call =>
    (rule call).bind fun
      | some n => .done n
      | none => select rules call

theorem requests_offer (lowering : Expr → Logged Request Node) (builder : Builder) (call : Call)
    (rules : List Rule) :
    (offer ⟨fun _ e => lowering e, builder⟩ call rules).requests =
      (select rules call).perform lowering builder := by
  induction rules with
  | nil => rfl
  | cons rule rules ih =>
    -- The rule at hand starts counting anew, which the context does not notice.
    change (((rule call).run _ 0).bind _).requests = _
    rw [Logged.requests_bind, Recipe.requests_run, select, Recipe.perform_bind]
    congr 1
    funext answer
    cases answer with
    | some n => rfl
    | none => exact ih

/-- The handler of the first rule that claims a function. -/
def claimant? (rules : List TableRule) (f : BuiltIn) : Option Handler :=
  rules.findSome? fun rule => rule.handler? f

theorem select_ofTable_cons (table : BuiltIn → Option Handler) (rules : List Rule) (call : Call) :
    select (.ofTable table :: rules) call =
      match table call.function with
      | some h => h.recipe call
      | none => select rules call := by
  rw [select, Rule.ofTable]
  cases table call.function with
  | none => rfl
  | some h =>
    -- A claimed call never comes back to the rules behind.
    change ((h.recipe call).bind fun n => .done (some n)).bind _ = h.recipe call
    rw [Recipe.bind_assoc]
    exact Recipe.bind_done (h.recipe call)

theorem select_append_tables (tables : List TableRule) (rules : List Rule) (call : Call) :
    select (tables.map TableRule.toRule ++ rules) call =
      match claimant? tables call.function with
      | some h => h.recipe call
      | none => select rules call := by
  induction tables with
  | nil => rfl
  | cons table tables ih =>
    rw [List.map_cons, List.cons_append, TableRule.toRule, select_ofTable_cons, claimant?,
      List.findSome?_cons]
    cases table.handler? call.function with
    | none => exact ih
    | some h => rfl

theorem select_tables (rules : List TableRule) (call : Call) :
    select (rules.map TableRule.toRule) call =
      match claimant? rules call.function with
      | some h => h.recipe call
      | none => .fail (.unsupportedFunction call.function) := by
  rw [← List.append_nil (rules.map TableRule.toRule), select_append_tables]
  rfl

theorem claimant_standard_direct {f : BuiltIn} {op : Operator} {arity : Arity}
    (h : f.direct? = some (op, arity)) :
    claimant? TableRule.standard f = some (.operator op arity) := by
  simp only [claimant?, TableRule.standard, List.findSome?_cons, TableRule.handler?, h,
    Option.map_some]

theorem claimant_standard_jsonExists :
    claimant? TableRule.standard .jsonExists = some (.conversion .jsonExists) := rfl

theorem claimant_standard_jsonValue :
    claimant? TableRule.standard .jsonValue = some (.conversion .jsonValue) := rfl

theorem claimant_standard_jsonQuery :
    claimant? TableRule.standard .jsonQuery = some (.conversion .jsonQuery) := rfl

namespace Planner

/-- A planner with table rules and any builder. -/
abbrev ofTablesWith (rules : List TableRule) (builder : Builder) (limit : Nat) : Planner :=
  { ofTables rules limit with builder }

theorem lowerWithin_zero (p : Planner) (e : Expr) :
    p.lowerWithin 0 e = .fail (.depthExceeded p.limit) := by
  rw [lowerWithin]

theorem lowerWithin_call (p : Planner) (levels : Nat) (f : BuiltIn) (args : List Expr) :
    p.lowerWithin (levels + 1) (.call f args) =
      (select p.rules ⟨f, args⟩).perform (p.lowerWithin levels) p.builder :=
  requests_offer (p.lowerWithin levels) p.builder ⟨f, args⟩ p.rules

section
variable {rules : List TableRule} {f : BuiltIn} (builder : Builder) (limit levels : Nat)

theorem lowerWithin_claimed {h : Handler} (hf : claimant? rules f = some h) (args : List Expr) :
    (ofTablesWith rules builder limit).lowerWithin (levels + 1) (.call f args) =
      (h.recipe ⟨f, args⟩).perform ((ofTablesWith rules builder limit).lowerWithin levels)
        builder := by
  rw [lowerWithin_call]
  change (select (rules.map TableRule.toRule) ⟨f, args⟩).perform _ _ = _
  rw [select_tables, hf]

theorem lowerWithin_unclaimed (hf : claimant? rules f = none) (args : List Expr) :
    (ofTablesWith rules builder limit).lowerWithin (levels + 1) (.call f args) =
      .fail (.unsupportedFunction f) := by
  rw [lowerWithin_call]
  change (select (rules.map TableRule.toRule) ⟨f, args⟩).perform _ _ = _
  rw [select_tables, hf]
  rfl

end

/-- Rules that amount to the same recipe for every call lower every expression alike. -/
theorem lowerWithin_eq_of_select_eq {rules rules' : List Rule}
    (h : ∀ call, select rules call = select rules' call) (builder : Builder) (limit levels : Nat)
    (e : Expr) :
    lowerWithin ⟨rules, builder, limit⟩ levels e =
      lowerWithin ⟨rules', builder, limit⟩ levels e := by
  -- The rules come back at every expression that they hand over, hence for all of them at once.
  induction levels generalizing e with
  | zero => rfl
  | succ levels ih =>
    cases e with
    | field name index => rfl
    | literal value => rfl
    | type t => rfl
    | call f args =>
      have hbelow : lowerWithin ⟨rules, builder, limit⟩ levels =
          lowerWithin ⟨rules', builder, limit⟩ levels := funext ih
      rw [lowerWithin_call, lowerWithin_call, hbelow]
      exact congrArg (Recipe.perform _ builder) (h ⟨f, args⟩)

/-- On every expression both planners end alike, after the same requests. -/
def Indistinguishable (p q : Planner) : Prop :=
  ∀ e, p.convert e = q.convert e ∧ (p.lower e).log = (q.lower e).log

theorem indistinguishable_of_select_eq {rules rules' : List Rule}
    (h : ∀ call, select rules call = select rules' call) (builder : Builder) (limit : Nat) :
    Indistinguishable ⟨rules, builder, limit⟩ ⟨rules', builder, limit⟩ := by
  intro e
  have hlower : lower ⟨rules, builder, limit⟩ e = lower ⟨rules', builder, limit⟩ e :=
    lowerWithin_eq_of_select_eq h builder limit (limit + 1) e
  exact ⟨congrArg Logged.outcome hlower, congrArg Logged.log hlower⟩

theorem lowerAt_too_deep (p : Planner) {depth : Nat} (h : p.limit < depth) (e : Expr) :
    p.lowerAt depth e = .fail (.depthExceeded p.limit) := by
  have hlevels : p.limit + 1 - depth = 0 := by omega
  rw [lowerAt, hlevels, lowerWithin_zero]

theorem depth_le_of_outcome_eq_ok {p : Planner} {depth : Nat} {e : Expr} {n : Node}
    (h : (p.lowerAt depth e).outcome = .ok n) : depth ≤ p.limit := by
  apply Nat.le_of_not_lt
  intro hdeep
  rw [lowerAt_too_deep p hdeep] at h
  cases h

theorem levels_of_depth_le {limit depth : Nat} (h : depth ≤ limit) :
    limit + 1 - depth = (limit + 1 - (depth + 1)) + 1 := by
  omega

theorem lowerAt_field (p : Planner) {depth : Nat} (h : depth ≤ p.limit) (name : String)
    (index : UInt64) :
    p.lowerAt depth (.field name index) =
      ⟨[.inputRef index], .ok (p.builder (.inputRef index))⟩ := by
  rw [lowerAt, levels_of_depth_le h]
  rfl

theorem lowerAt_literal (p : Planner) {depth : Nat} (h : depth ≤ p.limit)
    (value : Literal Symbol) :
    p.lowerAt depth (.literal value) =
      ⟨[.ofLiteral value], .ok (p.builder (.ofLiteral value))⟩ := by
  rw [lowerAt, levels_of_depth_le h]
  rfl

theorem lowerAt_type (p : Planner) {depth : Nat} (h : depth ≤ p.limit) (t : SqlType) :
    p.lowerAt depth (.type t) = .fail (.unsupportedExpression "type literal") := by
  rw [lowerAt, levels_of_depth_le h]
  rfl

theorem lowerAt_call (p : Planner) {depth : Nat} (h : depth ≤ p.limit) (f : BuiltIn)
    (args : List Expr) :
    p.lowerAt depth (.call f args) =
      (select p.rules ⟨f, args⟩).perform (p.lowerAt (depth + 1)) p.builder := by
  rw [lowerAt, levels_of_depth_le h, lowerWithin_call]
  rfl

/-- The call of a function that a table rule claims is lowered by the claiming handler alone. -/
theorem lowerAt_claimed {rules : List TableRule} {limit depth : Nat} (hd : depth ≤ limit)
    {f : BuiltIn} {h : Handler} (hf : claimant? rules f = some h) (args : List Expr) :
    (ofTables rules limit).lowerAt depth (.call f args) =
      (h.recipe ⟨f, args⟩).perform ((ofTables rules limit).lowerAt (depth + 1)) Request.node := by
  have hlevels : (ofTables rules limit).limit + 1 - depth = (limit + 1 - (depth + 1)) + 1 :=
    levels_of_depth_le hd
  rw [lowerAt, hlevels]
  exact lowerWithin_claimed Request.node limit _ hf args

end Planner

end RowPlan
