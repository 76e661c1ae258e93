import RowPlan.Proofs.Dispatch

/-! Appended rules. A rule at the end gets only the calls that all rules in front decline, and no
rule can go on after a call without a rule. So a run with the appended rule is the run without it,
or continues it from where a call had no rule. This holds for any rules whatever, those of tables
among them, and the rules in use by default leave an appended rule no call at all. -/
namespace RowPlan

/-- The error of a call that every rule declines. -/
def LowerError.IsUnsupported (error : LowerError) : Prop := ∃ f, error = .unsupportedFunction f

/-- On one call, where the appended rule may also have a part in the lowering of arguments. -/
theorem upTo_select_append {lowering lowering' : Expr → Logged Request Node}
    (h : ∀ e, Logged.UpTo LowerError.IsUnsupported (lowering e) (lowering' e)) (builder : Builder)
    (rules : List Rule) (rule : Rule) (call : Call) :
    Logged.UpTo LowerError.IsUnsupported
      ((select rules call).perform lowering builder)
      ((select (rules ++ [rule]) call).perform lowering' builder) := by
  induction rules with
  | nil =>
    -- Without a rule nothing is requested before the error.
    exact Or.inr ⟨⟨_, ⟨call.function, rfl⟩, rfl⟩, List.nil_prefix⟩
  | cons first rules ih =>
    have hfirst : Logged.UpTo LowerError.IsUnsupported
        ((first call).perform lowering builder) ((first call).perform lowering' builder) :=
      Recipe.upTo_perform lowering builder h (first call)
    rw [List.cons_append, select, select, Recipe.perform_bind, Recipe.perform_bind]
    apply Logged.upTo_bind hfirst
    intro answer
    cases answer with
    | some n => exact Logged.upTo_refl _ _
    | none => exact ih

theorem exists_claimant_standard (f : BuiltIn) :
    ∃ h, claimant? TableRule.standard f = some h := by
  cases f <;> exact ⟨_, rfl⟩

namespace Planner

theorem upTo_withRule (p : Planner) (rule : Rule) (levels : Nat) (e : Expr) :
    Logged.UpTo LowerError.IsUnsupported (p.lowerWithin levels e)
      ((p.withRule rule).lowerWithin levels e) := by
  induction levels generalizing e with
  | zero => exact Logged.upTo_refl _ _
  | succ levels ih =>
    cases e with
    | field name index => exact Logged.upTo_refl _ _
    | literal value => exact Logged.upTo_refl _ _
    | type t => exact Logged.upTo_refl _ _
    | call f args =>
      rw [lowerWithin_call, lowerWithin_call]
      exact upTo_select_append ih p.builder p.rules rule ⟨f, args⟩

theorem foldl_withRule (p : Planner) (extra : List Rule) :
    extra.foldl withRule p = { p with rules := p.rules ++ extra } := by
  induction extra generalizing p with
  | nil => rw [List.foldl_nil, List.append_nil]
  | cons rule extra ih =>
    rw [List.foldl_cons, ih, withRule, List.append_assoc]
    rfl

/-- Rules behind the standard ones are never asked. -/
theorem indistinguishable_standard (extra : List Rule) (builder : Builder) (limit : Nat) :
    let p : Planner := { standard limit with builder }
    (extra.foldl withRule p).Indistinguishable p := by
  intro p
  have hselect (call : Call) : select (TableRule.standard.map TableRule.toRule ++ extra) call =
      select (TableRule.standard.map TableRule.toRule) call := by
    obtain ⟨h, hclaims⟩ := exists_claimant_standard call.function
    rw [select_append_tables, select_tables, hclaims]
  rw [foldl_withRule]
  exact indistinguishable_of_select_eq hselect builder limit

/-- An appended rule changes nothing but runs that end at a call without a rule, and those it only
continues. With the standard rules there are none, however many rules are appended. -/
theorem withRule_conservative (p : Planner) (rule : Rule) :
    (∀ e, (∀ f, p.convert e ≠ .error (.unsupportedFunction f)) →
      (p.withRule rule).convert e = p.convert e ∧
        ((p.withRule rule).lower e).log = (p.lower e).log) ∧
    (∀ e f, p.convert e = .error (.unsupportedFunction f) →
      (p.lower e).log <+: ((p.withRule rule).lower e).log) ∧
    ∀ (extra : List Rule) (builder : Builder) (limit : Nat),
      let q : Planner := { standard limit with builder }
      (extra.foldl withRule q).Indistinguishable q := by
  have hruns (e : Expr) :
      Logged.UpTo LowerError.IsUnsupported (p.lower e) ((p.withRule rule).lower e) :=
    upTo_withRule p rule (p.limit + 1) e
  refine ⟨?_, ?_, indistinguishable_standard⟩
  · intro e he
    rcases hruns e with hrun | ⟨⟨error, ⟨f, rfl⟩, herror⟩, -⟩
    · exact ⟨congrArg Logged.outcome hrun.symm, congrArg Logged.log hrun.symm⟩
    · exact absurd herror (he f)
  · intro e f he
    rcases hruns e with hrun | ⟨-, hlog⟩
    · have hlog : (p.lower e).log = ((p.withRule rule).lower e).log := congrArg Logged.log hrun
      exact hlog ▸ List.prefix_rfl
    · exact hlog

/-- The appended rule would claim `UPPER` as well, but is not asked. In the second expression a call
of `NOT` has no rule without it, and by then one argument has been lowered. -/
theorem withRule_conservative_direct :
    let p := ofTables [.identity .upper, .customized .standard] 3
    let rule := TableRule.direct.toRule
    let e : Expr := .call .jsonExists [.call .upper [.field "a" 0], .literal (.string "$")]
    let e' : Expr := .call .jsonExists [.call .upper [.field "a" 0], .call .not [.field "b" 1]]
    (∀ f, p.convert e ≠ .error (.unsupportedFunction f)) ∧
      ((p.withRule rule).convert e = p.convert e ∧
        ((p.withRule rule).lower e).log = (p.lower e).log) ∧
      p.convert e' = .error (.unsupportedFunction .not) ∧
      (p.lower e').log = [.inputRef 0] ∧
      (p.lower e').log <+: ((p.withRule rule).lower e').log ∧
      (p.withRule rule).convert e' =
        .ok (.call .jsonExists [.inputRef 0, .call .not [.inputRef 1] none] none) := by
  intro p rule e e'
  have he : p.convert e = .ok (.call .jsonExists [.inputRef 0, .literal (.string "$")] none) := rfl
  have hsupported : ∀ f, p.convert e ≠ .error (.unsupportedFunction f) := by
    intro f
    rw [he]
    exact nofun
  have he' : p.convert e' = .error (.unsupportedFunction .not) := rfl
  obtain ⟨hsame, hprefix, -⟩ := withRule_conservative p rule
  exact ⟨hsupported, hsame e hsupported, he', rfl, hprefix e' .not he', rfl⟩

end Planner
end RowPlan
