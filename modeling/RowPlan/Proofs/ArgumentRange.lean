import RowPlan.Proofs.Confined
import RowPlan.Proofs.Termination

/-! No conversion reads an argument that is not there, whatever function it is registered for. The
number of arguments is checked before anything else, and where it is not one that the conversion
accepts, nothing happens but that the error says so. -/
namespace RowPlan

/-- Not the error of an argument read beyond the last one. -/
def LowerError.InRange (error : LowerError) : Prop := ∀ f i, error ≠ .argumentMissing f i

theorem LowerError.IsAbout.inRange {call : Call} {error : LowerError} (h : error.IsAbout call) :
    error.InRange := by
  cases h with
  | arity expected => exact nofun
  | slot behavior => exact nofun

/-- Reading an argument stays in range exactly if it is there. -/
theorem Call.within_arg_iff (call : Call) (position : ℕ) :
    (call.arg position).Within (fun _ => True) LowerError.InRange ↔
      position < call.args.length := by
  rw [arg, argument]
  cases h : call.args[position]? with
  | none =>
    have hlength : call.args.length ≤ position := List.getElem?_eq_none_iff.mp h
    refine iff_of_false ?_ (Nat.not_lt.mpr hlength)
    intro hrange
    exact hrange call.function position rfl
  | some e => exact iff_of_true trivial (List.getElem?_eq_some_iff.mp h).1

/-- The count is checked first, and its error is all that is left of the call. -/
theorem TableRule.customized_rejected {registry : Registry} {f : BuiltIn} {k : JsonConversion}
    (hf : registry.conversion? f = some k) {args : List Expr}
    (hcount : k.arity.accepts args.length = false) :
    (customized registry).toRule ⟨f, args⟩ = .fail (.arity f k.arity args.length) := by
  have hhandler : (customized registry).handler? f = some (.conversion k) := by
    rw [handler?, hf, Option.map_some]
  have hrecipe : (Handler.conversion k).recipe ⟨f, args⟩ = .fail (.arity f k.arity args.length) :=
    k.recipe_of_rejected ⟨f, args⟩ hcount
  simp only [toRule, Rule.ofTable, hhandler, hrecipe]
  rfl

/-- Rules that decline leave nothing but the steps that they have taken. -/
theorem offer_of_declined {c : Context} {call : Call} {before : List Rule}
    (h : ∀ r ∈ before, ((r call).run c 0).outcome = .ok none) (rules : List Rule) :
    offer c call (before ++ rules) =
      ⟨(before.flatMap fun r => ((r call).run c 0).log) ++ (offer c call rules).log,
        (offer c call rules).outcome⟩ := by
  induction before with
  | nil => rfl
  | cons r before ih =>
    obtain ⟨hr, hbefore⟩ := List.forall_mem_cons.mp h
    rw [List.cons_append, offer, Logged.bind_of_ok hr]
    simp only [ih hbefore, List.flatMap_cons, List.append_assoc]

namespace Planner

/-- An error of the walk is one that a rule raises, unless it is one of the walk's own. -/
theorem raises_of_lowerWithin {p : Planner} {raises : LowerError → Prop}
    (hdepth : raises (.depthExceeded p.limit))
    (hkind : ∀ kind, raises (.unsupportedExpression kind))
    (hfunction : ∀ f, raises (.unsupportedFunction f))
    (hrules : ∀ rule ∈ p.rules, ∀ call, (rule call).Within (fun _ => True) raises) {levels : ℕ}
    {e : Expr} {error : LowerError} (h : (p.lowerWithin levels e).outcome = .error error) :
    raises error := by
  induction levels generalizing e error with
  | zero =>
    rw [lowerWithin_zero] at h
    cases h
    exact hdepth
  | succ levels ih =>
    cases e with
    | field name index => cases h
    | literal value => cases h
    | type t =>
      cases h
      exact hkind _
    | call f args =>
      have hselect : (select p.rules ⟨f, args⟩).Within (fun _ => True) raises :=
        within_select (fun rule hrule => hrules rule hrule ⟨f, args⟩) (hfunction f)
      rw [lowerWithin_call] at h
      exact hselect.raises_of_perform (fun e _ error he => ih he) h

/-- Reading an argument that is not there is an error of its own. No table rule runs into it, whichever
conversions are registered for which functions, and whatever is answered. So no expression fails for
that, if no rule of another kind does. Where a conversion does not accept the number of arguments of
a call, its rule does nothing but fail with an error that tells the function, the arity and that
number. With rules in front that decline, their steps are all that is left of the call, and of the
whole expression nothing but the error. -/
theorem conversions_read_in_range (registry : Registry) (before after : List Rule)
    (builder : Builder) (limit : ℕ) :
    let rule := (TableRule.customized registry).toRule
    let p : Planner := ⟨before ++ rule :: after, builder, limit⟩
    (∀ call position, (Call.arg call position).Within (fun _ => True) LowerError.InRange ↔
      position < call.args.length) ∧
    (∀ (table : TableRule) (call : Call),
      (table.toRule call).Within (· ∈ call.args) LowerError.InRange) ∧
    ((∀ r ∈ before ++ after, ∀ call, (r call).Within (fun _ => True) LowerError.InRange) →
      ∀ e f i, p.convert e ≠ .error (.argumentMissing f i)) ∧
    ∀ f k args, registry.conversion? f = some k → k.arity.accepts args.length = false →
      rule ⟨f, args⟩ = .fail (.arity f k.arity args.length) ∧
      ∀ depth ≤ limit, (∀ r ∈ before, p.Declines r depth ⟨f, args⟩) →
        offer (p.context depth) ⟨f, args⟩ p.rules =
          ⟨before.flatMap fun r => ((r ⟨f, args⟩).run (p.context depth) 0).log,
            .error (.arity f k.arity args.length)⟩ ∧
        ∀ e, p.Reaches 0 e depth (.call f args) →
          p.convert e = .error (.arity f k.arity args.length) := by
  intro rule p
  have htable (table : TableRule) (call : Call) :
      (table.toRule call).Within (· ∈ call.args) LowerError.InRange :=
    (table.within call).mono (fun e he => he) fun error h => h.inRange
  refine ⟨Call.within_arg_iff, htable, ?_, ?_⟩
  · intro hothers e f i herror
    have hrules : ∀ r ∈ p.rules, ∀ call, (r call).Within (fun _ => True) LowerError.InRange := by
      intro r hr call
      rcases List.mem_append.mp hr with hr | hr
      · exact hothers r (List.mem_append_left _ hr) call
      · rcases List.mem_cons.mp hr with rfl | hr
        · exact (htable _ call).mono (fun e _ => trivial) fun error h => h
        · exact hothers r (List.mem_append_right _ hr) call
    have hrange : (LowerError.argumentMissing f i).InRange :=
      raises_of_lowerWithin nofun (fun kind => nofun) (fun f => nofun) hrules herror
    exact hrange f i rfl
  · intro f k args hf hcount
    have hfails : rule ⟨f, args⟩ = .fail (.arity f k.arity args.length) :=
      TableRule.customized_rejected hf hcount
    refine ⟨hfails, ?_⟩
    intro depth hd hbefore
    have hoffer : offer (p.context depth) ⟨f, args⟩ p.rules =
        ⟨before.flatMap fun r => ((r ⟨f, args⟩).run (p.context depth) 0).log,
          .error (.arity f k.arity args.length)⟩ := by
      change offer (p.context depth) ⟨f, args⟩ (before ++ rule :: after) = _
      rw [offer_of_declined hbefore, offer, hfails]
      exact congrArg (Logged.mk · _) (List.append_nil _)
    refine ⟨hoffer, ?_⟩
    intro e hreached
    apply hreached.outcome_eq_error
    rw [lowerAt_call_eq_offer p hd, hoffer]
    rfl

/-- The conversion with seven arguments is registered for a function of one, below another call and
behind a rule that declines. With the right number of arguments its last default value is there. -/
theorem conversions_read_in_range_upper :
    let registry : Registry := .ofList [(.upper, .jsonValue), (.jsonQuery, .jsonExists)]
    let before : List Rule := [(TableRule.identity .lower).toRule]
    let after : List Rule := [TableRule.direct.toRule]
    let p : Planner := ⟨before ++ (TableRule.customized registry).toRule :: after, Request.node, 1⟩
    let args : List Expr := [.field "a" 0]
    let value : Expr := .call .upper [.field "a" 0, .literal (.string "$"), .type .double,
      .literal (.symbol (.valueFallback .null)), .field "b" 1,
      .literal (.symbol (.valueFallback .default)), .field "c" 2]
    registry.conversion? .upper = some .jsonValue ∧
      JsonConversion.jsonValue.arity.accepts args.length = false ∧
      p.Reaches 0 (.call .not [.call .upper args]) 1 (.call .upper args) ∧
      offer (p.context 1) ⟨.upper, args⟩ p.rules = ⟨[], .error (.arity .upper (.exactly 7) 1)⟩ ∧
      p.convert (.call .not [.call .upper args]) = .error (.arity .upper (.exactly 7) 1) ∧
      (∀ r ∈ before ++ after, ∀ call, (r call).Within (fun _ => True) LowerError.InRange) ∧
      (∀ f i, p.convert value ≠ .error (.argumentMissing f i)) := by
  intro registry before after p args value
  obtain ⟨-, htable, hrange, hrejected⟩ :=
    conversions_read_in_range registry before after Request.node 1
  have hothers : ∀ r ∈ before ++ after, ∀ call,
      (r call).Within (fun _ => True) LowerError.InRange := by
    have hany (table : TableRule) (call : Call) :
        (table.toRule call).Within (fun _ => True) LowerError.InRange :=
      (htable table call).mono (fun e _ => trivial) fun error h => h
    exact List.forall_mem_cons.mpr ⟨hany _, List.forall_mem_singleton.mpr (hany _)⟩
  have hdeclines : ∀ r ∈ before, p.Declines r 1 ⟨.upper, args⟩ :=
    List.forall_mem_singleton.mpr rfl
  have hreached : p.Reaches 0 (.call .not [.call .upper args]) 1 (.call .upper args) :=
    .call (Nat.zero_le 1) List.mem_cons_self (.refl 1 _)
  obtain ⟨-, hfails⟩ := hrejected .upper .jsonValue args rfl rfl
  obtain ⟨hoffer, hconvert⟩ := hfails 1 (Nat.le_refl 1) hdeclines
  exact ⟨rfl, rfl, hreached, hoffer, hconvert _ hreached, hothers, hrange hothers value⟩

end Planner
end RowPlan
