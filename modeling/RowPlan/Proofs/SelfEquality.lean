import RowPlan.Proofs.SameValues
import RowPlan.Proofs.StageRuns

/-! Row expressions that equal themselves. The only values that do not are the NaNs, and lowering
brings one into a row expression only from a literal that it has come to. What stands in a
configuration argument or in a default value that is not used plays no part. -/
namespace RowPlan

/-- Where rules of tables are asked, the claiming handler is all that runs. -/
theorem offer_tables (c : Context) (rules : List TableRule) (call : Call) :
    offer c call (rules.map TableRule.toRule) =
      match claimant? rules call.function with
      | some h => (h.recipe call).run c 0
      | none => .fail (.unsupportedFunction call.function) := by
  induction rules with
  | nil => rfl
  | cons rule rules ih =>
    rw [List.map_cons, offer, TableRule.run_toRule, claimant?, List.findSome?_cons]
    cases rule.handler? call.function with
    | none => exact ih
    | some h =>
      -- A handler that has run leaves nothing to the rules behind, so its run is all.
      change (((h.recipe call).run c 0).bind _).bind _ = _
      rw [Logged.bind_assoc]
      exact Logged.bind_pure _

theorem Node.sameValue_call_self_iff {op : Operator} {ns : List Node} {type : Option SqlType} :
    SameValue (call op ns type) (call op ns type) ↔ ∀ n ∈ ns, n.SameValue n := by
  rw [sameValue_call_iff, List.forall₂_same]

section
variable {lowering : Expr → Logged Request Node} {count : Nat} {ss : List Stage} {ns : List Node}

/-- Flags equal themselves, so the other operands decide. -/
theorem Stage.Brings.sameValue_iff
    (h : Stage.Brings ⟨fun _ e => lowering e, Request.node⟩ count ss ns) :
    (∀ n ∈ ns, n.SameValue n) ↔
      ∀ e ∈ Stage.lowered ss, ∀ n, (lowering e).outcome = .ok n → n.SameValue n := by
  generalize hc : (⟨fun _ e => lowering e, Request.node⟩ : Context) = c at h
  induction h with
  | nil => exact iff_of_true nofun nofun
  | check hk hss ih => exact ih
  | @operand count e n ss ns he hss ih =>
    subst hc
    have hfirst : n.SameValue n ↔ ∀ m, (lowering e).outcome = .ok m → m.SameValue m := by
      have he : (lowering e).outcome = .ok n := he
      rw [he]
      constructor
      · rintro hn m ⟨⟩
        exact hn
      · intro hall
        exact hall n rfl
    rw [lowered_cons_operand, List.forall_mem_cons, List.forall_mem_cons, ih, hfirst]
  | @flag count f ss ns hss ih =>
    subst hc
    rw [List.forall_mem_cons]
    exact (and_iff_right (Node.sameValue_flag f)).trans ih

/-- What is left to do behind the stages hands nothing over. -/
theorem Handler.handedOver_finish {c : Context} (h : Handler) (call : Call) (ns : List Node)
    (count : Nat) :
    ((h.finish call ns).run c count).handedOver = [] := by
  cases h with
  | operator op arity => rfl
  | conversion k => rfl
  | identity => cases ns <;> rfl

/-- A call equals itself if its operands do. -/
theorem Handler.sameValue_iff {c : Context} (hbuilder : c.builder = Request.node) (h : Handler)
    (call : Call) (hns : Stage.Brings c 0 (h.stages call) ns) {n : Node}
    (hn : ((h.finish call ns).run c count).outcome = .ok n) :
    n.SameValue n ↔ ∀ m ∈ ns, m.SameValue m := by
  have hcourse (k : Course) (hk : c.builder (k.request ns) = n) :
      n.SameValue n ↔ ∀ m ∈ ns, m.SameValue m := by
    rw [← hk, hbuilder, Course.request]
    cases k.type with
    | none => exact Node.sameValue_call_self_iff
    | some t => exact Node.sameValue_call_self_iff
  cases h with
  | operator op arity => exact hcourse _ (Except.ok.inj hn)
  | conversion k => exact hcourse _ (Except.ok.inj hn)
  | identity =>
    -- There is one argument, and its row expression is the result.
    obtain ⟨f, args⟩ := call
    rcases hns with _ | ⟨hk, hss⟩
    have hlength : args.length = 1 := by simpa [Check.countOf, Arity.accepts] using hk
    obtain ⟨e, rfl⟩ := List.length_eq_one_iff.mp hlength
    rcases hss with _ | _ | ⟨he, hss⟩
    cases hss
    cases hn
    rw [List.forall_mem_singleton]

end

namespace Planner
variable {rules : List TableRule} {limit depth : Nat}

/-- What the walk comes to behind a call is behind what is handed back for it. -/
theorem reaches_call_literal_iff {p : Planner} (hd : depth ≤ p.limit) {f : BuiltIn}
    {args : List Expr} {depth' : Nat} {v : Literal Symbol} :
    p.Reaches depth (.call f args) depth' (.literal v) ↔
      ∃ e ∈ p.handedBack depth ⟨f, args⟩, p.Reaches (depth + 1) e depth' (.literal v) := by
  constructor
  · rintro (_ | ⟨-, he, h⟩)
    exact ⟨_, he, h⟩
  · rintro ⟨e, he, h⟩
    exact .call hd he h

/-- The row expression of a call equals itself if those of all that is handed back for it do. -/
theorem sameValue_call_iff (hd : depth ≤ limit) {f : BuiltIn} {args : List Expr} {n : Node}
    (hn : ((ofTables rules limit).lowerAt depth (.call f args)).outcome = .ok n) :
    n.SameValue n ↔ ∀ e ∈ (ofTables rules limit).handedBack depth ⟨f, args⟩, ∀ m,
      ((ofTables rules limit).lowerAt (depth + 1) e).outcome = .ok m → m.SameValue m := by
  rw [lowerAt_call_eq_offer _ hd] at hn
  rw [handedBack]
  change (offer ((ofTables rules limit).context depth) ⟨f, args⟩
    (rules.map TableRule.toRule)).outcome = .ok n at hn
  change _ ↔ ∀ e ∈ (offer ((ofTables rules limit).context depth) ⟨f, args⟩
    (rules.map TableRule.toRule)).handedOver, _
  rw [offer_tables] at hn ⊢
  cases hf : claimant? rules f with
  | none =>
    simp only [hf] at hn
    cases hn
  | some h =>
    simp only [hf] at hn ⊢
    rw [Handler.recipe_eq_stages, Recipe.run_bind] at hn ⊢
    rcases Stage.brings_or_failsIn ((ofTables rules limit).context depth) 0 (h.stages ⟨f, args⟩)
      with ⟨ns, hns⟩ | ⟨before, s, after, ns, error, hsplit, hbefore, hs⟩
    · rw [Stage.run_recipes_of_brings hns] at hn ⊢
      rw [Logged.bind_of_ok rfl] at hn
      rw [Logged.handedOver_bind_of_ok rfl, Handler.handedOver_finish, List.append_nil,
        Stage.handedOver_steps, h.sameValue_iff rfl ⟨f, args⟩ hns hn]
      exact hns.sameValue_iff
    · rw [hsplit, Stage.run_recipes_of_failsIn hbefore hs, Logged.bind_of_error rfl] at hn
      cases hn

/-- A row expression equals itself exactly if the walk has come to no literal that is a NaN. -/
theorem sameValue_self_iff_reaches {e : Expr} {n : Node}
    (hn : ((ofTables rules limit).lowerAt depth e).outcome = .ok n) :
    n.SameValue n ↔ ∀ depth' d,
      (ofTables rules limit).Reaches depth e depth' (.literal (.double d)) → d.isNaN = false := by
  -- By induction on the levels that are left, as for any walk.
  induction hlevels : limit + 1 - depth generalizing depth e n with
  | zero =>
    have hd : depth ≤ limit := depth_le_of_outcome_eq_ok hn
    omega
  | succ levels ih =>
    have hd : depth ≤ limit := by omega
    cases e with
    | field name index =>
      rw [lowerAt_field _ hd] at hn
      cases hn
      exact iff_of_true (beq_self_eq_true index) nofun
    | literal v =>
      rw [lowerAt_literal _ hd] at hn
      cases hn
      refine (Node.sameValue_ofLiteral_iff v).trans (v.sameValue_self_iff.trans ?_)
      constructor
      · rintro h _ d ⟨⟩
        exact h d rfl
      · rintro h d rfl
        exact h depth d (.refl depth _)
    | type t =>
      rw [lowerAt_type _ hd] at hn
      cases hn
    | call f args =>
      rw [sameValue_call_iff hd hn]
      constructor
      · intro h depth' d hreached
        obtain ⟨e, he, hreached⟩ := (reaches_call_literal_iff hd).mp hreached
        obtain ⟨m, hm⟩ := (Reaches.call hd he (.refl _ e)).exists_ok hn
        exact (ih hm (by omega)).mp (h e he m hm) depth' d hreached
      · intro h e he m hm
        refine (ih hm (by omega)).mpr fun depth' d hreached => ?_
        exact h depth' d ((reaches_call_literal_iff hd).mpr ⟨e, he, hreached⟩)

/-- Equality as values is respected by lowering, whatever the rules of tables and the limit: equal
expressions have equal row expressions, or fail with the same error. A row expression equals itself
exactly if no NaN stands in its expression where lowering comes to it. -/
theorem convert_respects_sameValue (rules : List TableRule) (limit : Nat) :
    let p := ofTables rules limit
    (∀ e e' : Expr, e.sameValue e' = true →
      (∃ n n', p.convert e = .ok n ∧ p.convert e' = .ok n' ∧ n.sameValue n' = true) ∨
        ∃ error, p.convert e = .error error ∧ p.convert e' = .error error) ∧
    ∀ e n, p.convert e = .ok n →
      (n.sameValue n = true ↔
        ∀ depth d, p.Reaches 0 e depth (.literal (.double d)) → d.isNaN = false) := by
  intro p
  constructor
  · intro e e' h
    have halike : EndAlike Node.SameValue (p.convert e) (p.convert e') :=
      respects_lowerWithin rules limit (limit + 1) e e' h
    generalize p.convert e = x at halike ⊢
    generalize p.convert e' = y at halike ⊢
    cases halike with
    | ok hn => exact Or.inl ⟨_, _, rfl, rfl, hn⟩
    | error error => exact Or.inr ⟨error, rfl, rfl⟩
  · intro e n hn
    exact sameValue_self_iff_reaches hn

/-- Zeros of different signs, one of them where a rule passes its argument on, and a NaN as a default
value: the walk does not come to it if the behavior is another, and else the row expression differs
from itself. -/
theorem convert_respects_sameValue_zeros_and_nan :
    let p := ofTables [.identity .upper, .direct, .customized .standard] 2
    let zero : Expr := .literal (.double ⟨0⟩)
    let negative : Expr := .literal (.double ⟨0x8000000000000000⟩)
    let value (b : Symbol.ValueFallback) : Expr := .call .jsonValue [.field "a" 0,
      .literal (.string "$"), .type .double, .literal (.symbol (.valueFallback b)),
      .literal (.double ⟨0x7FF8000000000000⟩), .literal (.symbol (.valueFallback .error)), zero]
    let operands : List Node := [.inputRef 0, .literal (.string "$"),
      .literal (.symbol (.valueFallback .null)), .literal (.symbol (.clause .empty)),
      .literal (.symbol (.valueFallback .error)), .literal (.symbol (.clause .error))]
    (∃ n n', p.convert (.call .plus [zero, .call .upper [negative]]) = .ok n ∧
      p.convert (.call .plus [negative, .call .upper [zero]]) = .ok n' ∧
        n.sameValue n' = true) ∧
    (value .null).sameValue (value .null) = false ∧
    p.convert (value .null) = .ok (.call .jsonValue operands (some .double)) ∧
    (∀ depth d, p.Reaches 0 (value .null) depth (.literal (.double d)) → d.isNaN = false) ∧
    ¬ ∀ depth d, p.Reaches 0 (value .default) depth (.literal (.double d)) → d.isNaN = false := by
  intro p zero negative value operands
  obtain ⟨hequal, hself⟩ :=
    convert_respects_sameValue [.identity .upper, .direct, .customized .standard] 2
  have hnull : p.convert (value .null) = .ok (.call .jsonValue operands (some .double)) := rfl
  have hdefault : p.convert (value .default) = .ok (.call .jsonValue [.inputRef 0,
      .literal (.string "$"), .literal (.symbol (.valueFallback .default)),
      .literal (.double ⟨0x7FF8000000000000⟩), .literal (.symbol (.clause .empty)),
      .literal (.symbol (.valueFallback .error)), .literal (.symbol (.clause .error))]
      (some .double)) := rfl
  refine ⟨?_, by decide, hnull, (hself _ _ hnull).mp (by decide), ?_⟩
  · rcases hequal (.call .plus [zero, .call .upper [negative]])
      (.call .plus [negative, .call .upper [zero]]) (by decide) with h | ⟨error, h, -⟩
    · exact h
    · cases h
  · intro h
    exact absurd ((hself _ _ hdefault).mpr h) (by decide)

end Planner
end RowPlan
