import RowPlan.Proofs.Lowerable

/-! The depth limit is a threshold. Raising it changes nothing but depth errors, and with the
standard rules the height of the resulting row expression tells which limits are high enough. -/
namespace RowPlan

namespace Lowerable

theorem depth_le {limit depth : Nat} {e : Expr} (h : Lowerable limit depth e) :
    depth ≤ limit := h.passes.depth_le

/-- Every call has a lowered argument one level further down, so its flags are never deeper than
the deepest level. -/
theorem height_le {limit depth : Nat} {e : Expr} (h : Lowerable limit depth e) :
    depth + e.translation.height ≤ limit := by
  induction h with
  | field hd name index => exact hd
  | literal hd value => exact hd
  | call hd hconf hargs ih =>
    obtain ⟨op, operands, type, htranslation, hoperands, -⟩ := hconf.hasOperands
    obtain ⟨e, he⟩ := hconf.exists_lowered
    -- One lowered argument is enough for the operands that are flags.
    have hnext := (hargs e he).depth_le
    rw [htranslation, Node.add_height_call_le_iff]
    refine ⟨hnext, ?_⟩
    intro n hn
    rcases hoperands n hn with hflag | ⟨d, hd, rfl⟩
    · rw [Node.height_of_isFlag hflag]
      exact hnext
    · exact ih d hd

/-- What is lowerable somewhere is lowerable wherever its translation fits. -/
theorem relocate {limit depth : Nat} {e : Expr} (h : Lowerable limit depth e)
    {limit' depth' : Nat} (hheight : depth' + e.translation.height ≤ limit') :
    Lowerable limit' depth' e := by
  induction h generalizing depth' with
  | field hd name index => exact .field hheight name index
  | literal hd value => exact .literal hheight value
  | call hd hconf hargs ih =>
    obtain ⟨op, operands, type, htranslation, -, hoperands⟩ := hconf.hasOperands
    rw [htranslation, Node.add_height_call_le_iff] at hheight
    refine .call (by omega) hconf ?_
    intro e he
    exact ih e he (hheight.2 _ (hoperands e he))

end Lowerable

namespace Planner

/-- A run under a lower limit is the run under a higher one, unless the lower limit ended it. -/
theorem upTo_lowerWithin (rules : List Rule) (builder : Builder) (limit limit' : Nat)
    {levels levels' : Nat} (h : levels ≤ levels') (e : Expr) :
    Logged.UpTo (fun error => error = .depthExceeded limit)
      (lowerWithin ⟨rules, builder, limit⟩ levels e)
      (lowerWithin ⟨rules, builder, limit'⟩ levels' e) := by
  -- The induction is on the levels: a rule may hand back any expressions whatever.
  induction levels generalizing levels' e with
  | zero =>
    rw [lowerWithin_zero]
    exact Or.inr ⟨⟨_, rfl, rfl⟩, List.nil_prefix⟩
  | succ levels ih =>
    obtain ⟨more, rfl⟩ : ∃ more, levels' = more + 1 := ⟨levels' - 1, by omega⟩
    cases e with
    | field name index => exact Logged.upTo_refl _ _
    | literal value => exact Logged.upTo_refl _ _
    | type t => exact Logged.upTo_refl _ _
    | call f args =>
      rw [lowerWithin_call, lowerWithin_call]
      apply Recipe.upTo_perform
      intro e
      exact ih (by omega) e

theorem convert_eq_of_limit_le {limit limit' : Nat} (h : limit ≤ limit') (rules : List TableRule)
    {e : Expr} (he : (ofTables rules limit).convert e ≠ .error (.depthExceeded limit)) :
    (ofTables rules limit').convert e = (ofTables rules limit).convert e := by
  have hrun := upTo_lowerWithin (rules.map TableRule.toRule) Request.node limit limit'
    (show limit + 1 ≤ limit' + 1 by omega) e
  rcases hrun with hrun | ⟨⟨error, rfl, herror⟩, -⟩
  · exact congrArg Logged.outcome hrun.symm
  · exact absurd herror he

/-- The limit is a threshold: raised, it changes no result but a depth error, and lowered, it
brings a depth error exactly where the row expression is higher than the limit. -/
theorem depth_limit_threshold {limit limit' : Nat} (h : limit ≤ limit') (e : Expr) :
    (∀ rules : List TableRule,
      (ofTables rules limit).convert e ≠ .error (.depthExceeded limit) →
      (ofTables rules limit').convert e = (ofTables rules limit).convert e) ∧
    ∀ n, (standard limit').convert e = .ok n →
      (standard limit).convert e =
        if n.height ≤ limit then .ok n else .error (.depthExceeded limit) := by
  refine ⟨fun rules he => convert_eq_of_limit_le h rules he, ?_⟩
  intro n hn
  obtain ⟨hlowerable, rfl⟩ := (lowerAt_eq_ok_iff limit' 0 e n).mp hn
  split
  · case isTrue hheight =>
    -- The judgment moves to the lower limit because the translation fits there.
    apply (lowerAt_eq_ok_iff limit 0 e _).mpr
    exact ⟨hlowerable.relocate (by omega), rfl⟩
  · case isFalse hheight =>
    -- Any other result would be that of the higher limit, hence a success, hence low enough.
    apply Classical.byContradiction
    intro hne
    have hsame : (standard limit').convert e = (standard limit).convert e :=
      convert_eq_of_limit_le h TableRule.standard hne
    rw [hsame] at hn
    have hlow := ((lowerAt_eq_ok_iff limit 0 e _).mp hn).1.height_le
    omega

/-- A wrong number of arguments hides the deeper operand next to it; an unused default value does
not count, and the used one is too deep for a limit of 1. -/
theorem depth_limit_threshold_two_levels :
    1 ≤ 2 ∧
    (ofTables [.direct] 1).convert
        (.call .and [.call .not [], .call .not [.call .not [.field "a" 0]]]) ≠
      .error (.depthExceeded 1) ∧
    (ofTables [.direct] 2).convert
        (.call .and [.call .not [], .call .not [.call .not [.field "a" 0]]]) =
      .error (.arity .not (.exactly 1) 0) ∧
    (standard 2).convert
        (.call .jsonValue [.field "a" 0, .literal (.string "$"), .type .varchar,
          .literal (.symbol (.valueFallback .error)),
          .call .not [.call .not [.call .not [.field "b" 1]]],
          .literal (.symbol (.valueFallback .default)), .call .not [.field "b" 1]]) =
      .ok (.call .jsonValue [.inputRef 0, .literal (.string "$"),
        .literal (.symbol (.valueFallback .error)), .literal (.symbol (.clause .empty)),
        .literal (.symbol (.valueFallback .default)), .call .not [.inputRef 1] none,
        .literal (.symbol (.clause .error))] (some .varchar)) ∧
    (standard 1).convert
        (.call .jsonValue [.field "a" 0, .literal (.string "$"), .type .varchar,
          .literal (.symbol (.valueFallback .error)),
          .call .not [.call .not [.call .not [.field "b" 1]]],
          .literal (.symbol (.valueFallback .default)), .call .not [.field "b" 1]]) =
      .error (.depthExceeded 1) := by
  have hle : 1 ≤ 2 := by decide
  have hearly : (ofTables [.direct] 1).convert
      (.call .and [.call .not [], .call .not [.call .not [.field "a" 0]]]) =
      .error (.arity .not (.exactly 1) 0) := rfl
  have hne : (ofTables [.direct] 1).convert
      (.call .and [.call .not [], .call .not [.call .not [.field "a" 0]]]) ≠
      .error (.depthExceeded 1) := by
    rw [hearly]
    exact nofun
  refine ⟨hle, hne, ?_, rfl, ?_⟩
  · exact ((depth_limit_threshold hle _).1 [.direct] hne).trans hearly
  · exact ((depth_limit_threshold hle _).2 _ rfl).trans (if_neg (by decide))

end Planner

end RowPlan
