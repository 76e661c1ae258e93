import RowPlan.Proofs.ValueClauses

/-! Configuration arguments as operands. `JSON_EXISTS` and `JSON_QUERY` read them from typed slots,
and so does `JSON_VALUE` for its behaviors; the walk lowers the same literals to flags when they are
operands. Where the first way succeeds, the second gives the same row expression. -/
namespace RowPlan

/-- The same handler, but with one operator over all arguments in place of the conversions of
`JSON_EXISTS` and `JSON_QUERY`. -/
def Handler.oneToOne : Handler → Handler
  | conversion .jsonExists => .operator .jsonExists (.between 2 3)
  | conversion .jsonQuery => .operator .jsonQuery (.exactly 5)
  | h => h

/-- The rule that claims the same functions, with the handlers replaced. -/
def TableRule.oneToOne (r : TableRule) : Rule := .ofTable fun f => (r.handler? f).map .oneToOne

/-- The planner with the standard rules, in which two conversions are replaced. -/
def Planner.oneToOne (builder : Builder) (limit : ℕ) : Planner :=
  ⟨TableRule.standard.map TableRule.oneToOne, builder, limit⟩

theorem select_oneToOne (rules : List TableRule) (call : Call) :
    select (rules.map TableRule.oneToOne) call =
      match claimant? rules call.function with
      | some h => h.oneToOne.recipe call
      | none => .fail (.unsupportedFunction call.function) := by
  induction rules with
  | nil => rfl
  | cons rule rules ih =>
    rw [List.map_cons, TableRule.oneToOne, select_ofTable_cons, claimant?, List.findSome?_cons]
    cases rule.handler? call.function with
    | none => exact ih
    | some h => rfl

namespace Context

/-- Symbols that are lowered become the flags that stand for them, at least in a context that lowers
anything at all. -/
def FlagsSymbols (c : Context) : Prop :=
  ∀ count e n, (c.lower count e).outcome = .ok n →
    ∀ count s,
      (c.lower count (.literal (.symbol s))).outcome = .ok (c.builder (.flag (.ofSymbol s)))

section
variable {c : Context} {count : ℕ} {f : BuiltIn} {ns : List Node}

/-- What stages bring that read the symbols of configuration arguments and request their flags is
what lowering those arguments brings. -/
theorem FlagsSymbols.lowers_existsStages (hc : c.FlagsSymbols) {json path onError : Expr}
    (h : Stage.Brings c count (JsonConversion.jsonExists.stages f [json, path, onError]) ns) :
    c.Lowers count [json, path, onError] ns := by
  rcases h with _ | _ | ⟨hjson, _ | _ | ⟨hpath, _ | ⟨hslot, hflag⟩⟩⟩
  obtain ⟨b, hb⟩ := Option.isSome_iff_exists.mp hslot
  obtain rfl := Expr.existsFallback?_eq_some_iff.mp hb
  have hflag : Stage.Brings c (count + 2) ([.existsFallback (.ofSymbol b)].map .flag) _ := hflag
  rw [Stage.brings_flags_iff] at hflag
  subst hflag
  exact .cons hjson (.cons hpath (.cons (hc _ _ _ hjson _ _) .nil))

theorem FlagsSymbols.lowers_queryStages (hc : c.FlagsSymbols)
    {json path wrapping onEmpty onError : Expr}
    (h : Stage.Brings c count
      (JsonConversion.jsonQuery.stages f [json, path, wrapping, onEmpty, onError]) ns) :
    c.Lowers count [json, path, wrapping, onEmpty, onError] ns := by
  rcases h with _ | _ | ⟨hjson, _ | _ | ⟨hpath, hslots⟩⟩
  rcases hslots with _ | ⟨hwrapping, _ | ⟨hempty, _ | ⟨herror, hflags⟩⟩⟩
  obtain ⟨w, hw⟩ := Option.isSome_iff_exists.mp hwrapping
  obtain ⟨b, hb⟩ := Option.isSome_iff_exists.mp hempty
  obtain ⟨d, hd⟩ := Option.isSome_iff_exists.mp herror
  obtain rfl := Expr.wrapper?_eq_some_iff.mp hw
  obtain rfl := Expr.queryFallback?_eq_some_iff.mp hb
  obtain rfl := Expr.queryFallback?_eq_some_iff.mp hd
  have hflags : Stage.Brings c (count + 2) ([.wrapper (.ofSymbol w),
      .queryFallback (.ofSymbol b), .queryFallback (.ofSymbol d)].map .flag) _ := hflags
  rw [Stage.brings_flags_iff] at hflags
  subst hflags
  exact .cons hjson (.cons hpath (.cons (hc _ _ _ hjson _ _)
    (.cons (hc _ _ _ hjson _ _) (.cons (hc _ _ _ hjson _ _) .nil))))

end

end Context

section
variable {c : Context} {n : Node}

theorem outcome_run_operatorRecipe {op : Operator} {arity : Arity} {call : Call} {ns : List Node}
    (hcount : arity.accepts call.args.length = true) (h : c.Lowers 0 call.args ns) :
    ((Handler.operatorRecipe op arity call).run c 0).outcome = .ok (c.builder (.call op ns)) := by
  have hns : Stage.Brings c 0 (operatorCourse op arity call).stages ns :=
    .check hcount (Stage.brings_operands_iff.mpr h)
  rw [operatorRecipe_eq_course, Course.run_of_brings hns]
  rfl

/-- A handler that succeeds does so as well, with the same row expression, when all arguments are
lowered one to one. -/
theorem Handler.outcome_run_oneToOne (hc : c.FlagsSymbols) (h : Handler) {call : Call}
    (hn : ((h.recipe call).run c 0).outcome = .ok n) :
    ((h.oneToOne.recipe call).run c 0).outcome = .ok n := by
  obtain ⟨f, args⟩ := call
  cases h with
  | operator op arity => exact hn
  | identity => exact hn
  | conversion k =>
    have hcourse : ((k.course ⟨f, args⟩).recipe.run c 0).outcome = .ok n := by
      rw [← k.recipe_eq_course]
      exact hn
    obtain ⟨ns, hns, rfl⟩ := Course.exists_brings hcourse
    obtain _ | ⟨hcount, hns⟩ := hns
    -- With an accepted number of arguments, every slot has its argument.
    have hcount : k.arity.accepts args.length = true := hcount
    cases k with
    | jsonValue => exact hn
    | jsonExists =>
      apply outcome_run_operatorRecipe hcount
      rcases Arity.two_or_three_arguments hcount with ⟨json, path, rfl⟩ | ⟨json, path, onError, rfl⟩
      · exact Stage.brings_operands_iff.mp hns
      · exact hc.lowers_existsStages hns
    | jsonQuery =>
      apply outcome_run_operatorRecipe hcount
      obtain ⟨json, path, wrapping, onEmpty, onError, rfl⟩ := Arity.five_arguments hcount
      exact hc.lowers_queryStages hns

end

namespace Planner

section
variable {builder : Builder} {limit : ℕ}

theorem flagsSymbols_lowerWithin (p : Planner) (levels : ℕ) :
    Context.FlagsSymbols ⟨fun _ e => p.lowerWithin levels e, p.builder⟩ := by
  intro count e n he count' s
  cases levels with
  | zero =>
    -- No level is left for anything.
    change (p.lowerWithin 0 e).outcome = .ok n at he
    rw [lowerWithin_zero] at he
    cases he
  | succ levels => rfl

theorem outcome_lowerWithin_oneToOne {levels : ℕ} {e : Expr} {n : Node}
    (h : ((ofTablesWith TableRule.standard builder limit).lowerWithin levels e).outcome = .ok n) :
    ((oneToOne builder limit).lowerWithin levels e).outcome = .ok n := by
  -- The handler is exchanged above the arguments, whose own lowering the hypothesis covers.
  induction levels generalizing e n with
  | zero =>
    rw [lowerWithin_zero] at h
    cases h
  | succ levels ih =>
    cases e with
    | field name index => exact h
    | literal value => exact h
    | type t => exact h
    | call f args =>
      cases hf : claimant? TableRule.standard f with
      | none =>
        rw [lowerWithin_unclaimed builder limit levels hf] at h
        cases h
      | some handler =>
        rw [lowerWithin_claimed builder limit levels hf, ← Recipe.requests_run _ _ 0] at h
        have hsame := handler.outcome_run_oneToOne
          (flagsSymbols_lowerWithin (ofTablesWith TableRule.standard builder limit) levels) h
        have hselect : select (oneToOne builder limit).rules ⟨f, args⟩ =
            handler.oneToOne.recipe ⟨f, args⟩ := by
          change select (TableRule.standard.map TableRule.oneToOne) _ = _
          rw [select_oneToOne, hf]
        rw [lowerWithin_call, hselect]
        apply Recipe.outcome_perform_of_ok _ _ fun e n he => ih he
        rw [← Recipe.requests_run _ _ 0]
        exact hsame

end

/-- A call of `JSON_VALUE` found at a depth is lowered, and the flags of its two behaviors are the
nodes that the arguments holding them are lowered to as operands. -/
def FlagsAsOperands (p : Planner) (depth : ℕ) (args : List Expr) : Prop :=
  ∃ json path t onEmpty emptyDefault onError errorDefault j q emptyFlag v errorFlag w,
    args = Expr.valueArguments json path t onEmpty emptyDefault onError errorDefault ∧
    (p.lowerAt (depth + 1) (.literal (.symbol (.valueFallback onEmpty)))).outcome = .ok emptyFlag ∧
    (p.lowerAt (depth + 1) (.literal (.symbol (.valueFallback onError)))).outcome = .ok errorFlag ∧
    (p.lowerAt depth (.call .jsonValue args)).outcome = .ok (p.builder (.typedCall t .jsonValue
      ([j, q] ++ emptyFlag :: (onEmpty.ifDefault v ++ [p.builder (.flag (.clause .empty))]) ++
        errorFlag :: (onError.ifDefault w ++ [p.builder (.flag (.clause .error))]))))

section
variable {p : Planner} {depth : ℕ} {args : List Expr}

/-- Reading a behavior and lowering it make the same flag. The depth is no obstacle, since the first
argument stands at the same one. -/
theorem flagsAsOperands_of_outcome
    (hrules : select p.rules ⟨.jsonValue, args⟩ =
      JsonConversion.jsonValue.recipe ⟨.jsonValue, args⟩)
    {n : Node} (h : (p.lowerAt depth (.call .jsonValue args)).outcome = .ok n) :
    p.FlagsAsOperands depth args := by
  have hrun := h
  rw [lowerAt_call p (depth_le_of_outcome_eq_ok h), hrules, ← Recipe.requests_run _ _ 0] at hrun
  obtain ⟨json, path, t, b, emptyDefault, d, errorDefault, j, q, v, w, hargs, hlowers, rfl⟩ :=
    (JsonConversion.outcome_jsonValue_eq_ok_iff _ _ _).mp hrun
  obtain _ | ⟨hjson, -⟩ := hlowers
  have hdepth : depth + 1 ≤ p.limit := depth_le_of_outcome_eq_ok hjson
  refine ⟨json, path, t, b, emptyDefault, d, errorDefault, j, q, _, v, _, w, hargs, ?_, ?_, h⟩
  · rw [lowerAt_literal p hdepth]
    rfl
  · rw [lowerAt_literal p hdepth]
    rfl

end

/-- What becomes a row expression under the standard rules becomes the same one when `JSON_EXISTS`
and `JSON_QUERY` lower all their arguments one to one; and under both lists of rules every call of
`JSON_VALUE` that is reached takes for its behaviors the flags that those arguments would be lowered
to. -/
theorem oneToOne_of_convert_eq_ok (builder : Builder) (limit : ℕ) {e : Expr} {n : Node}
    (h : (ofTablesWith TableRule.standard builder limit).convert e = .ok n) :
    (oneToOne builder limit).convert e = .ok n ∧
      ∀ p, p = ofTablesWith TableRule.standard builder limit ∨ p = oneToOne builder limit →
        ∀ depth args, p.Reaches 0 e depth (.call .jsonValue args) →
          p.FlagsAsOperands depth args := by
  have hsame : (oneToOne builder limit).convert e = .ok n := outcome_lowerWithin_oneToOne h
  refine ⟨hsame, ?_⟩
  rintro p (rfl | rfl) depth args hreached
  · obtain ⟨m, hm⟩ := hreached.exists_ok h
    exact flagsAsOperands_of_outcome (select_tables TableRule.standard _) hm
  · obtain ⟨m, hm⟩ := hreached.exists_ok hsame
    exact flagsAsOperands_of_outcome (select_oneToOne TableRule.standard _) hm

/-- The slots of the query, lowered as operands, stand exactly at the limit. -/
theorem oneToOne_of_convert_eq_ok_nested :
    let query : Expr := .call .jsonQuery [.field "j" 0, .literal (.string "$"),
      .literal (.symbol (.wrapper .conditionalArray)), .literal (.symbol (.queryFallback .null)),
      .literal (.symbol (.queryFallback .error))]
    let args := Expr.valueArguments query (.literal (.string "$.a")) .varchar .null (.type .double)
      .default (.call .jsonExists [.field "j" 0, .literal (.string "$"),
        .literal (.symbol (.existsFallback .unknown))])
    let n : Node := .call .jsonValue [
      .call .jsonQuery [.inputRef 0, .literal (.string "$"),
        .literal (.symbol (.wrapper .withConditionalArray)),
        .literal (.symbol (.queryFallback .null)), .literal (.symbol (.queryFallback .error))] none,
      .literal (.string "$.a"), .literal (.symbol (.valueFallback .null)),
      .literal (.symbol (.clause .empty)), .literal (.symbol (.valueFallback .default)),
      .call .jsonExists [.inputRef 0, .literal (.string "$"),
        .literal (.symbol (.existsFallback .unknown))] none,
      .literal (.symbol (.clause .error))] (some .varchar)
    (ofTablesWith TableRule.standard Request.node 2).convert (.call .jsonValue args) = .ok n ∧
      (oneToOne Request.node 2).convert (.call .jsonValue args) = .ok n ∧
      (oneToOne Request.node 2).FlagsAsOperands 0 args := by
  intro query args n
  have h : (ofTablesWith TableRule.standard Request.node 2).convert (.call .jsonValue args) =
      .ok n := rfl
  obtain ⟨hsame, hflags⟩ := oneToOne_of_convert_eq_ok Request.node 2 h
  exact ⟨h, hsame, hflags _ (Or.inr rfl) 0 args (.refl 0 _)⟩

end Planner

end RowPlan
