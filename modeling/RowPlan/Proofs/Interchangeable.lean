import Mathlib.Data.List.Forall2
import RowPlan.Proofs.Conversions
import RowPlan.Proofs.Dispatch
import RowPlan.Proofs.Translation

/-! Expressions that differ only in what lowering does not look at: the names of fields, and default
values of `JSON_VALUE` that their behaviors do not use. Lowering them makes the same requests and
ends alike, also where it fails. -/
namespace RowPlan

/-- The argument at the position is a default value of a `JSON_VALUE` call, and the behavior in
front of it is another than `DEFAULT`. -/
def UnusedDefault (f : BuiltIn) (args : List Expr) (position : Nat) : Prop :=
  f = .jsonValue ∧ args.length = 7 ∧ (position = 4 ∨ position = 6) ∧
    ∃ b, b ≠ .default ∧ args[position - 1]? = some (.literal (.symbol (.valueFallback b)))

namespace Expr

/-- The arguments of a `JSON_VALUE` call with the given type and behaviors. -/
abbrev valueArguments (json path : Expr) (returning : SqlType) (onEmpty : Symbol.ValueFallback)
    (emptyDefault : Expr) (onError : Symbol.ValueFallback) (errorDefault : Expr) : List Expr :=
  [json, path, .type returning, .literal (.symbol (.valueFallback onEmpty)), emptyDefault,
    .literal (.symbol (.valueFallback onError)), errorDefault]

/-- The same tree up to the names of fields and up to unused default values, which may be any
expressions whatever. -/
inductive Interchangeable : Expr → Expr → Prop where
  | field (name name' : String) (index : UInt64) :
    Interchangeable (.field name index) (.field name' index)
  | literal (value : Literal Symbol) : Interchangeable (.literal value) (.literal value)
  | type (t : SqlType) : Interchangeable (.type t) (.type t)
  | call {f : BuiltIn} {args args' : List Expr} (hlength : args.length = args'.length)
    (hargs : ∀ i e e', args[i]? = some e → args'[i]? = some e' →
      ¬ (UnusedDefault f args i ∧ UnusedDefault f args' i) → Interchangeable e e') :
    Interchangeable (.call f args) (.call f args')

namespace Interchangeable

theorem symbol?_eq {e e' : Expr} (h : Interchangeable e e') : e.symbol? = e'.symbol? := by
  cases h <;> rfl

theorem sqlType?_eq {e e' : Expr} (h : Interchangeable e e') : e.sqlType? = e'.sqlType? := by
  cases h <;> rfl

theorem call_of_forall₂ (f : BuiltIn) {args args' : List Expr}
    (h : List.Forall₂ Interchangeable args args') :
    Interchangeable (.call f args) (.call f args') := by
  refine .call h.length_eq ?_
  intro i e e' he he' _
  obtain ⟨hi, rfl⟩ := List.getElem?_eq_some_iff.mp he
  obtain ⟨hi', rfl⟩ := List.getElem?_eq_some_iff.mp he'
  exact h.get hi hi'

/-- Calls of `JSON_VALUE` with the same type and behaviors. -/
theorem jsonValue
    {json json' path path' emptyDefault emptyDefault' errorDefault errorDefault' : Expr}
    (hjson : Interchangeable json json') (hpath : Interchangeable path path') (t : SqlType)
    (b c : Symbol.ValueFallback)
    (hempty : b = .default → Interchangeable emptyDefault emptyDefault')
    (herror : c = .default → Interchangeable errorDefault errorDefault') :
    Interchangeable (.call .jsonValue (valueArguments json path t b emptyDefault c errorDefault))
      (.call .jsonValue (valueArguments json' path' t b emptyDefault' c errorDefault')) := by
  refine .call rfl ?_
  intro i e e' he he' hunused
  match i, he, he' with
  | 0, rfl, rfl => exact hjson
  | 1, rfl, rfl => exact hpath
  | 2, rfl, rfl => exact .type t
  | 3, rfl, rfl => exact .literal _
  | 4, rfl, rfl =>
    apply hempty
    by_contra hb
    exact hunused ⟨⟨rfl, rfl, Or.inl rfl, b, hb, rfl⟩, ⟨rfl, rfl, Or.inl rfl, b, hb, rfl⟩⟩
  | 5, rfl, rfl => exact .literal _
  | 6, rfl, rfl =>
    apply herror
    by_contra hc
    exact hunused ⟨⟨rfl, rfl, Or.inr rfl, c, hc, rfl⟩, ⟨rfl, rfl, Or.inr rfl, c, hc, rfl⟩⟩

end Interchangeable
end Expr

/-- A default value of a call whose behavior is `DEFAULT` is not an unused one. -/
theorem not_unusedDefault {args : List Expr} {position : Nat} {behavior : Expr}
    (hbehavior : args[position - 1]? = some behavior)
    (hdefault : behavior.valueFallback? = some .default) (f : BuiltIn) :
    ¬ UnusedDefault f args position := by
  rintro ⟨-, -, -, b, hb, hslot⟩
  rw [hbehavior, Option.some.injEq] at hslot
  rw [hslot] at hdefault
  exact hb (Option.some.inj hdefault)

/-- Only two positions hold default values, and only in calls of `JSON_VALUE`. -/
theorem not_unusedDefault_of_position {position : Nat} (h4 : position ≠ 4) (h6 : position ≠ 6)
    (f : BuiltIn) (args : List Expr) : ¬ UnusedDefault f args position := by
  rintro ⟨-, -, h4' | h6', -⟩
  · exact h4 h4'
  · exact h6 h6'

namespace Recipe
variable {lowering : Expr → Logged Request Node} {builder : Builder}

theorem perform_lowerAll_congr {es es' : List Expr} (h : es.map lowering = es'.map lowering) :
    (lowerAll es).perform lowering builder = (lowerAll es').perform lowering builder := by
  induction es generalizing es' with
  | nil =>
    cases es' with
    | nil => rfl
    | cons e' es' => exact absurd h (List.cons_ne_nil _ _).symm
  | cons e es ih =>
    cases es' with
    | nil => exact absurd h (List.cons_ne_nil _ _)
    | cons e' es' =>
      obtain ⟨he, hes⟩ := List.cons.inj h
      simp only [lowerAll, bind_eq, perform_bind, perform_lowered, he, ih hes]

theorem perform_operatorRecipe_congr (op : Operator) (arity : Arity) (f : BuiltIn)
    {args args' : List Expr} (hlength : args.length = args'.length)
    (h : args.map lowering = args'.map lowering) :
    (Handler.operatorRecipe op arity ⟨f, args⟩).perform lowering builder =
      (Handler.operatorRecipe op arity ⟨f, args'⟩).perform lowering builder := by
  simp only [Handler.operatorRecipe, Call.checkArity, hlength, bind_eq, perform_bind,
    perform_lowerAll_congr h]

theorem perform_existsRecipe_two_congr (f : BuiltIn) {json json' path path' : Expr}
    (hjson : lowering json = lowering json') (hpath : lowering path = lowering path') :
    (JsonConversion.existsRecipe ⟨f, [json, path]⟩).perform lowering builder =
      (JsonConversion.existsRecipe ⟨f, [json', path']⟩).perform lowering builder := by
  simp only [JsonConversion.existsRecipe_two, bind_eq, perform_bind, perform_lowered, hjson, hpath]

theorem perform_existsRecipe_three_congr (f : BuiltIn)
    {json json' path path' onError onError' : Expr} (hjson : lowering json = lowering json')
    (hpath : lowering path = lowering path')
    (hslot : onError.existsFallback? = onError'.existsFallback?) :
    (JsonConversion.existsRecipe ⟨f, [json, path, onError]⟩).perform lowering builder =
      (JsonConversion.existsRecipe ⟨f, [json', path', onError']⟩).perform lowering builder := by
  simp only [JsonConversion.existsRecipe_three, bind_eq, perform_bind, perform_lowered, hjson,
    hpath, hslot]

theorem perform_queryRecipe_congr (f : BuiltIn)
    {json json' path path' wrapping wrapping' onEmpty onEmpty' onError onError' : Expr}
    (hjson : lowering json = lowering json') (hpath : lowering path = lowering path')
    (hwrapping : wrapping.wrapper? = wrapping'.wrapper?)
    (hempty : onEmpty.queryFallback? = onEmpty'.queryFallback?)
    (herror : onError.queryFallback? = onError'.queryFallback?) :
    (JsonConversion.queryRecipe ⟨f, [json, path, wrapping, onEmpty, onError]⟩).perform
        lowering builder =
      (JsonConversion.queryRecipe ⟨f, [json', path', wrapping', onEmpty', onError']⟩).perform
        lowering builder := by
  simp only [JsonConversion.queryRecipe_five, bind_eq, perform_bind, perform_lowered, hjson, hpath,
    hwrapping, hempty, herror]

/-- A clause does not look at its value unless the behavior is `DEFAULT`. -/
theorem perform_clause_congr (f : BuiltIn) (slot : String) (clause : Flag.Clause)
    {behavior behavior' value value' : Expr}
    (hbehavior : behavior.valueFallback? = behavior'.valueFallback?)
    (hvalue : behavior.valueFallback? = some .default → lowering value = lowering value') :
    (JsonConversion.clause f slot behavior value clause).perform lowering builder =
      (JsonConversion.clause f slot behavior' value' clause).perform lowering builder := by
  have hbehavior' := hbehavior.symm
  cases hb : behavior.valueFallback? with
  | none =>
    rw [hb] at hbehavior'
    rw [JsonConversion.clause, JsonConversion.clause, hb, hbehavior']
    rfl
  | some b =>
    rw [hb] at hbehavior'
    cases b with
    | null =>
      rw [JsonConversion.clause, JsonConversion.clause, hb, hbehavior']
      rfl
    | error =>
      rw [JsonConversion.clause, JsonConversion.clause, hb, hbehavior']
      rfl
    | default =>
      rw [JsonConversion.clause_default hb, JsonConversion.clause_default hbehavior']
      simp only [bind_eq, perform_bind, perform_lowered, hvalue hb]

theorem perform_valueRecipe_congr (f : BuiltIn)
    {json json' path path' returning returning' onEmpty onEmpty' emptyDefault emptyDefault'
      onError onError' errorDefault errorDefault' : Expr}
    (hjson : lowering json = lowering json') (hpath : lowering path = lowering path')
    (hreturning : returning.sqlType? = returning'.sqlType?)
    (honEmpty : onEmpty.valueFallback? = onEmpty'.valueFallback?)
    (hempty : onEmpty.valueFallback? = some .default →
      lowering emptyDefault = lowering emptyDefault')
    (honError : onError.valueFallback? = onError'.valueFallback?)
    (herror : onError.valueFallback? = some .default →
      lowering errorDefault = lowering errorDefault') :
    (JsonConversion.valueRecipe
        ⟨f, [json, path, returning, onEmpty, emptyDefault, onError, errorDefault]⟩).perform
        lowering builder =
      (JsonConversion.valueRecipe
        ⟨f, [json', path', returning', onEmpty', emptyDefault', onError', errorDefault']⟩).perform
        lowering builder := by
  simp only [JsonConversion.valueRecipe_seven, bind_eq, perform_bind, perform_lowered, hjson, hpath,
    hreturning, perform_clause_congr f _ _ honEmpty hempty,
    perform_clause_congr f _ _ honError herror]

end Recipe

/-- Arguments are lowered alike and interchangeable, unless they are unused default values. -/
def Agree (lowering : Expr → Logged Request Node) (f : BuiltIn) (args args' : List Expr) : Prop :=
  ∀ i e e', args[i]? = some e → args'[i]? = some e' →
    ¬ (UnusedDefault f args i ∧ UnusedDefault f args' i) →
      lowering e = lowering e' ∧ e.Interchangeable e'

section
variable {lowering : Expr → Logged Request Node} {builder : Builder} {f : BuiltIn}
  {args args' : List Expr}

theorem Agree.at_position (h : Agree lowering f args args') {i : Nat} (h4 : i ≠ 4) (h6 : i ≠ 6)
    {e e' : Expr} (he : args[i]? = some e) (he' : args'[i]? = some e') :
    lowering e = lowering e' ∧ e.Interchangeable e' :=
  h i e e' he he' fun hunused => not_unusedDefault_of_position h4 h6 f args hunused.1

theorem Agree.map_eq (h : Agree lowering f args args') (hf : f ≠ .jsonValue)
    (hlength : args.length = args'.length) : args.map lowering = args'.map lowering := by
  apply List.ext_getElem
  · rw [List.length_map, List.length_map, hlength]
  · intro i hi hi'
    rw [List.length_map] at hi hi'
    rw [List.getElem_map, List.getElem_map]
    refine (h i _ _ (List.getElem?_eq_getElem hi) (List.getElem?_eq_getElem hi') ?_).1
    rintro ⟨⟨hvalue, -⟩, -⟩
    exact hf hvalue

theorem perform_rejected_congr {c : JsonConversion} (hlength : args.length = args'.length)
    (ha : c.arity.accepts args.length = false) :
    (c.recipe ⟨f, args⟩).perform lowering builder =
      (c.recipe ⟨f, args'⟩).perform lowering builder := by
  have ha' : c.arity.accepts args'.length = false := by rw [← hlength, ha]
  rw [c.recipe_of_rejected ⟨f, args⟩ ha, c.recipe_of_rejected ⟨f, args'⟩ ha']
  simp only [hlength]

theorem perform_exists_congr (h : Agree lowering .jsonExists args args')
    (hlength : args.length = args'.length) :
    (JsonConversion.existsRecipe ⟨.jsonExists, args⟩).perform lowering builder =
      (JsonConversion.existsRecipe ⟨.jsonExists, args'⟩).perform lowering builder := by
  cases ha : JsonConversion.jsonExists.arity.accepts args.length with
  | false => exact perform_rejected_congr (c := .jsonExists) hlength ha
  | true =>
    have ha' := ha
    rw [hlength] at ha'
    rcases Arity.two_or_three_arguments ha with ⟨json, path, rfl⟩ | ⟨json, path, onError, rfl⟩
    · rcases Arity.two_or_three_arguments ha' with ⟨json', path', rfl⟩ | ⟨_, _, _, rfl⟩
      · have hjson := (h.at_position (i := 0) nofun nofun rfl rfl).1
        have hpath := (h.at_position (i := 1) nofun nofun rfl rfl).1
        exact Recipe.perform_existsRecipe_two_congr _ hjson hpath
      · cases hlength
    · rcases Arity.two_or_three_arguments ha' with ⟨_, _, rfl⟩ | ⟨json', path', onError', rfl⟩
      · cases hlength
      · have hjson := (h.at_position (i := 0) nofun nofun rfl rfl).1
        have hpath := (h.at_position (i := 1) nofun nofun rfl rfl).1
        have hslot :=
          Expr.existsFallback?_congr (h.at_position (i := 2) nofun nofun rfl rfl).2.symbol?_eq
        exact Recipe.perform_existsRecipe_three_congr _ hjson hpath hslot

theorem perform_query_congr (h : Agree lowering .jsonQuery args args')
    (hlength : args.length = args'.length) :
    (JsonConversion.queryRecipe ⟨.jsonQuery, args⟩).perform lowering builder =
      (JsonConversion.queryRecipe ⟨.jsonQuery, args'⟩).perform lowering builder := by
  cases ha : JsonConversion.jsonQuery.arity.accepts args.length with
  | false => exact perform_rejected_congr (c := .jsonQuery) hlength ha
  | true =>
    have ha' := ha
    rw [hlength] at ha'
    obtain ⟨json, path, wrapping, onEmpty, onError, rfl⟩ := Arity.five_arguments ha
    obtain ⟨json', path', wrapping', onEmpty', onError', rfl⟩ := Arity.five_arguments ha'
    have hjson := (h.at_position (i := 0) nofun nofun rfl rfl).1
    have hpath := (h.at_position (i := 1) nofun nofun rfl rfl).1
    have hwrapping := Expr.wrapper?_congr (h.at_position (i := 2) nofun nofun rfl rfl).2.symbol?_eq
    have hempty :=
      Expr.queryFallback?_congr (h.at_position (i := 3) nofun nofun rfl rfl).2.symbol?_eq
    -- Five arguments hold no default value, so position 4 is one like the others here.
    have herror := Expr.queryFallback?_congr (h 4 _ _ rfl rfl nofun).2.symbol?_eq
    exact Recipe.perform_queryRecipe_congr _ hjson hpath hwrapping hempty herror

theorem perform_value_congr (h : Agree lowering .jsonValue args args')
    (hlength : args.length = args'.length) :
    (JsonConversion.valueRecipe ⟨.jsonValue, args⟩).perform lowering builder =
      (JsonConversion.valueRecipe ⟨.jsonValue, args'⟩).perform lowering builder := by
  cases ha : JsonConversion.jsonValue.arity.accepts args.length with
  | false => exact perform_rejected_congr (c := .jsonValue) hlength ha
  | true =>
    have ha' := ha
    rw [hlength] at ha'
    obtain ⟨json, path, returning, onEmpty, emptyDefault, onError, errorDefault, rfl⟩ :=
      Arity.seven_arguments ha
    obtain ⟨json', path', returning', onEmpty', emptyDefault', onError', errorDefault', rfl⟩ :=
      Arity.seven_arguments ha'
    have hjson := (h.at_position (i := 0) nofun nofun rfl rfl).1
    have hpath := (h.at_position (i := 1) nofun nofun rfl rfl).1
    have hreturning := (h.at_position (i := 2) nofun nofun rfl rfl).2.sqlType?_eq
    have honEmpty :=
      Expr.valueFallback?_congr (h.at_position (i := 3) nofun nofun rfl rfl).2.symbol?_eq
    have honError :=
      Expr.valueFallback?_congr (h.at_position (i := 5) nofun nofun rfl rfl).2.symbol?_eq
    -- A default value counts only where its behavior makes it one that is used.
    have hempty : onEmpty.valueFallback? = some .default →
        lowering emptyDefault = lowering emptyDefault' := by
      intro hdefault
      exact (h 4 _ _ rfl rfl fun hunused => not_unusedDefault rfl hdefault _ hunused.1).1
    have herror : onError.valueFallback? = some .default →
        lowering errorDefault = lowering errorDefault' := by
      intro hdefault
      exact (h 6 _ _ rfl rfl fun hunused => not_unusedDefault rfl hdefault _ hunused.1).1
    exact Recipe.perform_valueRecipe_congr _ hjson hpath hreturning honEmpty hempty honError herror

end

namespace Planner

/-- Interchangeable expressions are lowered alike at every depth, whatever answers the requests. -/
theorem lowerWithin_eq_of_interchangeable (p : Planner)
    (hrules : p.rules = TableRule.standard.map TableRule.toRule) {e e' : Expr}
    (h : e.Interchangeable e') (levels : Nat) :
    p.lowerWithin levels e = p.lowerWithin levels e' := by
  induction h generalizing levels with
  | field name name' index => cases levels <;> rfl
  | literal value => rfl
  | type t => rfl
  | @call f args args' hlength hargs ih =>
    cases levels with
    | zero => rw [lowerWithin_zero, lowerWithin_zero]
    | succ levels =>
      have hagree : Agree (p.lowerWithin levels) f args args' := fun i e e' he he' hunused =>
        ⟨ih i e e' he he' hunused levels, hargs i e e' he he' hunused⟩
      rw [lowerWithin_call, lowerWithin_call, hrules, select_tables, select_tables]
      cases hdirect : f.direct? with
      | some x =>
        have hf : f ≠ .jsonValue := by
          rintro rfl
          exact absurd hdirect nofun
        simp only [claimant_standard_direct hdirect]
        exact Recipe.perform_operatorRecipe_congr _ _ f hlength (hagree.map_eq hf hlength)
      | none =>
        rcases BuiltIn.eq_json_of_direct?_none hdirect with rfl | rfl | rfl
        · exact perform_exists_congr hagree hlength
        · exact perform_value_congr hagree hlength
        · exact perform_query_congr hagree hlength

/-- Neither the names of fields nor unused default values influence lowering, successful or not and
whatever answers the requests: the result and the requests made on the way to it are the same. -/
theorem convert_eq_of_interchangeable {e e' : Expr} (h : e.Interchangeable e') (limit : Nat)
    (builder : Builder) :
    let p : Planner := { standard limit with builder }
    p.convert e = p.convert e' ∧ (p.lower e).log = (p.lower e').log := by
  intro p
  have hlower : p.lower e = p.lower e' :=
    lowerWithin_eq_of_interchangeable p rfl h (limit + 1)
  exact ⟨congrArg Logged.outcome hlower, congrArg Logged.log hlower⟩

/-- One unused default value lacks its argument, the other is too deep. Neither matters, and the
operand behind them fails all the same. -/
theorem convert_eq_of_interchangeable_failing :
    let e : Expr := .call .and [.call .jsonValue [.field "a" 0, .literal (.string "$"),
      .type .varchar, .literal (.symbol (.valueFallback .null)), .call .not [],
      .literal (.symbol (.valueFallback .error)), .type .double], .call .not []]
    let e' : Expr := .call .and [.call .jsonValue [.field "b" 0, .literal (.string "$"),
      .type .varchar, .literal (.symbol (.valueFallback .null)),
      .call .not [.call .not [.call .not [.field "c" 1]]],
      .literal (.symbol (.valueFallback .error)), .literal .null], .call .not []]
    let p : Planner := { standard 2 with builder := Request.node }
    e.Interchangeable e' ∧ (p.convert e = p.convert e' ∧ (p.lower e).log = (p.lower e').log) ∧
      p.convert e = .error (.arity .not (.exactly 1) 0) := by
  intro e e' p
  have h : e.Interchangeable e' :=
    .call_of_forall₂ .and (.cons
      (.jsonValue (.field "a" "b" 0) (.literal _) .varchar .null .error nofun nofun)
      (.cons (.call_of_forall₂ .not .nil) .nil))
  exact ⟨h, convert_eq_of_interchangeable h 2 Request.node, rfl⟩

end Planner
end RowPlan
