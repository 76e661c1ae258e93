import RowPlan.Proofs.Calls
import RowPlan.Proofs.Checks
import RowPlan.Proofs.Conversions
import RowPlan.Proofs.Recipes

/-! The course of a call: the stages it goes through in order, and the request that ends it. A
stage checks something, lowers an argument or requests a flag; the last two bring an operand of the
call. Every recipe that makes a call is the recipe of such a course, whatever function the
conversion is registered for and however many arguments there are. -/
namespace RowPlan

/-- A stage on the way to the request for a call. -/
inductive Stage where
  | check (c : Check)
  | operand (e : Expr)
  | flag (f : Flag)

/-- The stages of a call, with the operator and the type of the row expression that they lead to.
The type is one that the stages have checked to be there. -/
structure Course where
  stages : List Stage
  op : Operator
  type : Option SqlType

namespace Stage

/-- What a stage does, with the operands that it brings. -/
def recipe : Stage → Recipe (List Node)
  | check c => if c.passes then .done [] else .fail c.error
  | operand e => do return [← .lowered e]
  | flag f => do return [← .built (.flag f)]

/-- Stages in order, with all operands that they bring. -/
def recipes : List Stage → Recipe (List Node)
  | [] => .done []
  | s :: ss => do
    let ns ← s.recipe
    let ms ← recipes ss
    return ns ++ ms

/-- The flag of a configuration argument that has been read. -/
def flagOf {α : Type} (flag : α → Flag) (read : Option α) : List Stage :=
  read.toList.map fun a => .flag (flag a)

end Stage

namespace Course

def request (k : Course) (operands : List Node) : Request :=
  match k.type with
  | none => .call k.op operands
  | some t => .typedCall t k.op operands

def recipe (k : Course) : Recipe Node := do
  let operands ← Stage.recipes k.stages
  .built (k.request operands)

end Course

/-- The number of arguments is an accepted one. -/
def Check.countOf (arity : Arity) (call : Call) : Check :=
  ⟨arity.accepts call.args.length, .arity call.function arity call.args.length⟩

/-- One operator over all arguments. -/
def operatorCourse (op : Operator) (arity : Arity) (call : Call) : Course where
  stages := .check (.countOf arity call) :: call.args.map .operand
  op := op
  type := none

namespace JsonConversion

/-- A clause of `JSON_VALUE`: the flag of its behavior, the default value if that is the behavior,
and the marker of the clause. -/
def clauseStages (f : BuiltIn) (slot : String) (behavior value : Expr) (clause : Flag.Clause) :
    List Stage :=
  .check (.slot f Expr.valueFallback? slot behavior) ::
    (Stage.flagOf (fun b => .valueFallback (.ofSymbol b)) behavior.valueFallback? ++
      (usedDefault behavior value).map .operand ++ [.flag (.clause clause)])

/-- The stages behind the check of the number of arguments. -/
def stages : JsonConversion → BuiltIn → List Expr → List Stage
  | jsonExists, _, [json, path] => [.operand json, .operand path]
  | jsonExists, f, [json, path, onError] =>
    [.operand json, .operand path, .check (.slot f Expr.existsFallback? "on-error" onError)] ++
      Stage.flagOf (fun b => .existsFallback (.ofSymbol b)) onError.existsFallback?
  | jsonQuery, f, [json, path, wrapping, onEmpty, onError] =>
    [.operand json, .operand path, .check (.slot f Expr.wrapper? "wrapping" wrapping),
        .check (.slot f Expr.queryFallback? "on-empty" onEmpty),
        .check (.slot f Expr.queryFallback? "on-error" onError)] ++
      Stage.flagOf (fun w => .wrapper (.ofSymbol w)) wrapping.wrapper? ++
      Stage.flagOf (fun b => .queryFallback (.ofSymbol b)) onEmpty.queryFallback? ++
      Stage.flagOf (fun b => .queryFallback (.ofSymbol b)) onError.queryFallback?
  | jsonValue, f, [json, path, returning, onEmpty, emptyDefault, onError, errorDefault] =>
    [.check (.slot f Expr.sqlType? "returning type" returning), .operand json, .operand path] ++
      clauseStages f "on-empty" onEmpty emptyDefault .empty ++
      clauseStages f "on-error" onError errorDefault .error
  | _, _, _ => []

def operator : JsonConversion → Operator
  | jsonExists => .jsonExists
  | jsonValue => .jsonValue
  | jsonQuery => .jsonQuery

/-- The type of the row expression, which only `JSON_VALUE` is given. -/
def returning? : JsonConversion → List Expr → Option SqlType
  | jsonValue, args => args[2]?.bind Expr.sqlType?
  | _, _ => none

def course (k : JsonConversion) (call : Call) : Course where
  stages := .check (.countOf k.arity call) :: k.stages call.function call.args
  op := k.operator
  type := k.returning? call.args

end JsonConversion

namespace Stage

theorem recipes_check_passed {c : Check} (h : c.passes = true) (ss : List Stage) :
    recipes (.check c :: ss) = recipes ss := by
  have hc : (Stage.check c).recipe = .done [] := by rw [recipe, if_pos h]
  rw [recipes, hc]
  exact Recipe.bind_done (recipes ss)

theorem recipes_check_failed {c : Check} (h : c.passes = false) (ss : List Stage) :
    recipes (.check c :: ss) = .fail c.error := by
  have hc : (Stage.check c).recipe = .fail c.error := by rw [recipe, h]; rfl
  rw [recipes, hc]
  rfl

theorem recipes_append (ss ts : List Stage) :
    recipes (ss ++ ts) =
      (recipes ss).bind fun ns => (recipes ts).bind fun ms => .done (ns ++ ms) := by
  induction ss with
  | nil => exact (Recipe.bind_done (recipes ts)).symm
  | cons s ss ih =>
    rw [List.cons_append, recipes, recipes, ih]
    simp only [Recipe.bind_eq, Recipe.bind_assoc, Recipe.bind, Pure.pure, List.append_assoc]

theorem recipes_operands (es : List Expr) : recipes (es.map .operand) = .lowerAll es := by
  induction es with
  | nil => rfl
  | cons e es ih =>
    rw [List.map_cons, recipes, ih]
    rfl

end Stage

/-- With a wrong number of arguments nothing but the error is left of a course. -/
theorem Course.recipe_of_rejected {arity : Arity} {call : Call}
    (h : arity.accepts call.args.length = false) (ss : List Stage) (op : Operator)
    (type : Option SqlType) :
    (Course.mk (.check (.countOf arity call) :: ss) op type).recipe =
      .fail (.arity call.function arity call.args.length) := by
  rw [recipe, Stage.recipes_check_failed h]
  rfl

theorem operatorRecipe_eq_course (op : Operator) (arity : Arity) (call : Call) :
    Handler.operatorRecipe op arity call = (operatorCourse op arity call).recipe := by
  rw [Handler.operatorRecipe, Call.checkArity, operatorCourse]
  cases h : arity.accepts call.args.length with
  | false =>
    rw [Course.recipe_of_rejected h]
    rfl
  | true =>
    rw [Course.recipe, Stage.recipes_check_passed h, Stage.recipes_operands]
    rfl

namespace JsonConversion

theorem existsRecipe_eq_course {call : Call}
    (h : jsonExists.arity.accepts call.args.length = true) :
    existsRecipe call = (jsonExists.course call).recipe := by
  obtain ⟨f, args⟩ := call
  rw [Course.recipe, course, Stage.recipes_check_passed h]
  rcases Arity.two_or_three_arguments h with ⟨json, path, rfl⟩ | ⟨json, path, onError, rfl⟩
  · rfl
  · rw [existsRecipe_three]
    simp only [stages, Check.slot]
    cases onError.existsFallback? with
    | none => rfl
    | some b => rfl

theorem queryRecipe_eq_course {call : Call}
    (h : jsonQuery.arity.accepts call.args.length = true) :
    queryRecipe call = (jsonQuery.course call).recipe := by
  obtain ⟨f, args⟩ := call
  rw [Course.recipe, course, Stage.recipes_check_passed h]
  obtain ⟨json, path, wrapping, onEmpty, onError, rfl⟩ := Arity.five_arguments h
  rw [queryRecipe_five]
  simp only [stages, Check.slot]
  -- The first configuration argument that cannot be read ends both sides.
  cases wrapping.wrapper? with
  | none => rfl
  | some w =>
    cases onEmpty.queryFallback? with
    | none => rfl
    | some b =>
      cases onError.queryFallback? with
      | none => rfl
      | some c => rfl

theorem clause_eq_recipes (f : BuiltIn) (slot : String) (behavior value : Expr)
    (marker : Flag.Clause) :
    clause f slot behavior value marker =
      Stage.recipes (clauseStages f slot behavior value marker) := by
  rw [clause]
  simp only [clauseStages, usedDefault, Check.slot]
  cases behavior.valueFallback? with
  | none => rfl
  | some b => cases b <;> rfl

theorem valueRecipe_eq_course {call : Call}
    (h : jsonValue.arity.accepts call.args.length = true) :
    valueRecipe call = (jsonValue.course call).recipe := by
  obtain ⟨f, args⟩ := call
  rw [Course.recipe, course, Stage.recipes_check_passed h]
  obtain ⟨json, path, returning, onEmpty, emptyDefault, onError, errorDefault, rfl⟩ :=
    Arity.seven_arguments h
  have hreturning : returning? .jsonValue
      [json, path, returning, onEmpty, emptyDefault, onError, errorDefault] =
      returning.sqlType? := rfl
  rw [valueRecipe_seven]
  simp only [stages, clause_eq_recipes, Stage.recipes_append, Recipe.bind_eq, Recipe.bind_assoc,
    hreturning, Check.slot]
  cases returning.sqlType? with
  | none => rfl
  | some t => rfl

/-- Every conversion takes its course, of whatever function and with whatever arguments. -/
theorem recipe_eq_course (k : JsonConversion) (call : Call) :
    k.recipe call = (k.course call).recipe := by
  cases h : k.arity.accepts call.args.length with
  | false =>
    rw [recipe_of_rejected k call h, course, Course.recipe_of_rejected h]
  | true =>
    cases k with
    | jsonExists => exact existsRecipe_eq_course h
    | jsonValue => exact valueRecipe_eq_course h
    | jsonQuery => exact queryRecipe_eq_course h

theorem recipe_of_accepted (k : JsonConversion) {call : Call}
    (h : k.arity.accepts call.args.length = true) :
    k.recipe call = (Course.mk (k.stages call.function call.args) k.operator
      (k.returning? call.args)).recipe := by
  rw [recipe_eq_course, Course.recipe, course, Stage.recipes_check_passed h]
  rfl

end JsonConversion

/-- The identity handler makes no call, so it has no course. -/
theorem Handler.identityRecipe_cases (call : Call) :
    (∃ error, identityRecipe call = .fail error) ∨ ∃ e, identityRecipe call = .lowered e := by
  obtain ⟨f, args⟩ := call
  cases args with
  | nil => exact Or.inl ⟨_, rfl⟩
  | cons e rest =>
    cases rest with
    | nil => exact Or.inr ⟨e, rfl⟩
    | cons e' rest => exact Or.inl ⟨_, rfl⟩

/-- Every handler takes a course, or makes no call. -/
theorem Handler.recipe_cases (handler : Handler) (call : Call) :
    (∃ k : Course, handler.recipe call = k.recipe) ∨
      (∃ error, handler.recipe call = .fail error) ∨ ∃ e, handler.recipe call = .lowered e := by
  cases handler with
  | operator op arity => exact Or.inl ⟨_, operatorRecipe_eq_course op arity call⟩
  | conversion k => exact Or.inl ⟨_, k.recipe_eq_course call⟩
  | identity => exact Or.inr (identityRecipe_cases call)

namespace Handler

/-- The stages of a call. Those of the identity handler bring the node that it ends with. -/
def stages : Handler → Call → List Stage
  | operator op arity, call => (operatorCourse op arity call).stages
  | conversion k, call => (k.course call).stages
  | identity, call => .check (.countOf (.exactly 1) call) :: call.args.map .operand

/-- What is left to do with the operands that the stages bring. -/
def finish : Handler → Call → List Node → Recipe Node
  | operator op arity, call, operands => .built ((operatorCourse op arity call).request operands)
  | conversion k, call, operands => .built ((k.course call).request operands)
  | identity, _, n :: _ => .done n
  | identity, call, [] => .fail (.argumentMissing call.function 0)

/-- Every handler goes through its stages and finishes with what they have brought. -/
theorem recipe_eq_stages (h : Handler) (call : Call) :
    h.recipe call = (Stage.recipes (h.stages call)).bind (h.finish call) := by
  cases h with
  | operator op arity => exact operatorRecipe_eq_course op arity call
  | conversion k => exact k.recipe_eq_course call
  | identity =>
    obtain ⟨f, args⟩ := call
    match args with
    | [] => rfl
    | [e] => rfl
    | e :: e' :: rest =>
      have hcount : (Check.countOf (.exactly 1) ⟨f, e :: e' :: rest⟩).passes = false := rfl
      rw [stages, Stage.recipes_check_failed hcount]
      rfl

end Handler

section
variable {lowering : Expr → Logged Request Node} {builder : Builder}

theorem Stage.perform_check_passed {c : Check} (h : c.passes = true) :
    (check c).recipe.perform lowering builder = .pure [] := by
  rw [recipe, if_pos h]
  rfl

theorem Stage.perform_check_failed {c : Check} (h : c.passes = false) :
    (check c).recipe.perform lowering builder = .fail c.error := by
  rw [recipe, h]
  rfl

theorem Stage.perform_operand (e : Expr) :
    (operand e).recipe.perform lowering builder = (lowering e).bind fun n => .pure [n] := rfl

theorem Stage.perform_flag (f : Flag) :
    (flag f).recipe.perform lowering builder = ⟨[.flag f], .ok [builder (.flag f)]⟩ := rfl

theorem Stage.perform_recipes_cons (s : Stage) (ss : List Stage) :
    (recipes (s :: ss)).perform lowering builder =
      (s.recipe.perform lowering builder).bind fun ns =>
        ((recipes ss).perform lowering builder).bind fun ms => .pure (ns ++ ms) := by
  rw [recipes]
  simp only [Recipe.bind_eq, Recipe.perform_bind]
  rfl

/-- Stages fail at the first one that does. Those before it have been completed, and only their
requests stand before its own. -/
theorem Stage.perform_recipes_eq_error_iff (ss : List Stage) (log : List Request)
    (error : LowerError) :
    (recipes ss).perform lowering builder = ⟨log, .error error⟩ ↔
      ∃ before s after last, ss = before ++ s :: after ∧
        (∀ b ∈ before, ∃ ns, (b.recipe.perform lowering builder).outcome = .ok ns) ∧
        s.recipe.perform lowering builder = ⟨last, .error error⟩ ∧
        log = (before.flatMap fun b => (b.recipe.perform lowering builder).log) ++ last := by
  induction ss generalizing log with
  | nil =>
    refine ⟨nofun, ?_⟩
    rintro ⟨before, s, after, last, h, -⟩
    cases before <;> cases h
  | cons t ss ih =>
    -- Joining the operands of the first stage to those of the others cannot fail.
    have hjoin (ns : List Node) (log : List Request) :
        ((recipes ss).perform lowering builder).bind (fun ms => .pure (ns ++ ms)) =
          ⟨log, .error error⟩ ↔ (recipes ss).perform lowering builder = ⟨log, .error error⟩ :=
      Logged.bind_eq_error_iff_of_ok fun ms => ⟨ns ++ ms, rfl⟩
    rw [perform_recipes_cons, Logged.bind_eq_error_iff]
    constructor
    · rintro (ht | ⟨ns, last, ht, hss, rfl⟩)
      · exact ⟨[], t, ss, log, rfl, nofun, ht, rfl⟩
      · obtain ⟨before, s, after, last, rfl, hbefore, hs, rfl⟩ := (ih _).mp ((hjoin ns _).mp hss)
        refine ⟨t :: before, s, after, last, rfl, ?_, hs, ?_⟩
        · exact List.forall_mem_cons.mpr ⟨⟨ns, ht⟩, hbefore⟩
        · rw [List.flatMap_cons, List.append_assoc]
    · rintro ⟨before, s, after, last, h, hbefore, hs, rfl⟩
      cases before with
      | nil =>
        obtain ⟨rfl, rfl⟩ := List.cons.inj h
        exact Or.inl hs
      | cons b before =>
        obtain ⟨rfl, rfl⟩ := List.cons.inj h
        obtain ⟨⟨ns, ht⟩, hbefore⟩ := List.forall_mem_cons.mp hbefore
        have hss := (ih _).mpr ⟨before, s, after, last, rfl, hbefore, hs, rfl⟩
        refine Or.inr ⟨ns, _, ht, (hjoin ns _).mpr hss, ?_⟩
        rw [List.flatMap_cons, List.append_assoc]

/-- A stage fails by its check or by the lowering of its argument. -/
theorem Stage.perform_eq_error_iff (s : Stage) (log : List Request) (error : LowerError) :
    s.recipe.perform lowering builder = ⟨log, .error error⟩ ↔
      (∃ c, s = .check c ∧ c.passes = false ∧ c.error = error ∧ log = []) ∨
        ∃ e, s = .operand e ∧ lowering e = ⟨log, .error error⟩ := by
  constructor
  · intro h
    cases s with
    | check c =>
      cases hc : c.passes with
      | true =>
        rw [perform_check_passed hc] at h
        cases h
      | false =>
        rw [perform_check_failed hc] at h
        cases h
        exact Or.inl ⟨c, rfl, hc, rfl, rfl⟩
    | operand e =>
      rw [perform_operand, Logged.bind_eq_error_iff_of_ok fun n => ⟨[n], rfl⟩] at h
      exact Or.inr ⟨e, rfl, h⟩
    | flag f =>
      rw [perform_flag] at h
      cases h
  · rintro (⟨c, rfl, hc, rfl, rfl⟩ | ⟨e, rfl, he⟩)
    · exact perform_check_failed hc
    · rw [perform_operand, he]
      rfl

theorem Course.perform_recipe (k : Course) :
    k.recipe.perform lowering builder =
      ((Stage.recipes k.stages).perform lowering builder).bind fun operands =>
        ⟨[k.request operands], .ok (builder (k.request operands))⟩ := by
  rw [recipe, Recipe.bind_eq, Recipe.perform_bind]
  rfl

/-- The request at the end cannot fail, and is not made after a failure. -/
theorem Course.perform_recipe_eq_error_iff (k : Course) (log : List Request)
    (error : LowerError) :
    k.recipe.perform lowering builder = ⟨log, .error error⟩ ↔
      (Stage.recipes k.stages).perform lowering builder = ⟨log, .error error⟩ := by
  rw [perform_recipe]
  exact Logged.bind_eq_error_iff_of_ok fun operands => ⟨builder (k.request operands), rfl⟩

end

end RowPlan
