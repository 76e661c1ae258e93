import RowPlan.Proofs.Checks
import RowPlan.Proofs.Conversions
import RowPlan.Proofs.Dispatch
import RowPlan.Proofs.Trees

/-! How lowering ends. One induction over the expression shows that the walk makes the checks of
the list, in its order, and returns the translation once all of them have passed. -/
namespace RowPlan

namespace Planner

/-- Lowering ends as the checks do, and with the translation if all of them pass. -/
def Answers (lowering : Expr → Logged Request Node) (checksOf : Expr → List Check) (e : Expr) :
    Prop :=
  (lowering e).outcome = (verify (checksOf e)).map fun _ => e.translation

section
variable {lowering : Expr → Logged Request Node} {checksOf : Expr → List Check} {α β : Type}

/-- A recipe makes checks, with the expressions that it lowers, and ends with a result if all of
them pass. -/
def Ends (lowering : Expr → Logged Request Node) (r : Recipe α) (cs : List Check) (a : α) : Prop :=
  (r.perform lowering Request.node).outcome = (verify cs).map fun _ => a

theorem ends_bind {r : Recipe α} {next : α → Recipe β} {cs ds : List Check} {a : α} {b : β}
    (hr : Ends lowering r cs a) (hnext : Ends lowering (next a) ds b) :
    Ends lowering (r >>= next) (cs ++ ds) b := by
  unfold Ends at hr
  rw [Ends, Recipe.bind_eq, Recipe.perform_bind, Logged.outcome_bind, hr, verify_append]
  cases verify cs with
  | error error => rfl
  | ok _ => exact hnext

theorem ends_lowered {e : Expr} (he : Answers lowering checksOf e) :
    Ends lowering (.lowered e) (checksOf e) e.translation := by
  rw [Ends, Recipe.perform_lowered]
  exact he

theorem ends_built (request : Request) : Ends lowering (.built request) [] request.node := rfl

/-- A request cannot fail, so it takes no check. -/
theorem ends_built_bind {request : Request} {next : Node → Recipe α} {cs : List Check} {a : α}
    (hnext : Ends lowering (next request.node) cs a) :
    Ends lowering (.built request >>= next) cs a :=
  ends_bind (ends_built request) hnext

/-- What follows a configuration argument may rely on its being of the required kind. -/
theorem ends_required_bind {f : BuiltIn} {read : Expr → Option α} {name : String} {e : Expr}
    {next : α → Recipe β} {cs : List Check} {b : β}
    (hnext : ∀ a, read e = some a → Ends lowering (next a) cs b) :
    Ends lowering (JsonConversion.required f name (read e) >>= next)
      (.slot f read name e :: cs) b := by
  rw [Ends, verify_slot_cons]
  cases h : read e with
  | none => rfl
  | some a => exact hnext a h

theorem ends_lowerAll {es : List Expr} (h : ∀ e ∈ es, Answers lowering checksOf e) :
    Ends lowering (.lowerAll es) (es.flatMap checksOf) (es.map Expr.translation) := by
  induction es with
  | nil => rfl
  | cons e es ih =>
    have he : Answers lowering checksOf e := h e List.mem_cons_self
    have hes : ∀ d ∈ es, Answers lowering checksOf d := fun d hd =>
      h d (List.mem_cons_of_mem e hd)
    rw [List.flatMap_cons, Recipe.lowerAll]
    apply ends_bind (ends_lowered he)
    rw [← List.append_nil (es.flatMap checksOf)]
    exact ends_bind (ih hes) rfl

theorem ends_operatorRecipe {f : BuiltIn} {op : Operator} {arity : Arity}
    (hf : f.direct? = some (op, arity)) {args : List Expr}
    (h : ∀ e ∈ args, Answers lowering checksOf e) :
    Ends lowering (Handler.operatorRecipe op arity ⟨f, args⟩)
      (.count f args.length :: args.flatMap checksOf) (Expr.call f args).translation := by
  have htarget : f.target.2 = arity := by rw [BuiltIn.target_direct hf]
  rw [Expr.translation_call_direct hf, Handler.operatorRecipe, Call.checkArity]
  cases hcount : arity.accepts args.length with
  | true =>
    have hchecks : Ends lowering (do let ns ← .lowerAll args; .built (.call op ns))
        (args.flatMap checksOf ++ []) (.call op (args.map Expr.translation) none) :=
      ends_bind (ends_lowerAll h) (ends_built _)
    rw [List.append_nil] at hchecks
    rw [Ends, verify_count_cons, htarget, hcount]
    exact hchecks
  | false =>
    rw [Ends, verify_count_cons, htarget, hcount]
    rfl

theorem ends_existsRecipe_two {json path : Expr}
    (hjson : Answers lowering checksOf json) (hpath : Answers lowering checksOf path) :
    Ends lowering (JsonConversion.existsRecipe ⟨.jsonExists, [json, path]⟩)
      (checksOf json ++ checksOf path) (Expr.call .jsonExists [json, path]).translation := by
  rw [JsonConversion.existsRecipe_two, ← List.append_nil (checksOf path)]
  apply ends_bind (ends_lowered hjson)
  apply ends_bind (ends_lowered hpath)
  exact ends_built _

theorem ends_existsRecipe_three {json path onError : Expr}
    (hjson : Answers lowering checksOf json) (hpath : Answers lowering checksOf path) :
    Ends lowering (JsonConversion.existsRecipe ⟨.jsonExists, [json, path, onError]⟩)
      (checksOf json ++ checksOf path ++
        [.slot .jsonExists Expr.existsFallback? "on-error" onError])
      (Expr.call .jsonExists [json, path, onError]).translation := by
  rw [JsonConversion.existsRecipe_three, List.append_assoc]
  apply ends_bind (ends_lowered hjson)
  apply ends_bind (ends_lowered hpath)
  apply ends_required_bind
  intro b hb
  obtain rfl := Expr.existsFallback?_eq_some_iff.mp hb
  apply ends_built_bind
  exact ends_built _

theorem ends_queryRecipe {json path wrapping onEmpty onError : Expr}
    (hjson : Answers lowering checksOf json) (hpath : Answers lowering checksOf path) :
    Ends lowering
      (JsonConversion.queryRecipe ⟨.jsonQuery, [json, path, wrapping, onEmpty, onError]⟩)
      (checksOf json ++ checksOf path ++
        [.slot .jsonQuery Expr.wrapper? "wrapping" wrapping,
          .slot .jsonQuery Expr.queryFallback? "on-empty" onEmpty,
          .slot .jsonQuery Expr.queryFallback? "on-error" onError])
      (Expr.call .jsonQuery [json, path, wrapping, onEmpty, onError]).translation := by
  rw [JsonConversion.queryRecipe_five, List.append_assoc]
  apply ends_bind (ends_lowered hjson)
  apply ends_bind (ends_lowered hpath)
  apply ends_required_bind
  intro w hw
  apply ends_required_bind
  intro b hb
  apply ends_required_bind
  intro c hc
  obtain rfl := Expr.wrapper?_eq_some_iff.mp hw
  obtain rfl := Expr.queryFallback?_eq_some_iff.mp hb
  obtain rfl := Expr.queryFallback?_eq_some_iff.mp hc
  apply ends_built_bind
  apply ends_built_bind
  apply ends_built_bind
  exact ends_built _

theorem ends_clause_bind {name : String} {behavior value : Expr} {clause : Flag.Clause}
    (hvalue : Answers lowering checksOf value) {next : List Node → Recipe α} {cs : List Check}
    {a : α}
    (hnext : ∀ b, behavior.valueFallback? = some b →
      Ends lowering (next (clauseOperands (.ofSymbol b) value.translation clause)) cs a) :
    Ends lowering (JsonConversion.clause .jsonValue name behavior value clause >>= next)
      (clauseChecks name behavior (checksOf value) ++ cs) a := by
  rw [JsonConversion.clause, clauseChecks, Recipe.bind_eq, Recipe.bind_eq, Recipe.bind_assoc]
  apply ends_required_bind
  intro b hb
  have hrest := hnext b hb
  rw [hb]
  -- Only a behavior `DEFAULT` brings the checks of the default value.
  cases b with
  | null => exact hrest
  | error => exact hrest
  | default =>
    change Ends lowering (do
      let flag ← .built (.flag (.valueFallback .default))
      let v ← .lowered value
      let marker ← .built (.flag (.clause clause))
      next [flag, v, marker]) (checksOf value ++ cs) a
    apply ends_built_bind
    apply ends_bind (ends_lowered hvalue)
    exact ends_built_bind hrest

theorem ends_valueRecipe
    {json path returning onEmpty emptyDefault onError errorDefault : Expr}
    (hjson : Answers lowering checksOf json) (hpath : Answers lowering checksOf path)
    (hempty : Answers lowering checksOf emptyDefault)
    (herror : Answers lowering checksOf errorDefault) :
    Ends lowering
      (JsonConversion.valueRecipe ⟨.jsonValue,
        [json, path, returning, onEmpty, emptyDefault, onError, errorDefault]⟩)
      (.slot .jsonValue Expr.sqlType? "returning type" returning ::
        (checksOf json ++ checksOf path ++
          clauseChecks "on-empty" onEmpty (checksOf emptyDefault) ++
          clauseChecks "on-error" onError (checksOf errorDefault)))
      (Expr.call .jsonValue
        [json, path, returning, onEmpty, emptyDefault, onError, errorDefault]).translation := by
  rw [JsonConversion.valueRecipe_seven, List.append_assoc, List.append_assoc,
    ← List.append_nil (clauseChecks "on-error" _ _)]
  apply ends_required_bind
  intro t ht
  apply ends_bind (ends_lowered hjson)
  apply ends_bind (ends_lowered hpath)
  apply ends_clause_bind hempty
  intro b hb
  apply ends_clause_bind herror
  intro c hc
  obtain rfl := Expr.sqlType?_eq_some_iff.mp ht
  obtain rfl := Expr.valueFallback?_eq_some_iff.mp hb
  obtain rfl := Expr.valueFallback?_eq_some_iff.mp hc
  exact ends_built _

end

variable {limit depth : Nat}

/-- The checks behind that of the depth are all that the claiming handler adds. -/
theorem answers_claimed (hd : depth ≤ limit) {f : BuiltIn} {h : Handler} {args : List Expr}
    (hf : claimant? TableRule.standard f = some h) {rest : List Check}
    (hchecks : Expr.checks limit depth (.call f args) = .depth limit depth :: rest)
    (ho : Ends ((standard limit).lowerAt (depth + 1)) (h.recipe ⟨f, args⟩) rest
      (Expr.call f args).translation) :
    Answers ((standard limit).lowerAt depth) (Expr.checks limit depth) (.call f args) := by
  rw [Answers, hchecks, verify_depth_cons hd, ← ho, standard, lowerAt_claimed hd hf]

theorem answers_rejected (hd : depth ≤ limit) {f : BuiltIn} {c : JsonConversion}
    (hf : claimant? TableRule.standard f = some (.conversion c)) (harity : f.target.2 = c.arity)
    {args : List Expr} (hargs : c.arity.accepts args.length = false) :
    Answers ((standard limit).lowerAt depth) (Expr.checks limit depth) (.call f args) := by
  obtain ⟨rest, hchecks⟩ := Expr.checks_call limit depth f args
  apply answers_claimed hd hf hchecks
  -- The check of the number fails, so those behind it in the list are not made.
  have hr : (Handler.conversion c).recipe ⟨f, args⟩ = .fail (.arity f c.arity args.length) :=
    JsonConversion.recipe_of_rejected c ⟨f, args⟩ hargs
  rw [hr, Ends, verify_count_cons, harity, hargs]
  rfl

/-- An induction hypothesis for the arguments of a call. -/
def AnswersBelow (limit depth : Nat) (args : List Expr) : Prop :=
  ∀ e ∈ args, Answers ((standard limit).lowerAt (depth + 1)) (Expr.checks limit (depth + 1)) e

theorem answers_jsonExists (hd : depth ≤ limit) {args : List Expr}
    (ih : AnswersBelow limit depth args) :
    Answers ((standard limit).lowerAt depth) (Expr.checks limit depth)
      (.call .jsonExists args) := by
  cases ha : JsonConversion.jsonExists.arity.accepts args.length with
  | false => exact answers_rejected hd claimant_standard_jsonExists rfl ha
  | true =>
    rcases Arity.two_or_three_arguments ha with ⟨json, path, rfl⟩ | ⟨json, path, onError, rfl⟩
    · apply answers_claimed hd claimant_standard_jsonExists rfl
      exact ends_existsRecipe_two (ih json (by simp)) (ih path (by simp))
    · apply answers_claimed hd claimant_standard_jsonExists rfl
      exact ends_existsRecipe_three (ih json (by simp)) (ih path (by simp))

theorem answers_jsonValue (hd : depth ≤ limit) {args : List Expr}
    (ih : AnswersBelow limit depth args) :
    Answers ((standard limit).lowerAt depth) (Expr.checks limit depth)
      (.call .jsonValue args) := by
  cases ha : JsonConversion.jsonValue.arity.accepts args.length with
  | false => exact answers_rejected hd claimant_standard_jsonValue rfl ha
  | true =>
    obtain ⟨json, path, returning, onEmpty, emptyDefault, onError, errorDefault, rfl⟩ :=
      Arity.seven_arguments ha
    apply answers_claimed hd claimant_standard_jsonValue rfl
    exact ends_valueRecipe (ih json (by simp)) (ih path (by simp))
      (ih emptyDefault (by simp)) (ih errorDefault (by simp))

theorem answers_jsonQuery (hd : depth ≤ limit) {args : List Expr}
    (ih : AnswersBelow limit depth args) :
    Answers ((standard limit).lowerAt depth) (Expr.checks limit depth)
      (.call .jsonQuery args) := by
  cases ha : JsonConversion.jsonQuery.arity.accepts args.length with
  | false => exact answers_rejected hd claimant_standard_jsonQuery rfl ha
  | true =>
    obtain ⟨json, path, wrapping, onEmpty, onError, rfl⟩ := Arity.five_arguments ha
    apply answers_claimed hd claimant_standard_jsonQuery rfl
    exact ends_queryRecipe (ih json (by simp)) (ih path (by simp))

theorem answers_too_deep (hd : limit < depth) (e : Expr) :
    Answers ((standard limit).lowerAt depth) (Expr.checks limit depth) e := by
  obtain ⟨rest, hchecks⟩ := Expr.checks_head limit depth e
  rw [Answers, hchecks, verify_too_deep hd, lowerAt_too_deep (standard limit) hd]
  rfl

/-- Lowering at any depth makes the listed checks in order, and nothing else decides how it
ends. -/
theorem answers_lowerAt (limit : Nat) (e : Expr) (depth : Nat) :
    Answers ((standard limit).lowerAt depth) (Expr.checks limit depth) e := by
  -- Arguments are one level deeper, so the claim is proved for all depths at once.
  induction e using Expr.tree_induction generalizing depth with
  | field name index =>
    rcases Nat.lt_or_ge limit depth with hd | hd
    · exact answers_too_deep hd _
    · rw [Answers, lowerAt_field (standard limit) hd, Expr.checks, verify_depth_cons hd]
      rfl
  | literal value =>
    rcases Nat.lt_or_ge limit depth with hd | hd
    · exact answers_too_deep hd _
    · rw [Answers, lowerAt_literal (standard limit) hd, Expr.checks, verify_depth_cons hd]
      cases value <;> rfl
  | type t =>
    rcases Nat.lt_or_ge limit depth with hd | hd
    · exact answers_too_deep hd _
    · rw [Answers, lowerAt_type (standard limit) hd, Expr.checks, verify_depth_cons hd]
      rfl
  | call f args ih =>
    rcases Nat.lt_or_ge limit depth with hd | hd
    · exact answers_too_deep hd _
    · have hargs : AnswersBelow limit depth args := fun e he => ih e he (depth + 1)
      cases hdirect : f.direct? with
      | some x =>
        exact answers_claimed hd (claimant_standard_direct hdirect)
          (Expr.checks_call_direct hdirect limit depth args)
          (ends_operatorRecipe hdirect hargs)
      | none =>
        rcases BuiltIn.eq_json_of_direct?_none hdirect with rfl | rfl | rfl
        · exact answers_jsonExists hd hargs
        · exact answers_jsonValue hd hargs
        · exact answers_jsonQuery hd hargs

/-- The error is that of the first failing check, and there is one only if a check fails. -/
theorem convert_eq_error_iff (limit : Nat) (e : Expr) (error : LowerError) :
    (standard limit).convert e = .error error ↔
      firstFailure? (e.checks limit 0) = some error := by
  have h : (standard limit).convert e = _ := answers_lowerAt limit e 0
  rw [h, ← verify_eq_error_iff]
  cases verify (e.checks limit 0) with
  | error error' => simp only [Except.map, Except.error.injEq]
  | ok _ => exact iff_of_false nofun nofun

/-- The type is read before the arguments, which are too deep, and those before the behaviors. -/
example :
    (standard 0).convert (.call .jsonValue [.field "a" 0, .field "b" 1, .field "c" 2,
      .field "d" 3, .field "e" 4, .field "f" 5, .field "g" 6]) =
        .error (.missingConfiguration .jsonValue "returning type") ∧
    (standard 0).convert (.call .jsonValue [.field "a" 0, .field "b" 1, .type .varchar,
      .field "d" 3, .field "e" 4, .field "f" 5, .field "g" 6]) =
        .error (.depthExceeded 0) := ⟨rfl, rfl⟩

end Planner

end RowPlan
