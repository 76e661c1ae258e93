import RowPlan.Proofs.Confined
import RowPlan.Proofs.Interchangeable
import RowPlan.Proofs.Lists
import RowPlan.Proofs.ValueClauses

/-! Lowering does not look at the surroundings. An expression found at a depth is lowered as it
would be on its own under the limit that is left, up to the limit that depth errors mention. So of
an expression that stands where the calls around it lower it, nothing but its own result counts. -/
namespace RowPlan

/-- The same error under another limit, which only depth errors mention. -/
def LowerError.withLimit (limit : ℕ) : LowerError → LowerError
  | depthExceeded _ => .depthExceeded limit
  | error => error

/-- The same log, with the error rewritten if there is one. -/
def Logged.mapError {ε α : Type} (f : LowerError → LowerError) (x : Logged ε α) : Logged ε α :=
  ⟨x.log, x.outcome.mapError f⟩

theorem Logged.mapError_bind {ε α β : Type} (f : LowerError → LowerError) (x : Logged ε α)
    (g : α → Logged ε β) :
    (x.bind g).mapError f = (x.mapError f).bind fun a => (g a).mapError f := by
  obtain ⟨log, outcome⟩ := x
  cases outcome with
  | ok a => rfl
  | error error => rfl

/-- The stage reports no error of its own that would be rewritten. -/
def Stage.Keeps (f : LowerError → LowerError) : Stage → Prop
  | check k => f k.error = k.error
  | _ => True

theorem LowerError.IsAbout.withLimit_eq {call : Call} {error : LowerError} (h : error.IsAbout call)
    (limit : ℕ) : error.withLimit limit = error := by
  cases h with
  | arity expected => rfl
  | slot behavior => rfl

section
variable {lowering : Expr → Logged Request Node} {builder : Builder}

/-- Stages rewrite the errors of their arguments' lowering where they report none themselves that
would be rewritten. -/
theorem Stage.perform_recipes_mapError {f : LowerError → LowerError} {ss : List Stage}
    (h : ∀ s ∈ ss, s.Keeps f) :
    (recipes ss).perform (fun e => (lowering e).mapError f) builder =
      ((recipes ss).perform lowering builder).mapError f := by
  induction ss with
  | nil => rfl
  | cons s ss ih =>
    have ih := ih fun t ht => h t (List.mem_cons_of_mem s ht)
    have hs : s.recipe.perform (fun e => (lowering e).mapError f) builder =
        (s.recipe.perform lowering builder).mapError f := by
      cases s with
      | check k =>
        cases hk : k.passes with
        | true =>
          rw [perform_check_passed hk, perform_check_passed hk]
          rfl
        | false =>
          rw [perform_check_failed hk, perform_check_failed hk]
          have hkeeps : f k.error = k.error := h (.check k) List.mem_cons_self
          exact congrArg Logged.fail hkeeps.symm
      | operand e =>
        rw [perform_operand, perform_operand, Logged.mapError_bind]
        rfl
      | flag f' => rfl
    -- Joining the operands of the first stage to those of the others cannot fail.
    rw [perform_recipes_cons, perform_recipes_cons, hs, ih, Logged.mapError_bind]
    congr 1
    funext ns
    rw [Logged.mapError_bind]
    rfl

namespace Handler

/-- The checks of a call count arguments and read configuration. None of them is about depth. -/
theorem keeps_of_mem_stages (h : Handler) (call : Call) (limit : ℕ) :
    ∀ s ∈ h.stages call, s.Keeps (.withLimit limit) := by
  intro s hs
  have hwithin := h.within_stages call s hs
  cases s with
  | check c => exact LowerError.IsAbout.withLimit_eq hwithin limit
  | operand e => trivial
  | flag f => trivial

theorem finish_mapError (h : Handler) (call : Call) (ns : List Node) (limit : ℕ) :
    (h.finish call ns).perform (fun e => (lowering e).mapError (.withLimit limit)) builder =
      ((h.finish call ns).perform lowering builder).mapError (.withLimit limit) := by
  cases h with
  | operator op arity => rfl
  | conversion k => rfl
  | identity => cases ns <;> rfl

/-- A handler has no depth errors of its own and passes on those of its arguments. -/
theorem perform_withLimit (h : Handler) (call : Call) (limit : ℕ) :
    (h.recipe call).perform (fun e => (lowering e).mapError (.withLimit limit)) builder =
      ((h.recipe call).perform lowering builder).mapError (.withLimit limit) := by
  rw [recipe_eq_stages, Recipe.perform_bind, Recipe.perform_bind, Logged.mapError_bind,
    Stage.perform_recipes_mapError (h.keeps_of_mem_stages call limit)]
  congr 1
  funext ns
  exact h.finish_mapError call ns limit

end Handler

end

/-- The argument between the others is lowered, whatever it is. -/
def Handler.LowersBetween (h : Handler) (f : BuiltIn) (before after : List Expr) : Prop :=
  ∀ e, e ∈ Stage.lowered (h.stages ⟨f, before ++ e :: after⟩)

/-- A call is none of its arguments. -/
theorem Expr.call_not_mem (f : BuiltIn) (args : List Expr) : Expr.call f args ∉ args := by
  intro h
  -- The arguments are smaller than the call.
  have hsize := List.sizeOf_lt_of_mem h
  rw [Expr.call.sizeOf_spec] at hsize
  omega

/-- Something else than the arguments around it is lowered between them. -/
theorem Handler.LowersBetween.not_subset {h : Handler} {f : BuiltIn} {before after : List Expr}
    (hlowers : h.LowersBetween f before after)
    (hsub : ∀ e, Stage.lowered (h.stages ⟨f, before ++ e :: after⟩) ⊆ before ++ after) : False :=
  Expr.call_not_mem f _ (hsub _ (hlowers (.call f (before ++ after))))

namespace JsonConversion
variable {f : BuiltIn} {json path onEmpty onError : Expr}

theorem lowered_exists_subset :
    Stage.lowered ((Handler.conversion jsonExists).stages ⟨f, [json, path, onError]⟩) ⊆
      [json, path] := by
  change Stage.lowered (jsonExists.stages f [json, path, onError]) ⊆ _
  rw [stages, Stage.lowered_append, Stage.lowered_flagOf]
  exact List.Subset.refl _

theorem lowered_query_subset {wrapping : Expr} :
    Stage.lowered ((Handler.conversion jsonQuery).stages
        ⟨f, [json, path, wrapping, onEmpty, onError]⟩) ⊆ [json, path] := by
  change Stage.lowered (jsonQuery.stages f [json, path, wrapping, onEmpty, onError]) ⊆ _
  rw [stages, Stage.lowered_append, Stage.lowered_append, Stage.lowered_append,
    Stage.lowered_flagOf, Stage.lowered_flagOf, Stage.lowered_flagOf]
  exact List.Subset.refl _

theorem lowered_value_subset {returning emptyDefault errorDefault : Expr} :
    Stage.lowered ((Handler.conversion jsonValue).stages
        ⟨f, [json, path, returning, onEmpty, emptyDefault, onError, errorDefault]⟩) ⊆
      [json, path, emptyDefault, errorDefault] := by
  intro e he
  change e ∈ Stage.lowered (jsonValue.stages f
    [json, path, returning, onEmpty, emptyDefault, onError, errorDefault]) at he
  rw [lowered_valueStages, List.mem_append, List.mem_append] at he
  rcases he with (he | he) | he
  · exact List.mem_append_left [emptyDefault, errorDefault] he
  · rw [eq_of_mem_usedDefault he]
    simp
  · rw [eq_of_mem_usedDefault he]
    simp

end JsonConversion

section
variable {lowering : Expr → Logged Request Node} {builder : Builder} {f : BuiltIn}
  {before after : List Expr} {e e' : Expr}

namespace JsonConversion

-- In each of the three the position decides: of a configuration argument nothing is lowered.
theorem perform_existsRecipe_between
    (ha : jsonExists.arity.accepts (before ++ e :: after).length = true)
    (h : (Handler.conversion jsonExists).LowersBetween f before after)
    (he : lowering e = lowering e') :
    (existsRecipe ⟨f, before ++ e :: after⟩).perform lowering builder =
      (existsRecipe ⟨f, before ++ e' :: after⟩).perform lowering builder := by
  rcases Arity.two_or_three_arguments ha with ⟨json, path, hargs⟩ | ⟨json, path, onError, hargs⟩
  · obtain ⟨i, hi, rfl, rfl⟩ := exists_position hargs
    match i, hi with
    | 0, rfl => exact Recipe.perform_existsRecipe_two_congr f he rfl
    | 1, rfl => exact Recipe.perform_existsRecipe_two_congr f rfl he
  · obtain ⟨i, hi, rfl, rfl⟩ := exists_position hargs
    match i, hi with
    | 0, rfl => exact Recipe.perform_existsRecipe_three_congr f he rfl rfl
    | 1, rfl => exact Recipe.perform_existsRecipe_three_congr f rfl he rfl
    | 2, rfl => exact (h.not_subset fun x => lowered_exists_subset).elim

theorem perform_queryRecipe_between
    (ha : jsonQuery.arity.accepts (before ++ e :: after).length = true)
    (h : (Handler.conversion jsonQuery).LowersBetween f before after)
    (he : lowering e = lowering e') :
    (queryRecipe ⟨f, before ++ e :: after⟩).perform lowering builder =
      (queryRecipe ⟨f, before ++ e' :: after⟩).perform lowering builder := by
  obtain ⟨json, path, wrapping, onEmpty, onError, hargs⟩ := Arity.five_arguments ha
  obtain ⟨i, hi, rfl, rfl⟩ := exists_position hargs
  match i, hi with
  | 0, rfl => exact Recipe.perform_queryRecipe_congr f he rfl rfl rfl rfl
  | 1, rfl => exact Recipe.perform_queryRecipe_congr f rfl he rfl rfl rfl
  | 2, rfl | 3, rfl | 4, rfl =>
    refine (h.not_subset fun x => List.Subset.trans lowered_query_subset ?_).elim
    simp

theorem perform_valueRecipe_between
    (ha : jsonValue.arity.accepts (before ++ e :: after).length = true)
    (h : (Handler.conversion jsonValue).LowersBetween f before after)
    (he : lowering e = lowering e') :
    (valueRecipe ⟨f, before ++ e :: after⟩).perform lowering builder =
      (valueRecipe ⟨f, before ++ e' :: after⟩).perform lowering builder := by
  obtain ⟨json, path, returning, onEmpty, emptyDefault, onError, errorDefault, hargs⟩ :=
    Arity.seven_arguments ha
  obtain ⟨i, hi, rfl, rfl⟩ := exists_position hargs
  match i, hi with
  | 0, rfl =>
    exact Recipe.perform_valueRecipe_congr f he rfl rfl rfl (fun _ => rfl) rfl fun _ => rfl
  | 1, rfl =>
    exact Recipe.perform_valueRecipe_congr f rfl he rfl rfl (fun _ => rfl) rfl fun _ => rfl
  | 4, rfl =>
    exact Recipe.perform_valueRecipe_congr f rfl rfl rfl rfl (fun _ => he) rfl fun _ => rfl
  | 6, rfl =>
    exact Recipe.perform_valueRecipe_congr f rfl rfl rfl rfl (fun _ => rfl) rfl fun _ => he
  | 2, rfl | 3, rfl | 5, rfl =>
    refine (h.not_subset fun x => List.Subset.trans lowered_value_subset ?_).elim
    simp

/-- Where a conversion lowers an argument, nothing else about that argument counts. -/
theorem perform_between (k : JsonConversion)
    (h : (Handler.conversion k).LowersBetween f before after) (he : lowering e = lowering e') :
    (k.recipe ⟨f, before ++ e :: after⟩).perform lowering builder =
      (k.recipe ⟨f, before ++ e' :: after⟩).perform lowering builder := by
  cases ha : k.arity.accepts (before ++ e :: after).length with
  | false =>
    apply perform_rejected_congr _ ha
    rw [List.length_append, List.length_append, List.length_cons, List.length_cons]
  | true =>
    cases k with
    | jsonExists => exact perform_existsRecipe_between ha h he
    | jsonQuery => exact perform_queryRecipe_between ha h he
    | jsonValue => exact perform_valueRecipe_between ha h he

end JsonConversion

/-- Where a handler lowers an argument, only the lowering of that argument counts. -/
theorem Handler.perform_between (h : Handler) (hlowers : h.LowersBetween f before after)
    (he : lowering e = lowering e') :
    (h.recipe ⟨f, before ++ e :: after⟩).perform lowering builder =
      (h.recipe ⟨f, before ++ e' :: after⟩).perform lowering builder := by
  cases h with
  | operator op arity =>
    apply Recipe.perform_operatorRecipe_congr
    · simp
    · rw [List.map_append, List.map_append, List.map_cons, List.map_cons, he]
  | conversion k => exact k.perform_between hlowers he
  | identity =>
    match before, after with
    | [], [] =>
      change (Recipe.lowered e).perform lowering builder = (Recipe.lowered e').perform _ _
      rw [Recipe.perform_lowered, Recipe.perform_lowered, he]
    | [], a :: after => rfl
    | [a], after => rfl
    | a :: b :: before, after =>
      have hlength : (before ++ e :: after).length = (before ++ e' :: after).length := by simp
      change Logged.fail (.arity f (.exactly 1) ((before ++ e :: after).length + 2)) = _
      rw [hlength]
      rfl

theorem Handler.outcome_perform_between (h : Handler) (hlowers : h.LowersBetween f before after)
    (he : (lowering e).outcome = (lowering e').outcome) :
    ((h.recipe ⟨f, before ++ e :: after⟩).perform lowering builder).outcome =
      ((h.recipe ⟨f, before ++ e' :: after⟩).perform lowering builder).outcome := by
  -- With the requests of the arguments left out, equal outcomes are all there is to them.
  rw [← Recipe.outcome_perform_silent lowering builder (h.recipe ⟨f, before ++ e :: after⟩),
    ← Recipe.outcome_perform_silent lowering builder (h.recipe ⟨f, before ++ e' :: after⟩)]
  apply congrArg Logged.outcome
  apply h.perform_between hlowers
  exact congrArg (Logged.mk []) he

end

/-- A call around an expression: its function and its other arguments. -/
structure Enclosing where
  function : BuiltIn
  before : List Expr
  after : List Expr

namespace Enclosing

def call (x : Enclosing) (e : Expr) : Expr := .call x.function (x.before ++ e :: x.after)

/-- The first rule that claims the function lowers the argument between the others. -/
def LowersHole (rules : List TableRule) (x : Enclosing) : Prop :=
  ∃ h, claimant? rules x.function = some h ∧ h.LowersBetween x.function x.before x.after

end Enclosing

/-- An expression with calls around it, the outermost first. -/
def Expr.within (path : List Enclosing) (e : Expr) : Expr := path.foldr Enclosing.call e

namespace Planner

section
variable (rules : List TableRule) (builder : Builder)

/-- The limit of a planner shows in nothing but the errors that mention it. -/
theorem lowerWithin_withLimit (limit limit' levels : ℕ) (e : Expr) :
    (ofTablesWith rules builder limit).lowerWithin levels e =
      ((ofTablesWith rules builder limit').lowerWithin levels e).mapError (.withLimit limit) := by
  -- Both walks have the same levels left, so they come to their depth errors together.
  induction levels generalizing e with
  | zero =>
    rw [lowerWithin_zero, lowerWithin_zero]
    rfl
  | succ levels ih =>
    cases e with
    | field name index => rfl
    | literal value => rfl
    | type t => rfl
    | call f args =>
      cases hf : claimant? rules f with
      | none =>
        rw [lowerWithin_unclaimed builder limit levels hf,
          lowerWithin_unclaimed builder limit' levels hf]
        rfl
      | some h =>
        have hbelow : (ofTablesWith rules builder limit).lowerWithin levels = fun e =>
            ((ofTablesWith rules builder limit').lowerWithin levels e).mapError
              (.withLimit limit) := funext ih
        rw [lowerWithin_claimed builder limit levels hf,
          lowerWithin_claimed builder limit' levels hf, hbelow, h.perform_withLimit]

theorem lowerAt_eq_mapError_lower {limit depth : ℕ} (hd : depth ≤ limit) (e : Expr) :
    (ofTablesWith rules builder limit).lowerAt depth e =
      ((ofTablesWith rules builder (limit - depth)).lower e).mapError (.withLimit limit) := by
  have hlevels : limit + 1 - depth = limit - depth + 1 := by omega
  calc (ofTablesWith rules builder limit).lowerAt depth e
      = (ofTablesWith rules builder limit).lowerWithin (limit - depth + 1) e :=
        congrArg (fun levels => (ofTablesWith rules builder limit).lowerWithin levels e) hlevels
    _ = ((ofTablesWith rules builder (limit - depth)).lowerWithin (limit - depth + 1) e).mapError
          (.withLimit limit) := lowerWithin_withLimit rules builder limit (limit - depth) _ e

variable {rules builder}

/-- One call around two expressions of the same outcome keeps the outcome the same. -/
theorem outcome_lowerWithin_call {x : Enclosing} (hx : x.LowersHole rules) {limit levels : ℕ}
    {e e' : Expr}
    (h : ((ofTablesWith rules builder limit).lowerWithin levels e).outcome =
      ((ofTablesWith rules builder limit).lowerWithin levels e').outcome) :
    ((ofTablesWith rules builder limit).lowerWithin (levels + 1) (x.call e)).outcome =
      ((ofTablesWith rules builder limit).lowerWithin (levels + 1) (x.call e')).outcome := by
  obtain ⟨handler, hf, hlowers⟩ := hx
  rw [Enclosing.call, Enclosing.call, lowerWithin_claimed builder limit levels hf,
    lowerWithin_claimed builder limit levels hf]
  exact handler.outcome_perform_between hlowers h

theorem outcome_lowerWithin_within {path : List Enclosing}
    (hpath : ∀ x ∈ path, x.LowersHole rules) {limit levels : ℕ} {e e' : Expr}
    (h : ((ofTablesWith rules builder limit).lowerWithin levels e).outcome =
      ((ofTablesWith rules builder limit).lowerWithin levels e').outcome) :
    ((ofTablesWith rules builder limit).lowerWithin (levels + path.length)
        (e.within path)).outcome =
      ((ofTablesWith rules builder limit).lowerWithin (levels + path.length)
        (e'.within path)).outcome := by
  induction path with
  | nil => exact h
  | cons x path ih =>
    obtain ⟨hx, hpath⟩ := List.forall_mem_cons.mp hpath
    exact outcome_lowerWithin_call hx (ih hpath)

/-- Lowering depends neither on the depth nor on the surroundings of an expression. At a depth it is
what it is on its own under the limit that is left, except that depth errors mention the full limit;
and within calls that lower it an expression can be exchanged for another with the same result. -/
theorem lowerAt_eq_lower_and_convert_within_eq (rules : List TableRule) (builder : Builder)
    (limit : ℕ) :
    (∀ depth ≤ limit, ∀ e, (ofTablesWith rules builder limit).lowerAt depth e =
      ((ofTablesWith rules builder (limit - depth)).lower e).mapError (.withLimit limit)) ∧
    ∀ path : List Enclosing, path.length ≤ limit → (∀ x ∈ path, x.LowersHole rules) →
      ∀ e e', (ofTablesWith rules builder (limit - path.length)).convert e =
          (ofTablesWith rules builder (limit - path.length)).convert e' →
        (ofTablesWith rules builder limit).convert (e.within path) =
          (ofTablesWith rules builder limit).convert (e'.within path) := by
  refine ⟨fun depth hd e => lowerAt_eq_mapError_lower rules builder hd e, ?_⟩
  intro path hlength hpath e e' h
  have hlevels : limit + 1 = limit - path.length + 1 + path.length := by omega
  have hhole :
      ((ofTablesWith rules builder limit).lowerWithin (limit - path.length + 1) e).outcome =
      ((ofTablesWith rules builder limit).lowerWithin (limit - path.length + 1) e').outcome := by
    rw [lowerWithin_withLimit rules builder limit (limit - path.length),
      lowerWithin_withLimit rules builder limit (limit - path.length)]
    exact congrArg (Except.mapError (LowerError.withLimit limit)) h
  have hwhole := outcome_lowerWithin_within hpath hhole
  rw [← hlevels] at hwhole
  exact hwhole

/-- Two expressions that are both too deep on their own fail alike as the default value of a clause,
below an identity call and as the document of a query, now with the full limit. -/
theorem lowerAt_eq_lower_and_convert_within_eq_too_deep :
    let path : List Enclosing := [
      ⟨.jsonValue, [.field "j" 0, .literal (.string "$"), .type .varchar,
        .literal (.symbol (.valueFallback .null)), .type .double,
        .literal (.symbol (.valueFallback .default))], []⟩,
      ⟨.lower, [], []⟩,
      ⟨.jsonQuery, [], [.literal (.string "$"), .literal (.symbol (.wrapper .withoutArray)),
        .literal (.symbol (.queryFallback .null)), .literal (.symbol (.queryFallback .null))]⟩]
    let e : Expr := .call .not [.field "a" 0]
    let e' : Expr := .call .concat [.call .not [], .type .double]
    let p (limit : ℕ) := ofTablesWith [.identity .lower, .direct, .customized .standard]
      Request.node limit
    (path.length ≤ 3 ∧
        ∀ x ∈ path, x.LowersHole [.identity .lower, .direct, .customized .standard]) ∧
      (p 3).lowerAt 3 e = ((p 0).lower e).mapError (.withLimit 3) ∧
      (p 0).convert e = (p 0).convert e' ∧
      (p 3).convert (e.within path) = (p 3).convert (e'.within path) ∧
      (p 3).convert (e.within path) = .error (.depthExceeded 3) := by
  intro path e e' p
  have hpath : ∀ x ∈ path, x.LowersHole [.identity .lower, .direct, .customized .standard] := by
    simp only [path, List.forall_mem_cons]
    refine ⟨⟨.conversion .jsonValue, rfl, ?_⟩, ⟨.identity, rfl, ?_⟩,
      ⟨.conversion .jsonQuery, rfl, ?_⟩, List.forall_mem_nil _⟩
    · intro e
      change e ∈ [.field "j" 0, .literal (.string "$"), e]
      simp
    · intro e
      exact List.mem_singleton_self e
    · intro e
      exact List.mem_cons_self
  obtain ⟨hdepth, hwithin⟩ := lowerAt_eq_lower_and_convert_within_eq
    [.identity .lower, .direct, .customized .standard] Request.node 3
  have hsame : (p 0).convert e = (p 0).convert e' := rfl
  exact ⟨⟨Nat.le_refl 3, hpath⟩, hdepth 3 (Nat.le_refl 3) e, hsame,
    hwithin path (Nat.le_refl 3) hpath e e' hsame, rfl⟩

end

end Planner

end RowPlan
