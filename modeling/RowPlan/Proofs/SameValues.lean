import Mathlib.Data.List.Forall2
import RowPlan.Proofs.Courses
import RowPlan.Proofs.Dispatch

/-! Lowering and the equality of trees in which doubles are compared as numbers. Two trees that are
equal in this way need not be the same, as zero has two signs, and a tree need not equal itself, as
no NaN does. Whatever the rules of tables look at is the same in equal expressions, so lowering two
of them takes the same course, up to operands that are equal again or to the same error. -/
namespace RowPlan

theorem Double.sameValue_self_iff (d : Double) : d.sameValue d = true ↔ d.isNaN = false := by
  simp [sameValue]

theorem Literal.sameValue_self_iff {σ : Type} [DecidableEq σ] (v : Literal σ) :
    v.sameValue v = true ↔ ∀ d, v = .double d → d.isNaN = false := by
  cases v with
  | double d =>
    constructor
    · rintro h _ ⟨⟩
      exact d.sameValue_self_iff.mp h
    · intro h
      exact d.sameValue_self_iff.mpr (h d rfl)
  | null => exact iff_of_true rfl nofun
  | boolean b => exact iff_of_true (by simp [sameValue]) nofun
  | integer n => exact iff_of_true (by simp [sameValue]) nofun
  | string s => exact iff_of_true (by simp [sameValue]) nofun
  | symbol s => exact iff_of_true (by simp [sameValue]) nofun

/-- Only doubles are compared otherwise than by being the same. -/
theorem Literal.sameValue_cases {σ : Type} [DecidableEq σ] {v w : Literal σ}
    (h : v.sameValue w = true) :
    v = w ∨ ∃ d e, v = .double d ∧ w = .double e ∧ d.sameValue e = true := by
  cases v with
  | double d =>
    cases w with
    | double e => exact Or.inr ⟨d, e, rfl, rfl, h⟩
    | _ => exact Or.inl (of_decide_eq_true h)
  | _ => exact Or.inl (of_decide_eq_true h)

namespace Expr

/-- The expressions are equal, doubles being compared as numbers. -/
def SameValue (e e' : Expr) : Prop := e.sameValue e' = true

theorem sameValues_iff {es es' : List Expr} :
    sameValues es es' = true ↔ List.Forall₂ SameValue es es' := by
  induction es generalizing es' with
  | nil => cases es' <;> simp [sameValues]
  | cons e es ih =>
    cases es' with
    | nil => simp [sameValues]
    | cons e' es' =>
      rw [sameValues, Bool.and_eq_true, List.forall₂_cons, ih]
      rfl

/-- Equal expressions are of one form. -/
@[elab_as_elim]
theorem SameValue.elim {motive : Expr → Expr → Prop} {e e' : Expr} (h : e.SameValue e')
    (field : ∀ name index, motive (.field name index) (.field name index))
    (literal : ∀ v w : Literal Symbol, v.sameValue w = true → motive (.literal v) (.literal w))
    (type : ∀ t, motive (.type t) (.type t))
    (call : ∀ f args args', List.Forall₂ SameValue args args' →
      motive (.call f args) (.call f args')) : motive e e' := by
  cases e with
  | field name index =>
    cases e' with
    | field name' index' =>
      obtain ⟨rfl, rfl⟩ : name = name' ∧ index = index' := by simpa [SameValue, sameValue] using h
      exact field name index
    | _ => cases h
  | literal v =>
    cases e' with
    | literal w => exact literal v w h
    | _ => cases h
  | type t =>
    cases e' with
    | type t' =>
      obtain rfl : t = t' := by simpa [SameValue, sameValue] using h
      exact type t
    | _ => cases h
  | call f args =>
    cases e' with
    | call f' args' =>
      obtain ⟨rfl, hargs⟩ : f = f' ∧ sameValues args args' = true := by
        simpa [SameValue, sameValue] using h
      exact call f args args' (sameValues_iff.mp hargs)
    | _ => cases h

section
variable {e e' : Expr}

theorem SameValue.symbol?_eq (h : e.SameValue e') : e.symbol? = e'.symbol? := by
  refine h.elim ?_ ?_ ?_ ?_
  · exact fun name index => rfl
  · intro v w hvw
    rcases Literal.sameValue_cases hvw with rfl | ⟨d, d', rfl, rfl, -⟩
    · rfl
    · rfl
  · exact fun t => rfl
  · exact fun f args args' hargs => rfl

theorem SameValue.sqlType?_eq (h : e.SameValue e') : e.sqlType? = e'.sqlType? := by
  refine h.elim ?_ ?_ ?_ ?_
  · exact fun name index => rfl
  · exact fun v w hvw => rfl
  · exact fun t => rfl
  · exact fun f args args' hargs => rfl

end

end Expr

namespace Node

/-- The row expressions are equal, doubles being compared as numbers. -/
def SameValue (n n' : Node) : Prop := n.sameValue n' = true

theorem sameValues_iff {ns ns' : List Node} :
    sameValues ns ns' = true ↔ List.Forall₂ SameValue ns ns' := by
  induction ns generalizing ns' with
  | nil => cases ns' <;> simp [sameValues]
  | cons n ns ih =>
    cases ns' with
    | nil => simp [sameValues]
    | cons n' ns' =>
      rw [sameValues, Bool.and_eq_true, List.forall₂_cons, ih]
      rfl

theorem sameValue_call_iff {op : Operator} {ns ns' : List Node} {type : Option SqlType} :
    SameValue (call op ns type) (call op ns' type) ↔ List.Forall₂ SameValue ns ns' := by
  rw [SameValue, sameValue, ← sameValues_iff]
  simp

theorem sameValue_flag (f : Flag) : SameValue (literal (.symbol f)) (literal (.symbol f)) := by
  simp [SameValue, sameValue, Literal.sameValue]

theorem sameValue_ofLiteral_iff (v : Literal Symbol) :
    SameValue (Request.ofLiteral v).node (Request.ofLiteral v).node ↔ v.sameValue v = true := by
  cases v with
  | double d => exact Iff.rfl
  | _ => exact iff_of_true (by simp [SameValue, sameValue, Literal.sameValue, Request.ofLiteral,
      Request.node]) (by simp [Literal.sameValue])

end Node

/-- Both succeed, with results that are related, or both fail with the same error. -/
inductive EndAlike {α : Type} (r : α → α → Prop) :
    Except LowerError α → Except LowerError α → Prop where
  | ok {a b : α} (h : r a b) : EndAlike r (.ok a) (.ok b)
  | error (error : LowerError) : EndAlike r (.error error) (.error error)

theorem EndAlike.bind {α β : Type} {r : α → α → Prop} {s : β → β → Prop}
    {x y : Except LowerError α} {f g : α → Except LowerError β} (h : EndAlike r x y)
    (hfg : ∀ a b, r a b → EndAlike s (f a) (g b)) : EndAlike s (x.bind f) (y.bind g) := by
  cases h with
  | ok h => exact hfg _ _ h
  | error error => exact .error error

/-- The same stage, up to the argument that it lowers. -/
inductive Stage.SameValue : Stage → Stage → Prop where
  | check (c : Check) : SameValue (.check c) (.check c)
  | operand {e e' : Expr} (h : e.SameValue e') : SameValue (.operand e) (.operand e')
  | flag (f : Flag) : SameValue (.flag f) (.flag f)

section
variable {f : BuiltIn} {args args' : List Expr}

theorem Stage.sameValue_operands (h : List.Forall₂ Expr.SameValue args args') :
    List.Forall₂ Stage.SameValue (args.map .operand) (args'.map .operand) := by
  rw [List.forall₂_map_left_iff, List.forall₂_map_right_iff]
  exact h.imp fun e e' he => .operand he

theorem Stage.sameValue_flagOf {α : Type} (flag : α → Flag) {read read' : Option α}
    (h : read = read') :
    List.Forall₂ Stage.SameValue (flagOf flag read) (flagOf flag read') := by
  subst h
  cases read with
  | none => exact .nil
  | some a => exact .cons (.flag (flag a)) .nil

theorem Stage.sameValue_slot {α : Type} {read : Expr → Option α} {e e' : Expr}
    (h : read e = read e') (name : String) :
    Stage.SameValue (.check (.slot f read name e)) (.check (.slot f read name e')) := by
  rw [Check.slot, Check.slot, h]
  exact .check _

theorem sameValue_usedDefault {behavior behavior' value value' : Expr}
    (hbehavior : behavior.SameValue behavior') (hvalue : value.SameValue value') :
    List.Forall₂ Expr.SameValue (usedDefault behavior value) (usedDefault behavior' value') := by
  have hread : behavior.valueFallback? = behavior'.valueFallback? :=
    Expr.valueFallback?_congr hbehavior.symbol?_eq
  rw [usedDefault, usedDefault, ← hread]
  split
  · exact .cons hvalue .nil
  · exact .nil

namespace JsonConversion

theorem sameValue_clauseStages {behavior behavior' value value' : Expr} (slot : String)
    (marker : Flag.Clause) (hbehavior : behavior.SameValue behavior')
    (hvalue : value.SameValue value') :
    List.Forall₂ Stage.SameValue (clauseStages f slot behavior value marker)
      (clauseStages f slot behavior' value' marker) := by
  have hread : behavior.valueFallback? = behavior'.valueFallback? :=
    Expr.valueFallback?_congr hbehavior.symbol?_eq
  apply List.Forall₂.cons (Stage.sameValue_slot hread slot)
  apply List.rel_append
  · apply List.rel_append (Stage.sameValue_flagOf _ hread)
    exact Stage.sameValue_operands (sameValue_usedDefault hbehavior hvalue)
  · exact .cons (.flag _) .nil

/-- Equal arguments of an accepted number take a conversion through the same stages. -/
theorem sameValue_stages (k : JsonConversion) (f : BuiltIn)
    (h : List.Forall₂ Expr.SameValue args args') (hcount : k.arity.accepts args.length = true) :
    List.Forall₂ Stage.SameValue (k.stages f args) (k.stages f args') := by
  cases k with
  | jsonExists =>
    rcases Arity.two_or_three_arguments hcount with ⟨json, path, rfl⟩ | ⟨json, path, onError, rfl⟩
    · rcases h with _ | ⟨hjson, _ | ⟨hpath, _ | _⟩⟩
      exact .cons (.operand hjson) (.cons (.operand hpath) .nil)
    · rcases h with _ | ⟨hjson, _ | ⟨hpath, _ | ⟨honError, _ | _⟩⟩⟩
      have hread := Expr.existsFallback?_congr honError.symbol?_eq
      apply List.rel_append
      · exact .cons (.operand hjson) (.cons (.operand hpath)
          (.cons (Stage.sameValue_slot hread _) .nil))
      · exact Stage.sameValue_flagOf _ hread
  | jsonQuery =>
    obtain ⟨json, path, wrapping, onEmpty, onError, rfl⟩ := Arity.five_arguments hcount
    rcases h with _ | ⟨hjson, _ | ⟨hpath, _ | ⟨hwrapping, _ | ⟨honEmpty, _ | ⟨honError, _ | _⟩⟩⟩⟩⟩
    have hreadWrapping := Expr.wrapper?_congr hwrapping.symbol?_eq
    have hreadEmpty := Expr.queryFallback?_congr honEmpty.symbol?_eq
    have hreadError := Expr.queryFallback?_congr honError.symbol?_eq
    apply List.rel_append
    · apply List.rel_append
      · apply List.rel_append
        · exact .cons (.operand hjson) (.cons (.operand hpath)
            (.cons (Stage.sameValue_slot hreadWrapping _)
              (.cons (Stage.sameValue_slot hreadEmpty _)
                (.cons (Stage.sameValue_slot hreadError _) .nil))))
        · exact Stage.sameValue_flagOf _ hreadWrapping
      · exact Stage.sameValue_flagOf _ hreadEmpty
    · exact Stage.sameValue_flagOf _ hreadError
  | jsonValue =>
    obtain ⟨json, path, returning, onEmpty, emptyDefault, onError, errorDefault, rfl⟩ :=
      Arity.seven_arguments hcount
    rcases h with _ | ⟨hjson, _ | ⟨hpath, _ | ⟨hreturning, _ | ⟨honEmpty, _ | ⟨hemptyDefault,
      _ | ⟨honError, _ | ⟨herrorDefault, _ | _⟩⟩⟩⟩⟩⟩⟩
    apply List.rel_append
    · apply List.rel_append
      · exact .cons (Stage.sameValue_slot hreturning.sqlType?_eq _) (.cons (.operand hjson)
          (.cons (.operand hpath) .nil))
      · exact sameValue_clauseStages _ _ honEmpty hemptyDefault
    · exact sameValue_clauseStages _ _ honError herrorDefault

theorem returning?_eq (k : JsonConversion) (h : List.Forall₂ Expr.SameValue args args') :
    k.returning? args = k.returning? args' := by
  cases k with
  | jsonExists => rfl
  | jsonQuery => rfl
  | jsonValue =>
    -- The type is that of the third argument, if there are so many.
    rcases h with _ | ⟨-, _ | ⟨-, _ | ⟨hreturning, -⟩⟩⟩
    · rfl
    · rfl
    · rfl
    · exact hreturning.sqlType?_eq

end JsonConversion
end

section
variable {lowering : Expr → Logged Request Node}

/-- Lowering respects the equality of expressions. -/
def Respects (lowering : Expr → Logged Request Node) : Prop :=
  ∀ e e' : Expr, e.SameValue e' →
    EndAlike Node.SameValue (lowering e).outcome (lowering e').outcome

theorem Respects.stage (h : Respects lowering) {s s' : Stage} (hs : s.SameValue s') :
    EndAlike (List.Forall₂ Node.SameValue) (s.recipe.perform lowering Request.node).outcome
      (s'.recipe.perform lowering Request.node).outcome := by
  cases hs with
  | check c =>
    cases hc : c.passes with
    | true =>
      rw [Stage.perform_check_passed hc]
      exact .ok .nil
    | false =>
      rw [Stage.perform_check_failed hc]
      exact .error c.error
  | operand he =>
    rw [Stage.perform_operand, Stage.perform_operand, Logged.outcome_bind, Logged.outcome_bind]
    exact (h _ _ he).bind fun n n' hn => .ok (.cons hn .nil)
  | flag f =>
    rw [Stage.perform_flag]
    exact .ok (.cons (Node.sameValue_flag f) .nil)

theorem Respects.stages (h : Respects lowering) {ss ss' : List Stage}
    (hss : List.Forall₂ Stage.SameValue ss ss') :
    EndAlike (List.Forall₂ Node.SameValue)
      ((Stage.recipes ss).perform lowering Request.node).outcome
      ((Stage.recipes ss').perform lowering Request.node).outcome := by
  induction hss with
  | nil => exact .ok .nil
  | cons hs hss ih =>
    rw [Stage.perform_recipes_cons, Stage.perform_recipes_cons, Logged.outcome_bind,
      Logged.outcome_bind]
    refine (h.stage hs).bind fun ns ns' hns => ?_
    rw [Logged.outcome_bind, Logged.outcome_bind]
    exact ih.bind fun ms ms' hms => .ok (List.rel_append hns hms)

theorem Respects.course (h : Respects lowering) {ss ss' : List Stage}
    (hss : List.Forall₂ Stage.SameValue ss ss') (op : Operator) (type : Option SqlType) :
    EndAlike Node.SameValue ((Course.mk ss op type).recipe.perform lowering Request.node).outcome
      ((Course.mk ss' op type).recipe.perform lowering Request.node).outcome := by
  rw [Course.recipe, Course.recipe, Recipe.bind_eq, Recipe.bind_eq, Recipe.perform_bind,
    Recipe.perform_bind, Logged.outcome_bind, Logged.outcome_bind]
  refine (h.stages hss).bind fun ns ns' hns => .ok ?_
  rw [Course.request, Course.request]
  cases type with
  | none => exact Node.sameValue_call_iff.mpr hns
  | some t => exact Node.sameValue_call_iff.mpr hns

/-- Every handler treats calls of equal arguments alike. -/
theorem Respects.handler (h : Respects lowering) (handler : Handler) (f : BuiltIn)
    {args args' : List Expr} (hargs : List.Forall₂ Expr.SameValue args args') :
    EndAlike Node.SameValue ((handler.recipe ⟨f, args⟩).perform lowering Request.node).outcome
      ((handler.recipe ⟨f, args'⟩).perform lowering Request.node).outcome := by
  have hcount (arity : Arity) : Check.countOf arity ⟨f, args⟩ = Check.countOf arity ⟨f, args'⟩ := by
    rw [Check.countOf, Check.countOf, hargs.length_eq]
  cases handler with
  | operator op arity =>
    change EndAlike _ ((Handler.operatorRecipe op arity ⟨f, args⟩).perform _ _).outcome
      ((Handler.operatorRecipe op arity ⟨f, args'⟩).perform _ _).outcome
    rw [operatorRecipe_eq_course, operatorRecipe_eq_course, operatorCourse, operatorCourse,
      ← hcount]
    exact h.course (.cons (.check _) (Stage.sameValue_operands hargs)) op none
  | conversion k =>
    change EndAlike _ ((k.recipe ⟨f, args⟩).perform _ _).outcome
      ((k.recipe ⟨f, args'⟩).perform _ _).outcome
    cases haccepts : k.arity.accepts args.length with
    | false =>
      have haccepts' : k.arity.accepts args'.length = false := hargs.length_eq ▸ haccepts
      rw [k.recipe_of_rejected ⟨f, args⟩ haccepts, k.recipe_of_rejected ⟨f, args'⟩ haccepts',
        hargs.length_eq]
      exact .error _
    | true =>
      have haccepts' : k.arity.accepts args'.length = true := hargs.length_eq ▸ haccepts
      rw [k.recipe_of_accepted haccepts, k.recipe_of_accepted haccepts', k.returning?_eq hargs]
      exact h.course (k.sameValue_stages f hargs haccepts) _ _
  | identity =>
    rcases hargs with _ | ⟨he, _ | ⟨hnext, hrest⟩⟩
    · exact .error _
    · change EndAlike _ ((Recipe.lowered _).perform _ _).outcome
        ((Recipe.lowered _).perform _ _).outcome
      rw [Recipe.perform_lowered, Recipe.perform_lowered]
      exact h _ _ he
    · -- There is more than one argument, and the error tells how many.
      change EndAlike _ (Except.error (.arity f (.exactly 1) _))
        (Except.error (.arity f (.exactly 1) _))
      rw [List.length_cons, List.length_cons, hrest.length_eq]
      exact .error _

end

theorem Node.sameValue_ofLiteral {v w : Literal Symbol} (h : v.sameValue w = true) :
    Node.SameValue (Request.ofLiteral v).node (Request.ofLiteral w).node := by
  rcases Literal.sameValue_cases h with rfl | ⟨d, e, rfl, rfl, hde⟩
  · exact (Node.sameValue_ofLiteral_iff v).mpr h
  · exact hde

namespace Planner

/-- Equal expressions are lowered alike at every depth. -/
theorem respects_lowerWithin (rules : List TableRule) (limit levels : Nat) :
    Respects ((ofTables rules limit).lowerWithin levels) := by
  induction levels with
  | zero =>
    intro e e' _
    rw [lowerWithin_zero, lowerWithin_zero]
    exact .error _
  | succ levels ih =>
    intro e e' h
    refine h.elim ?_ ?_ ?_ ?_
    · exact fun name index => .ok (beq_self_eq_true index)
    · exact fun v w hvw => .ok (Node.sameValue_ofLiteral hvw)
    · exact fun t => .error _
    · intro f args args' hargs
      cases hf : claimant? rules f with
      | none =>
        have hfails (args : List Expr) :
            (ofTables rules limit).lowerWithin (levels + 1) (.call f args) =
              .fail (.unsupportedFunction f) :=
          lowerWithin_unclaimed Request.node limit levels hf args
        rw [hfails, hfails]
        exact .error _
      | some handler =>
        have hclaimed (args : List Expr) :
            (ofTables rules limit).lowerWithin (levels + 1) (.call f args) =
              (handler.recipe ⟨f, args⟩).perform ((ofTables rules limit).lowerWithin levels)
                Request.node :=
          lowerWithin_claimed Request.node limit levels hf args
        rw [hclaimed, hclaimed]
        exact ih.handler handler f hargs

end Planner
end RowPlan
