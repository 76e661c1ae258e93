import RowPlan.Proofs.Courses
import RowPlan.Proofs.Dispatch

/-! What recipes keep to, on whichever of their ways the answers send them: the expressions that
they hand over and the errors that they raise themselves. Table rules hand over arguments of the
call that they are asked about, and raise errors about that call alone. -/
namespace RowPlan

namespace Recipe
variable {α β : Type} {hands hands' : Expr → Prop} {raises raises' : LowerError → Prop}

/-- Whatever it is answered, the recipe hands over and raises nothing else. -/
def Within (hands : Expr → Prop) (raises : LowerError → Prop) : Recipe α → Prop
  | done _ => True
  | fail error => raises error
  | lower e next => hands e ∧ ∀ n, (next n).Within hands raises
  | build _ next => ∀ n, (next n).Within hands raises

theorem within_any (r : Recipe α) : r.Within (fun _ => True) fun _ => True := by
  induction r with
  | done a => trivial
  | fail error => trivial
  | lower e next ih => exact ⟨trivial, ih⟩
  | build request next ih => exact ih

theorem Within.mono {r : Recipe α} (h : r.Within hands raises) (hhands : ∀ e, hands e → hands' e)
    (hraises : ∀ error, raises error → raises' error) : r.Within hands' raises' := by
  induction r with
  | done a => trivial
  | fail error => exact hraises error h
  | lower e next ih => exact ⟨hhands e h.1, fun n => ih n (h.2 n)⟩
  | build request next ih => exact fun n => ih n (h n)

theorem Within.bind {r : Recipe α} {f : α → Recipe β} (h : r.Within hands raises)
    (hf : ∀ a, (f a).Within hands raises) : (r.bind f).Within hands raises := by
  induction r with
  | done a => exact hf a
  | fail error => exact h
  | lower e next ih => exact ⟨h.1, fun n => ih n (h.2 n)⟩
  | build request next ih => exact fun n => ih n (h n)

/-- A failure is one that the recipe raises, or that of an expression that it has handed over. -/
theorem Within.raises_of_perform {r : Recipe α} (h : r.Within hands raises)
    {lowering : Expr → Logged Request Node}
    (hlowering : ∀ e, hands e → ∀ error, (lowering e).outcome = .error error → raises error)
    {builder : Builder} {error : LowerError}
    (herror : (r.perform lowering builder).outcome = .error error) : raises error := by
  induction r with
  | done a => cases herror
  | fail error' =>
    cases herror
    exact h
  | lower e next ih =>
    rw [perform, Logged.outcome_bind] at herror
    cases houtcome : (lowering e).outcome with
    | error error' =>
      rw [houtcome] at herror
      cases herror
      exact hlowering e h.1 error houtcome
    | ok n =>
      rw [houtcome] at herror
      exact ih n (h.2 n) herror
  | build request next ih => exact ih (builder request) (h (builder request)) herror

end Recipe

/-- The errors about a call: a wrong number of its arguments, and a configuration argument that is
missing. -/
inductive LowerError.IsAbout (call : Call) : LowerError → Prop where
  | arity (expected : Arity) : IsAbout call (.arity call.function expected call.args.length)
  | slot (behavior : String) : IsAbout call (.missingConfiguration call.function behavior)

section
variable {hands : Expr → Prop} {raises : LowerError → Prop}

/-- A stage that lowers and reports nothing else. -/
def Stage.Within (hands : Expr → Prop) (raises : LowerError → Prop) : Stage → Prop
  | check c => raises c.error
  | operand e => hands e
  | flag _ => True

theorem Stage.within_flagOf {α : Type} (flag : α → Flag) (read : Option α) :
    ∀ s ∈ flagOf flag read, s.Within hands raises := by
  intro s hs
  obtain ⟨a, -, rfl⟩ := List.mem_map.mp hs
  trivial

theorem Stage.within_operands {es : List Expr} (h : ∀ e ∈ es, hands e) :
    ∀ s ∈ es.map Stage.operand, s.Within hands raises :=
  List.forall_mem_map.mpr h

theorem Stage.within_recipes {ss : List Stage} (h : ∀ s ∈ ss, s.Within hands raises) :
    (recipes ss).Within hands raises := by
  induction ss with
  | nil => trivial
  | cons s ss ih =>
    obtain ⟨hs, hss⟩ := List.forall_mem_cons.mp h
    have hrest (ns : List Node) :
        ((recipes ss).bind fun ms => .done (ns ++ ms)).Within hands raises :=
      (ih hss).bind fun ms => trivial
    cases s with
    | check c =>
      cases hc : c.passes with
      | true =>
        rw [recipes_check_passed hc]
        exact ih hss
      | false =>
        rw [recipes_check_failed hc]
        exact hs
    | operand e => exact ⟨hs, fun n => hrest [n]⟩
    | flag f => exact fun n => hrest [n]

end

namespace JsonConversion
variable {hands : Expr → Prop} {raises : LowerError → Prop}

theorem within_clauseStages (f : BuiltIn) (slot : String) (behavior value : Expr)
    (clause : Flag.Clause) (hslot : raises (.missingConfiguration f slot)) (hvalue : hands value) :
    ∀ s ∈ clauseStages f slot behavior value clause, s.Within hands raises := by
  have hused : ∀ e ∈ usedDefault behavior value, hands e := by
    intro e he
    rw [eq_of_mem_usedDefault he]
    exact hvalue
  simp only [clauseStages, List.forall_mem_cons, List.forall_mem_append]
  exact ⟨hslot, ⟨Stage.within_flagOf _ _, Stage.within_operands hused⟩, trivial,
    List.forall_mem_nil _⟩

theorem within_stages (k : JsonConversion) (call : Call) :
    ∀ s ∈ k.stages call.function call.args, s.Within (· ∈ call.args) (·.IsAbout call) := by
  obtain ⟨f, args⟩ := call
  have hslot (slot : String) : (LowerError.missingConfiguration f slot).IsAbout ⟨f, args⟩ :=
    .slot slot
  -- The arms are the numbers of arguments that are accepted, the last one is for all others.
  change ∀ s ∈ k.stages f args, s.Within (· ∈ args) (·.IsAbout ⟨f, args⟩)
  unfold stages
  split
  · simp only [List.forall_mem_cons]
    exact ⟨by simp [Stage.Within], by simp [Stage.Within], List.forall_mem_nil _⟩
  · simp only [List.forall_mem_append, List.forall_mem_cons]
    exact ⟨⟨by simp [Stage.Within], by simp [Stage.Within], hslot _, List.forall_mem_nil _⟩,
      Stage.within_flagOf _ _⟩
  · simp only [List.forall_mem_append, List.forall_mem_cons]
    exact ⟨⟨⟨⟨by simp [Stage.Within], by simp [Stage.Within], hslot _, hslot _, hslot _,
      List.forall_mem_nil _⟩, Stage.within_flagOf _ _⟩, Stage.within_flagOf _ _⟩,
      Stage.within_flagOf _ _⟩
  · simp only [List.forall_mem_append, List.forall_mem_cons]
    exact ⟨⟨⟨hslot _, by simp [Stage.Within], by simp [Stage.Within], List.forall_mem_nil _⟩,
      within_clauseStages _ _ _ _ _ (hslot _) (by simp)⟩,
      within_clauseStages _ _ _ _ _ (hslot _) (by simp)⟩
  · exact List.forall_mem_nil _

end JsonConversion

namespace Handler

theorem within_stages (h : Handler) (call : Call) :
    ∀ s ∈ h.stages call, s.Within (· ∈ call.args) (·.IsAbout call) := by
  have hcount (arity : Arity) : (LowerError.arity call.function arity call.args.length).IsAbout
    call := .arity arity
  cases h with
  | operator op arity =>
    exact List.forall_mem_cons.mpr ⟨hcount arity, Stage.within_operands fun e he => he⟩
  | identity =>
    exact List.forall_mem_cons.mpr ⟨hcount _, Stage.within_operands fun e he => he⟩
  | conversion k => exact List.forall_mem_cons.mpr ⟨hcount k.arity, k.within_stages call⟩

/-- Every handler keeps to the call that it is asked about. -/
theorem within_recipe (h : Handler) (call : Call) :
    (h.recipe call).Within (· ∈ call.args) (·.IsAbout call) := by
  cases h with
  | operator op arity =>
    change (operatorRecipe op arity call).Within _ _
    rw [operatorRecipe_eq_course]
    exact (Stage.within_recipes ((operator op arity).within_stages call)).bind fun ns n => trivial
  | conversion k =>
    change (k.recipe call).Within _ _
    rw [k.recipe_eq_course]
    exact (Stage.within_recipes ((conversion k).within_stages call)).bind fun ns n => trivial
  | identity =>
    -- The only argument is read once the number of arguments has been found to be one.
    obtain ⟨f, args⟩ := call
    match args with
    | [] => exact .arity (.exactly 1)
    | [e] => exact ⟨List.mem_cons_self, fun n => trivial⟩
    | e :: e' :: rest => exact .arity (.exactly 1)

end Handler

/-- A table rule keeps to the call that it is asked about. -/
theorem TableRule.within (rule : TableRule) (call : Call) :
    (rule.toRule call).Within (· ∈ call.args) (·.IsAbout call) := by
  rw [toRule, Rule.ofTable]
  cases rule.handler? call.function with
  | none => trivial
  | some h => exact (h.within_recipe call).bind fun n => trivial

/-- Where no rule takes the call, the error is that its function is not supported. -/
theorem within_select {hands : Expr → Prop} {raises : LowerError → Prop} {rules : List Rule}
    {call : Call} (h : ∀ rule ∈ rules, (rule call).Within hands raises)
    (hunsupported : raises (.unsupportedFunction call.function)) :
    (select rules call).Within hands raises := by
  induction rules with
  | nil => exact hunsupported
  | cons rule rules ih =>
    obtain ⟨hrule, hrules⟩ := List.forall_mem_cons.mp h
    refine hrule.bind fun answer => ?_
    cases answer with
    | some n => trivial
    | none => exact ih hrules

end RowPlan
