import RowPlan.Proofs.Courses
import RowPlan.Proofs.Lists
import RowPlan.Proofs.Reached

/-! The run of a course in any context, whatever it answers and even if it answers differently each
time. Stages complete one after the other up to the first that fails, if there is one. What the run
has logged by then is known step by step, and so is what it has handed over for lowering. -/
namespace RowPlan

namespace Context

/-- Lowering expressions in order gives nodes, after `count` others have been handed over. -/
inductive Lowers (c : Context) : (count : Nat) → List Expr → List Node → Prop where
  | nil {count : Nat} : Lowers c count [] []
  | cons {count : Nat} {e : Expr} {n : Node} {es : List Expr} {ns : List Node}
    (he : (c.lower count e).outcome = .ok n) (hes : Lowers c (count + 1) es ns) :
    Lowers c count (e :: es) (n :: ns)

/-- Lowering expressions in order succeeds up to the last, which fails with the given error. -/
def FailsAtLast (c : Context) (es : List Expr) (error : LowerError) : Prop :=
  ∃ before e ns, es = before ++ [e] ∧ c.Lowers 0 before ns ∧
    (c.lower before.length e).outcome = .error error

theorem lowers_append_iff {c : Context} {count : Nat} {es es' : List Expr} {ns ns' : List Node}
    (h : es.length = ns.length) :
    c.Lowers count (es ++ es') (ns ++ ns') ↔
      c.Lowers count es ns ∧ c.Lowers (count + es.length) es' ns' := by
  induction es generalizing count ns with
  | nil =>
    obtain rfl := List.length_eq_zero_iff.mp h.symm
    exact ⟨fun hes => ⟨.nil, hes⟩, fun hes => hes.2⟩
  | cons e es ih =>
    cases ns with
    | nil => cases h
    | cons n ns =>
      have hcount : count + (e :: es).length = count + 1 + es.length := by
        rw [List.length_cons]
        omega
      have ih : c.Lowers (count + 1) (es ++ es') (ns ++ ns') ↔
          c.Lowers (count + 1) es ns ∧ c.Lowers (count + 1 + es.length) es' ns' :=
        ih (Nat.succ.inj h)
      rw [hcount]
      constructor
      · rintro (_ | ⟨he, hes⟩)
        exact ⟨.cons he (ih.mp hes).1, (ih.mp hes).2⟩
      · rintro ⟨_ | ⟨he, hes⟩, hes'⟩
        exact .cons he (ih.mpr ⟨hes, hes'⟩)

end Context

namespace Logged
variable {ε α β : Type}

theorem handedOver_after_lowering (e : Expr) (x : Logged Step α) :
    (x.after (.lowering e)).handedOver = e :: x.handedOver := rfl

theorem handedOver_bind_of_ok {x : Logged Step α} {a : α} (h : x.outcome = .ok a)
    (f : α → Logged Step β) : (x.bind f).handedOver = x.handedOver ++ (f a).handedOver := by
  rw [bind_of_ok h]
  exact List.filterMap_append

theorem after_bind (entry : ε) (x : Logged ε α) (f : α → Logged ε β) :
    (x.after entry).bind f = (x.bind f).after entry := by
  obtain ⟨log, outcome⟩ := x
  cases outcome with
  | ok a => rfl
  | error error => rfl

end Logged

namespace Recipe
variable {α β : Type}

theorem run_build (c : Context) (request : Request) (next : Node → Recipe α) (count : Nat) :
    (build request next).run c count =
      ((next (c.builder request)).run c count).after (.request request) := rfl

/-- The second part of a sequence counts on from what the first has handed over. -/
theorem run_bind (c : Context) (r : Recipe α) (f : α → Recipe β) (count : Nat) :
    (r.bind f).run c count =
      (r.run c count).bind fun a => (f a).run c (count + (r.run c count).handedOver.length) := by
  induction r generalizing count with
  | done a => rfl
  | fail error => rfl
  | lower e next ih =>
    rw [Recipe.bind, run, run, Logged.after_bind, Logged.handedOver_after_lowering,
      Logged.bind_assoc]
    congr 1
    cases h : (c.lower count e).outcome with
    | error error =>
      have hx : ((c.lower count e).mapLog Step.request).outcome = .error error := h
      rw [Logged.bind_of_error hx, Logged.bind_of_error hx]
    | ok n =>
      have hx : ((c.lower count e).mapLog Step.request).outcome = .ok n := h
      -- The expression lowered here is one of those that the first part hands over.
      have hcount : count + (((next n).run c (count + 1)).handedOver.length + 1) =
          count + 1 + ((next n).run c (count + 1)).handedOver.length := by omega
      rw [Logged.handedOver_bind_of_ok hx, Logged.handedOver_mapLog_request, List.nil_append,
        List.length_cons, hcount, Logged.bind_of_ok hx, Logged.bind_of_ok hx, ih]
  | build request next ih =>
    rw [Recipe.bind, run_build, run_build, Logged.after_bind, ih]
    rfl

end Recipe

/-- A table rule runs its handler for the function, and declines at once if it has none. -/
theorem TableRule.run_toRule (c : Context) (rule : TableRule) (call : Call) :
    (rule.toRule call).run c 0 =
      match rule.handler? call.function with
      | some h => ((h.recipe call).run c 0).bind fun n => .pure (some n)
      | none => .pure none := by
  rw [toRule, Rule.ofTable]
  cases rule.handler? call.function with
  | none => rfl
  | some h => exact Recipe.run_bind c (h.recipe call) _ 0

namespace Stage

/-- The argument that a stage lowers. -/
def expr? : Stage → Option Expr
  | operand e => some e
  | _ => none

/-- The arguments that stages lower, in order. -/
def lowered (ss : List Stage) : List Expr := ss.filterMap expr?

/-- The steps logged on the way through stages. -/
def steps (c : Context) : (count : Nat) → List Stage → List Step
  | _, [] => []
  | count, check _ :: ss => steps c count ss
  | count, operand e :: ss =>
    .lowering e :: ((c.lower count e).log.map .request ++ steps c (count + 1) ss)
  | count, flag f :: ss => .request (.flag f) :: steps c count ss

/-- None of the stages fails, and these are the operands that they bring. -/
inductive Brings (c : Context) : (count : Nat) → List Stage → List Node → Prop where
  | nil {count : Nat} : Brings c count [] []
  | check {count : Nat} {k : Check} {ss : List Stage} {ns : List Node} (hk : k.passes = true)
    (hss : Brings c count ss ns) : Brings c count (check k :: ss) ns
  | operand {count : Nat} {e : Expr} {n : Node} {ss : List Stage} {ns : List Node}
    (he : (c.lower count e).outcome = .ok n) (hss : Brings c (count + 1) ss ns) :
    Brings c count (operand e :: ss) (n :: ns)
  | flag {count : Nat} {f : Flag} {ss : List Stage} {ns : List Node} (hss : Brings c count ss ns) :
    Brings c count (flag f :: ss) (c.builder (.flag f) :: ns)

/-- A stage fails by its check or by the lowering of its argument. -/
inductive FailsIn (c : Context) (count : Nat) : Stage → LowerError → Prop where
  | check {k : Check} (hk : k.passes = false) : FailsIn c count (check k) k.error
  | operand {e : Expr} {error : LowerError} (he : (c.lower count e).outcome = .error error) :
    FailsIn c count (operand e) error

section
variable {c : Context} {count : Nat} {ss : List Stage} {ns : List Node}

theorem lowered_cons_operand (e : Expr) (ss : List Stage) :
    lowered (operand e :: ss) = e :: lowered ss := rfl

theorem length_lowered_operand (e : Expr) (ss : List Stage) :
    count + (lowered (operand e :: ss)).length = count + 1 + (lowered ss).length := by
  rw [lowered_cons_operand, List.length_cons]
  omega

theorem run_recipes_operand (e : Expr) (ss : List Stage) :
    (recipes (operand e :: ss)).run c count =
      .after (.lowering e) (((c.lower count e).mapLog .request).bind fun n =>
        ((recipes ss).run c (count + 1)).bind fun ms => .pure (n :: ms)) := by
  change (Recipe.lower e fun n => (recipes ss).bind fun ms => .done (n :: ms)).run c count = _
  simp only [Recipe.run, Recipe.run_bind]

theorem run_recipes_flag (f : Flag) (ss : List Stage) :
    (recipes (flag f :: ss)).run c count =
      .after (.request (.flag f)) (((recipes ss).run c count).bind fun ms =>
        .pure (c.builder (.flag f) :: ms)) := by
  change (Recipe.build (.flag f) fun n =>
    (recipes ss).bind fun ms => .done (n :: ms)).run c count = _
  rw [Recipe.run_build, Recipe.run_bind]
  rfl

theorem run_recipes_of_brings (h : Brings c count ss ns) :
    (recipes ss).run c count = ⟨steps c count ss, .ok ns⟩ := by
  induction h with
  | nil => rfl
  | check hk hss ih =>
    rw [recipes_check_passed hk, ih]
    rfl
  | @operand count e n ss ns he hss ih =>
    have hx : ((c.lower count e).mapLog Step.request).outcome = .ok n := he
    rw [run_recipes_operand, Logged.bind_of_ok hx, ih, Logged.bind_of_ok rfl]
    simp only [Logged.pure, List.append_nil]
    rfl
  | flag hss ih =>
    rw [run_recipes_flag, ih, Logged.bind_of_ok rfl]
    simp only [Logged.pure, List.append_nil]
    rfl

theorem run_recipes_of_failsIn {s : Stage} {error : LowerError} (h : Brings c count ss ns)
    (hs : s.FailsIn c (count + (lowered ss).length) error) (ts : List Stage) :
    (recipes (ss ++ s :: ts)).run c count = ⟨steps c count (ss ++ [s]), .error error⟩ := by
  -- By induction on the stages in front, of which only operands move the count.
  induction h with
  | @nil count =>
    cases hs with
    | check hk =>
      rw [List.nil_append, recipes_check_failed hk]
      rfl
    | @operand e error he =>
      have hx : ((c.lower count e).mapLog Step.request).outcome = .error error := he
      rw [List.nil_append, run_recipes_operand, Logged.bind_of_error hx]
      simp only [List.nil_append, steps, List.append_nil]
      rfl
  | check hk hss ih =>
    rw [List.cons_append, recipes_check_passed hk, ih hs]
    rfl
  | @operand count e n ss ns he hss ih =>
    have hx : ((c.lower count e).mapLog Step.request).outcome = .ok n := he
    rw [length_lowered_operand] at hs
    rw [List.cons_append, run_recipes_operand, Logged.bind_of_ok hx, ih hs]
    rfl
  | flag hss ih =>
    rw [List.cons_append, run_recipes_flag, ih hs]
    rfl

/-- Either no stage fails, or there is a first that does. -/
theorem brings_or_failsIn (c : Context) (count : Nat) (ss : List Stage) :
    (∃ ns, Brings c count ss ns) ∨
      ∃ before s after ns error, ss = before ++ s :: after ∧ Brings c count before ns ∧
        s.FailsIn c (count + (lowered before).length) error := by
  induction ss generalizing count with
  | nil => exact Or.inl ⟨[], .nil⟩
  | cons s ss ih =>
    cases s with
    | check k =>
      cases hk : k.passes with
      | false => exact Or.inr ⟨[], _, ss, [], _, rfl, .nil, .check hk⟩
      | true =>
        rcases ih count with ⟨ns, hss⟩ | ⟨before, s, after, ns, error, rfl, hbefore, hs⟩
        · exact Or.inl ⟨ns, .check hk hss⟩
        · exact Or.inr ⟨_ :: before, s, after, ns, error, rfl, .check hk hbefore, hs⟩
    | operand e =>
      cases he : (c.lower count e).outcome with
      | error error => exact Or.inr ⟨[], _, ss, [], error, rfl, .nil, .operand he⟩
      | ok n =>
        rcases ih (count + 1) with ⟨ns, hss⟩ | ⟨before, s, after, ns, error, rfl, hbefore, hs⟩
        · exact Or.inl ⟨n :: ns, .operand he hss⟩
        · rw [← length_lowered_operand e] at hs
          exact Or.inr ⟨_ :: before, s, after, n :: ns, error, rfl, .operand he hbefore, hs⟩
    | flag f =>
      rcases ih count with ⟨ns, hss⟩ | ⟨before, s, after, ns, error, rfl, hbefore, hs⟩
      · exact Or.inl ⟨_ :: ns, .flag hss⟩
      · exact Or.inr ⟨_ :: before, s, after, _ :: ns, error, rfl, .flag hbefore, hs⟩

theorem Brings.append {ts : List Stage} {ms : List Node} (h : Brings c count ss ns)
    (hts : Brings c (count + (lowered ss).length) ts ms) :
    Brings c count (ss ++ ts) (ns ++ ms) := by
  induction h with
  | nil => exact hts
  | check hk hss ih => exact .check hk (ih hts)
  | operand he hss ih =>
    rw [length_lowered_operand] at hts
    exact .operand he (ih hts)
  | flag hss ih => exact .flag (ih hts)

theorem brings_append_iff {ts : List Stage} :
    Brings c count (ss ++ ts) ns ↔
      ∃ ms ls, ns = ms ++ ls ∧ Brings c count ss ms ∧
        Brings c (count + (lowered ss).length) ts ls := by
  constructor
  · intro h
    induction ss generalizing count ns with
    | nil => exact ⟨[], ns, rfl, .nil, h⟩
    | cons s ss ih =>
      cases h with
      | check hk h =>
        obtain ⟨ms, ls, rfl, hss, hts⟩ := ih h
        exact ⟨ms, ls, rfl, .check hk hss, hts⟩
      | operand he h =>
        obtain ⟨ms, ls, rfl, hss, hts⟩ := ih h
        rw [← length_lowered_operand] at hts
        exact ⟨_ :: ms, ls, rfl, .operand he hss, hts⟩
      | flag h =>
        obtain ⟨ms, ls, rfl, hss, hts⟩ := ih h
        exact ⟨_ :: ms, ls, rfl, .flag hss, hts⟩
  · rintro ⟨ms, ls, rfl, hss, hts⟩
    exact hss.append hts

theorem brings_operands_iff {es : List Expr} :
    Brings c count (es.map .operand) ns ↔ c.Lowers count es ns := by
  constructor
  · intro h
    induction es generalizing count ns with
    | nil =>
      cases h
      exact .nil
    | cons e es ih =>
      rcases h with _ | _ | ⟨he, hes⟩
      exact .cons he (ih hes)
  · intro h
    induction h with
    | nil => exact .nil
    | cons he hes ih => exact .operand he ih

theorem brings_flags_iff {fs : List Flag} :
    Brings c count (fs.map .flag) ns ↔ ns = fs.map fun f => c.builder (.flag f) := by
  induction fs generalizing ns with
  | nil =>
    constructor
    · rintro ⟨⟩
      rfl
    · rintro rfl
      exact .nil
  | cons f fs ih =>
    constructor
    · rintro (_ | _ | _ | h)
      rw [ih.mp h, List.map_cons]
    · rintro rfl
      exact .flag (ih.mpr rfl)

/-- The arguments of completed stages have been lowered one after the other. -/
theorem Brings.exists_lowers (h : Brings c count ss ns) :
    ∃ ms, c.Lowers count (lowered ss) ms := by
  induction h with
  | nil => exact ⟨[], .nil⟩
  | check hk hss ih => exact ih
  | operand he hss ih =>
    obtain ⟨ms, hms⟩ := ih
    exact ⟨_ :: ms, .cons he hms⟩
  | flag hss ih => exact ih

@[simp]
theorem lowered_append (ss ts : List Stage) : lowered (ss ++ ts) = lowered ss ++ lowered ts :=
  List.filterMap_append

@[simp]
theorem lowered_operands (es : List Expr) : lowered (es.map .operand) = es := by
  rw [lowered, List.filterMap_map]
  exact List.filterMap_some

@[simp]
theorem lowered_flags (fs : List Flag) : lowered (fs.map .flag) = [] := by
  rw [lowered, List.filterMap_map]
  exact List.filterMap_eq_nil_iff.mpr fun f _ => rfl

@[simp]
theorem lowered_flagOf {α : Type} (flag : α → Flag) (read : Option α) :
    lowered (flagOf flag read) = [] := by
  cases read with
  | none => rfl
  | some a => rfl

/-- What has been handed over on the way through stages is what they lower. -/
theorem handedOver_steps {α : Type} (c : Context) (count : Nat) (ss : List Stage)
    (outcome : Except LowerError α) :
    (Logged.mk (steps c count ss) outcome).handedOver = lowered ss := by
  change (steps c count ss).filterMap Step.expr? = _
  induction ss generalizing count with
  | nil => rfl
  | cons s ss ih =>
    cases s with
    | check k => exact ih count
    | operand e =>
      change e :: (_ ++ _ : List Step).filterMap Step.expr? = e :: lowered ss
      rw [List.filterMap_append, Step.filterMap_expr?_requests, ih, List.nil_append]
    | flag f => exact ih count

/-- Requests made afterwards hand nothing over. -/
theorem handedOver_steps_append {α : Type} (c : Context) (count : Nat) (ss : List Stage)
    (rs : List Request) (outcome : Except LowerError α) :
    (Logged.mk (steps c count ss ++ rs.map .request) outcome).handedOver = lowered ss := by
  have hsteps : (steps c count ss).filterMap Step.expr? = lowered ss :=
    handedOver_steps c count ss outcome
  change (steps c count ss ++ rs.map Step.request).filterMap Step.expr? = _
  rw [List.filterMap_append, hsteps, Step.filterMap_expr?_requests, List.append_nil]

end

end Stage

namespace Course
variable {c : Context} {k : Course}

theorem run_recipe (c : Context) (k : Course) :
    k.recipe.run c 0 = ((Stage.recipes k.stages).run c 0).bind fun operands =>
      ⟨[.request (k.request operands)], .ok (c.builder (k.request operands))⟩ := by
  rw [recipe, Recipe.bind_eq, Recipe.run_bind]
  rfl

theorem run_of_brings {ns : List Node} (h : Stage.Brings c 0 k.stages ns) :
    k.recipe.run c 0 =
      ⟨Stage.steps c 0 k.stages ++ [.request (k.request ns)], .ok (c.builder (k.request ns))⟩ := by
  rw [run_recipe, Stage.run_recipes_of_brings h, Logged.bind_of_ok rfl]

theorem run_of_failsIn {before after : List Stage} {s : Stage} {ns : List Node}
    {error : LowerError} (hstages : k.stages = before ++ s :: after)
    (hbefore : Stage.Brings c 0 before ns)
    (hs : s.FailsIn c (Stage.lowered before).length error) :
    k.recipe.run c 0 = ⟨Stage.steps c 0 (before ++ [s]), .error error⟩ := by
  have hs : s.FailsIn c (0 + (Stage.lowered before).length) error := by rwa [Nat.zero_add]
  rw [run_recipe, hstages, Stage.run_recipes_of_failsIn hbefore hs, Logged.bind_of_error rfl]

/-- Only stages that have all been completed lead to a row expression. -/
theorem exists_brings {n : Node} (h : (k.recipe.run c 0).outcome = .ok n) :
    ∃ ns, Stage.Brings c 0 k.stages ns ∧ c.builder (k.request ns) = n := by
  rcases Stage.brings_or_failsIn c 0 k.stages with
    ⟨ns, hns⟩ | ⟨before, s, after, ns, error, hsplit, hbefore, hs⟩
  · rw [run_of_brings hns] at h
    exact ⟨ns, hns, Except.ok.inj h⟩
  · rw [Nat.zero_add] at hs
    rw [run_of_failsIn hsplit hbefore hs] at h
    cases h

end Course
end RowPlan
