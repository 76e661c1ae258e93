import Mathlib.Data.List.Basic
import RowPlan.Proofs.Lowerable
import RowPlan.Proofs.Postorder

/-! The requests of a failed lowering. A failure lies at the end of a path of calls, each of which
has completed some of its stages and no more. What has been requested are the constructions of the
operands completed on that path, in its order, and between them the flags of the clauses that calls
of `JSON_VALUE` on it have reached. -/
namespace RowPlan

/-- The course of a call under the standard rules. -/
def Call.course (call : Call) : Course :=
  match call.function.direct? with
  | some (op, arity) => operatorCourse op arity call
  | none =>
    match call.function with
    | .jsonExists => JsonConversion.jsonExists.course call
    | .jsonValue => JsonConversion.jsonValue.course call
    | _ => JsonConversion.jsonQuery.course call

namespace Stage

/-- The stage does not fail, where arguments are lowered at the given depth. -/
def Completes (limit depth : Nat) : Stage → Prop
  | check c => c.passes = true
  | operand e => Lowerable limit depth e
  | flag _ => True

/-- What a completed stage has requested: for an argument, all that constructs its translation, which
is the row expression it has been lowered to. -/
def requests : Stage → List Request
  | check _ => []
  | operand e => e.translation.construction
  | flag f => [.flag f]

/-- What a completed stage has requested other than for an argument. -/
def ownRequests : Stage → List Request
  | operand _ => []
  | s => s.requests

end Stage

/-- A call that a failure is inside of, with the stages it has completed by then. -/
structure Frame where
  call : Call
  completed : List Stage

namespace Frame

def requests (x : Frame) : List Request := x.completed.flatMap Stage.requests

def ownRequests (x : Frame) : List Request := x.completed.flatMap Stage.ownRequests

end Frame

/-- An expression found at a depth fails with an error, at the end of a path of calls that starts
with the expression itself. -/
inductive Fails (limit : Nat) : (depth : Nat) → Expr → LowerError → List Frame → Prop where
  | depth {depth : Nat} (hd : limit < depth) (e : Expr) :
    Fails limit depth e (.depthExceeded limit) []
  | type {depth : Nat} (hd : depth ≤ limit) (t : SqlType) :
    Fails limit depth (.type t) (.unsupportedExpression "type literal") []
  | check {depth : Nat} (hd : depth ≤ limit) {f : BuiltIn} {args : List Expr}
    {before after : List Stage} {c : Check}
    (hstages : (Call.mk f args).course.stages = before ++ .check c :: after)
    (hbefore : ∀ s ∈ before, s.Completes limit (depth + 1)) (hc : c.passes = false) :
    Fails limit depth (.call f args) c.error [⟨⟨f, args⟩, before⟩]
  | operand {depth : Nat} (hd : depth ≤ limit) {f : BuiltIn} {args : List Expr}
    {before after : List Stage} {e : Expr} {error : LowerError} {path : List Frame}
    (hstages : (Call.mk f args).course.stages = before ++ .operand e :: after)
    (hbefore : ∀ s ∈ before, s.Completes limit (depth + 1))
    (he : Fails limit (depth + 1) e error path) :
    Fails limit depth (.call f args) error (⟨⟨f, args⟩, before⟩ :: path)

/-- A flag of a `JSON_VALUE` clause: its behavior or its marker. -/
def Request.IsClauseFlag (r : Request) : Prop :=
  (∃ b, r = .flag (.valueFallback b)) ∨ ∃ clause, r = .flag (.clause clause)

namespace Stage

theorem ownRequests_of_mem_flagOf {α : Type} {flag : α → Flag} {read : Option α} {s : Stage}
    (h : s ∈ flagOf flag read) : ∃ a, s.ownRequests = [.flag (flag a)] := by
  obtain ⟨a, -, rfl⟩ := List.mem_map.mp h
  exact ⟨a, rfl⟩

/-- Where all flags come last, none of them comes before a stage of another kind. -/
theorem quiet_before {quiet flags before after : List Stage} {s : Stage}
    (hquiet : ∀ t ∈ quiet, t.ownRequests = []) (hflags : ∀ t ∈ flags, t.ownRequests ≠ [])
    (h : quiet ++ flags = before ++ s :: after) (hs : s.ownRequests = []) :
    ∀ b ∈ before, b.ownRequests = [] := by
  rcases List.append_eq_append_iff.mp h with ⟨rest, -, hrest⟩ | ⟨rest, hrest, -⟩
  · have hmem : s ∈ flags := by
      rw [hrest]
      exact List.mem_append_right rest List.mem_cons_self
    exact absurd hs (hflags s hmem)
  · intro b hb
    apply hquiet
    rw [hrest]
    exact List.mem_append_left rest hb

end Stage

theorem operatorCourse_quiet (op : Operator) (arity : Arity) (call : Call) :
    ∀ t ∈ (operatorCourse op arity call).stages, t.ownRequests = [] := by
  rw [operatorCourse]
  simp only [List.forall_mem_cons, List.forall_mem_map]
  exact ⟨rfl, fun e he => rfl⟩

namespace JsonConversion

/-- Two of the conversions request their flags only when nothing can fail any more. -/
theorem flags_last (k : JsonConversion) (hk : k ≠ .jsonValue) (f : BuiltIn) (args : List Expr) :
    ∃ quiet flags, k.stages f args = quiet ++ flags ∧
      (∀ t ∈ quiet, t.ownRequests = []) ∧ ∀ t ∈ flags, t.ownRequests ≠ [] := by
  have hflag {α : Type} {flag : α → Flag} {read : Option α} :
      ∀ t ∈ Stage.flagOf flag read, t.ownRequests ≠ [] := by
    intro t ht
    obtain ⟨a, ha⟩ := Stage.ownRequests_of_mem_flagOf ht
    rw [ha]
    exact List.cons_ne_nil _ _
  unfold stages
  split
  · -- `JSON_EXISTS` without a behavior requests no flag.
    refine ⟨_, [], (List.append_nil _).symm, ?_, List.forall_mem_nil _⟩
    simp [Stage.ownRequests, Stage.requests]
  · -- With one, its flag is the last stage.
    refine ⟨_, _, rfl, ?_, hflag⟩
    simp [Stage.ownRequests, Stage.requests]
  · -- `JSON_QUERY` reads all three configuration arguments before the first flag.
    rw [List.append_assoc, List.append_assoc]
    refine ⟨_, _, rfl, ?_, ?_⟩
    · simp [Stage.ownRequests, Stage.requests]
    · simp only [List.forall_mem_append]
      exact ⟨hflag, hflag, hflag⟩
  · exact absurd rfl hk
  · -- Other numbers of arguments do not get past their check.
    exact ⟨[], [], rfl, List.forall_mem_nil _, List.forall_mem_nil _⟩

theorem isClauseFlag_of_mem_clauseStages {f : BuiltIn} {slot : String} {behavior value : Expr}
    {clause : Flag.Clause} :
    ∀ t ∈ clauseStages f slot behavior value clause, ∀ r ∈ t.ownRequests, r.IsClauseFlag := by
  intro t ht r hr
  simp only [clauseStages, List.mem_cons, List.mem_append, List.mem_map, List.not_mem_nil,
    or_false] at ht
  rcases ht with rfl | (ht | ⟨e, -, rfl⟩) | rfl
  · cases hr
  · obtain ⟨b, hb⟩ := Stage.ownRequests_of_mem_flagOf ht
    rw [hb, List.mem_singleton] at hr
    exact Or.inl ⟨_, hr⟩
  · cases hr
  · exact Or.inr ⟨clause, List.mem_singleton.mp hr⟩

theorem isClauseFlag_of_mem_stages (f : BuiltIn) (args : List Expr) :
    ∀ t ∈ jsonValue.stages f args, ∀ r ∈ t.ownRequests, r.IsClauseFlag := by
  unfold stages
  split
  · contradiction
  · contradiction
  · contradiction
  · simp only [List.forall_mem_append]
    refine ⟨⟨?_, isClauseFlag_of_mem_clauseStages⟩, isClauseFlag_of_mem_clauseStages⟩
    simp [Stage.ownRequests, Stage.requests]
  · exact List.forall_mem_nil _

/-- What the course of a conversion requests of its own before a stage that can fail. -/
theorem course_own (k : JsonConversion) {call : Call} {before after : List Stage} {s : Stage}
    (h : (k.course call).stages = before ++ s :: after) (hs : s.ownRequests = []) :
    ∀ b ∈ before, ∀ r ∈ b.ownRequests, k = .jsonValue ∧ r.IsClauseFlag := by
  by_cases hk : k = .jsonValue
  · subst hk
    intro b hb r hr
    refine ⟨rfl, ?_⟩
    have hmem : b ∈ (jsonValue.course call).stages := by
      rw [h]
      exact List.mem_append_left _ hb
    rcases List.mem_cons.mp hmem with rfl | hmem
    · cases hr
    · exact isClauseFlag_of_mem_stages _ _ b hmem r hr
  · obtain ⟨quiet, flags, hstages, hquiet, hflags⟩ := flags_last k hk call.function call.args
    have hcount : ∀ t ∈ .check (.countOf k.arity call) :: quiet, t.ownRequests = [] :=
      List.forall_mem_cons.mpr ⟨rfl, hquiet⟩
    rw [course, hstages, ← List.cons_append] at h
    intro b hb r hr
    rw [Stage.quiet_before hcount hflags h hs b hb] at hr
    cases hr

end JsonConversion

/-- Before a stage that can fail, only calls of `JSON_VALUE` request anything of their own, and only
flags of their clauses. -/
theorem Call.course_own {call : Call} {before after : List Stage} {s : Stage}
    (h : call.course.stages = before ++ s :: after) (hs : s.ownRequests = []) :
    ∀ b ∈ before, ∀ r ∈ b.ownRequests, call.function = .jsonValue ∧ r.IsClauseFlag := by
  intro b hb r hr
  unfold course at h
  split at h
  · case h_1 op arity hdirect =>
    have hquiet := operatorCourse_quiet op arity call b (h ▸ List.mem_append_left _ hb)
    rw [hquiet] at hr
    cases hr
  · case h_2 hdirect =>
    rcases BuiltIn.eq_json_of_direct?_none hdirect with hf | hf | hf
    · rw [hf] at h
      exact absurd (JsonConversion.course_own _ h hs b hb r hr).1 nofun
    · rw [hf] at h
      exact ⟨hf, (JsonConversion.course_own _ h hs b hb r hr).2⟩
    · rw [hf] at h
      exact absurd (JsonConversion.course_own _ h hs b hb r hr).1 nofun

theorem Fails.own {limit depth : Nat} {e : Expr} {error : LowerError} {path : List Frame}
    (h : Fails limit depth e error path) :
    ∀ x ∈ path, ∀ r ∈ x.ownRequests, x.call.function = .jsonValue ∧ r.IsClauseFlag := by
  induction h with
  | depth hd e => exact nofun
  | type hd t => exact nofun
  | check hd hstages hbefore hc =>
    intro x hx r hr
    obtain rfl := List.mem_singleton.mp hx
    obtain ⟨b, hb, hr⟩ := List.mem_flatMap.mp hr
    exact Call.course_own hstages rfl b hb r hr
  | operand hd hstages hbefore he ih =>
    refine List.forall_mem_cons.mpr ⟨?_, ih⟩
    intro r hr
    obtain ⟨b, hb, hr⟩ := List.mem_flatMap.mp hr
    exact Call.course_own hstages rfl b hb r hr

namespace Planner

section
variable {limit depth : Nat}

theorem lowerAt_conversion (hd : depth ≤ limit) {f : BuiltIn} {k : JsonConversion}
    (hf : claimant? TableRule.standard f = some (.conversion k)) (args : List Expr) :
    (standard limit).lowerAt depth (.call f args) =
      (k.course ⟨f, args⟩).recipe.perform ((standard limit).lowerAt (depth + 1))
        Request.node := by
  rw [← k.recipe_eq_course]
  exact lowerAt_claimed hd hf args

/-- Every call takes its course. -/
theorem lowerAt_call_eq_course (hd : depth ≤ limit) (f : BuiltIn) (args : List Expr) :
    (standard limit).lowerAt depth (.call f args) =
      (Call.mk f args).course.recipe.perform ((standard limit).lowerAt (depth + 1))
        Request.node := by
  rw [Call.course]
  cases hdirect : f.direct? with
  | some x =>
    obtain ⟨op, arity⟩ := x
    change _ = (operatorCourse op arity ⟨f, args⟩).recipe.perform _ _
    rw [← operatorRecipe_eq_course]
    exact lowerAt_claimed hd (claimant_standard_direct hdirect) args
  | none =>
    rcases BuiltIn.eq_json_of_direct?_none hdirect with rfl | rfl | rfl
    · exact lowerAt_conversion hd claimant_standard_jsonExists args
    · exact lowerAt_conversion hd claimant_standard_jsonValue args
    · exact lowerAt_conversion hd claimant_standard_jsonQuery args

/-- The stage as it is carried out where arguments are lowered at the given depth. -/
abbrev performAt (limit depth : Nat) (s : Stage) : Logged Request (List Node) :=
  s.recipe.perform ((standard limit).lowerAt depth) Request.node

theorem constructs_lowerAt (limit depth : Nat) : Constructs ((standard limit).lowerAt depth) :=
  constructs_lowerWithin TableRule.standard limit (limit + 1 - depth)

theorem completes_iff (s : Stage) :
    (∃ ns, (performAt limit depth s).outcome = .ok ns) ↔ s.Completes limit depth := by
  cases s with
  | check c =>
    cases hc : c.passes with
    | true =>
      rw [performAt, Stage.perform_check_passed hc]
      exact iff_of_true ⟨[], rfl⟩ hc
    | false =>
      rw [performAt, Stage.perform_check_failed hc]
      exact iff_of_false nofun (by rw [Stage.Completes, hc]; exact Bool.false_ne_true)
  | operand e =>
    rw [performAt, Stage.perform_operand]
    constructor
    · rintro ⟨ns, hns⟩
      obtain ⟨n, he, -⟩ := Logged.outcome_bind_eq_ok_iff.mp hns
      exact ((lowerAt_eq_ok_iff limit depth e n).mp he).1
    · intro he
      have hok := (lowerAt_eq_ok_iff limit depth e _).mpr ⟨he, rfl⟩
      rw [Logged.bind_of_ok hok]
      exact ⟨_, rfl⟩
  | flag f => exact iff_of_true ⟨_, rfl⟩ trivial

theorem log_of_completes {s : Stage} (h : s.Completes limit depth) :
    (performAt limit depth s).log = s.requests := by
  cases s with
  | check c =>
    rw [performAt, Stage.perform_check_passed h]
    rfl
  | operand e =>
    have hok := (lowerAt_eq_ok_iff limit depth e _).mpr ⟨h, rfl⟩
    rw [performAt, Stage.perform_operand, Logged.bind_of_ok hok]
    exact (List.append_nil _).trans (constructs_lowerAt limit depth e _ hok)
  | flag f => rfl

theorem log_before {before : List Stage} (h : ∀ s ∈ before, s.Completes limit depth) :
    (before.flatMap fun s => (performAt limit depth s).log) = before.flatMap Stage.requests := by
  apply List.flatMap_congr
  intro s hs
  exact log_of_completes (h s hs)

/-- A call fails at a stage whose predecessors are all completed. -/
theorem lowerAt_call_eq_error_iff (hd : depth ≤ limit) (f : BuiltIn) (args : List Expr)
    (log : List Request) (error : LowerError) :
    (standard limit).lowerAt depth (.call f args) = ⟨log, .error error⟩ ↔
      ∃ before s after last, (Call.mk f args).course.stages = before ++ s :: after ∧
        (∀ b ∈ before, b.Completes limit (depth + 1)) ∧
        performAt limit (depth + 1) s = ⟨last, .error error⟩ ∧
        log = before.flatMap Stage.requests ++ last := by
  rw [lowerAt_call_eq_course hd, Course.perform_recipe_eq_error_iff,
    Stage.perform_recipes_eq_error_iff]
  constructor
  · rintro ⟨before, s, after, last, hstages, hbefore, hs, hlog⟩
    have hcompletes : ∀ b ∈ before, b.Completes limit (depth + 1) :=
      fun b hb => (completes_iff b).mp (hbefore b hb)
    exact ⟨before, s, after, last, hstages, hcompletes, hs, by rw [hlog, ← log_before hcompletes]⟩
  · rintro ⟨before, s, after, last, hstages, hbefore, hs, hlog⟩
    exact ⟨before, s, after, last, hstages, fun b hb => (completes_iff b).mpr (hbefore b hb), hs,
      by rw [hlog, ← log_before hbefore]⟩

end

theorem lowerAt_of_fails {limit depth : Nat} {e : Expr} {error : LowerError} {path : List Frame}
    (h : Fails limit depth e error path) :
    (standard limit).lowerAt depth e = ⟨path.flatMap Frame.requests, .error error⟩ := by
  induction h with
  | depth hd e => exact lowerAt_too_deep (standard limit) hd e
  | type hd t => exact lowerAt_type (standard limit) hd t
  | @check depth hd f args before after c hstages hbefore hc =>
    apply (lowerAt_call_eq_error_iff hd f args _ _).mpr
    exact ⟨before, _, after, [], hstages, hbefore, Stage.perform_check_failed hc, rfl⟩
  | @operand depth hd f args before after e error path hstages hbefore he ih =>
    have hs : performAt limit (depth + 1) (.operand e) =
        ⟨path.flatMap Frame.requests, .error error⟩ :=
      (Stage.perform_eq_error_iff _ _ _).mpr (Or.inr ⟨e, rfl, ih⟩)
    apply (lowerAt_call_eq_error_iff hd f args _ _).mpr
    exact ⟨before, _, after, _, hstages, hbefore, hs, rfl⟩

theorem fails_of_lowerAt {limit depth : Nat} {e : Expr} {log : List Request} {error : LowerError}
    (h : (standard limit).lowerAt depth e = ⟨log, .error error⟩) :
    ∃ path, Fails limit depth e error path ∧ path.flatMap Frame.requests = log := by
  -- Arguments are lowered one level deeper, so the induction is on the levels that are left.
  induction hlevels : limit + 1 - depth generalizing depth e log error with
  | zero =>
    have hd : limit < depth := by omega
    rw [lowerAt_too_deep (standard limit) hd] at h
    cases h
    exact ⟨[], .depth hd e, rfl⟩
  | succ levels ih =>
    have hd : depth ≤ limit := by omega
    cases e with
    | field name index =>
      rw [lowerAt_field (standard limit) hd] at h
      cases h
    | literal value =>
      rw [lowerAt_literal (standard limit) hd] at h
      cases h
    | type t =>
      rw [lowerAt_type (standard limit) hd] at h
      cases h
      exact ⟨[], .type hd t, rfl⟩
    | call f args =>
      obtain ⟨before, s, after, last, hstages, hbefore, hs, rfl⟩ :=
        (lowerAt_call_eq_error_iff hd f args log error).mp h
      rcases (Stage.perform_eq_error_iff s last error).mp hs with
        ⟨c, rfl, hc, rfl, rfl⟩ | ⟨e, rfl, he⟩
      · exact ⟨_, .check hd hstages hbefore hc, rfl⟩
      · obtain ⟨path, hpath, rfl⟩ := ih he (by omega)
        exact ⟨_, .operand hd hstages hbefore hpath, List.flatMap_cons⟩

/-- What a failed lowering has requested is found along the path of the failure: the constructions
of the operands completed there and the flags that calls of `JSON_VALUE` have requested for the
clauses they have reached. No call on the path requests anything else of its own, be it a call or a
flag of another kind. -/
theorem convert_eq_error_and_log_iff (limit : Nat) (e : Expr) (error : LowerError)
    (log : List Request) :
    (standard limit).convert e = .error error ∧ ((standard limit).lower e).log = log ↔
      ∃ path, Fails limit 0 e error path ∧ path.flatMap Frame.requests = log ∧
        ∀ x ∈ path, ∀ r ∈ x.ownRequests, x.call.function = .jsonValue ∧ r.IsClauseFlag := by
  constructor
  · rintro ⟨herror, rfl⟩
    have h : (standard limit).lowerAt 0 e = ⟨((standard limit).lower e).log, .error error⟩ :=
      congrArg (Logged.mk _) herror
    obtain ⟨path, hpath, hlog⟩ := fails_of_lowerAt h
    exact ⟨path, hpath, hlog, hpath.own⟩
  · rintro ⟨path, hpath, rfl, -⟩
    have h := lowerAt_of_fails hpath
    exact ⟨congrArg Logged.outcome h, congrArg Logged.log h⟩

/-- The clause that has been passed leaves its flag and its marker, the clause that the failure is
inside of only its flag. -/
example :
    let e : Expr := .call .upper [.call .jsonValue [.field "a" 0, .literal (.string "$"),
      .type .varchar, .literal (.symbol (.valueFallback .null)), .literal .null,
      .literal (.symbol (.valueFallback .default)), .type .double]]
    (standard 2).convert e = .error (.unsupportedExpression "type literal") ∧
      ((standard 2).lower e).log = [.inputRef 0, .literal (.string "$"),
        .flag (.valueFallback .null), .flag (.clause .empty), .flag (.valueFallback .default)] :=
  ⟨rfl, rfl⟩

end Planner

end RowPlan
