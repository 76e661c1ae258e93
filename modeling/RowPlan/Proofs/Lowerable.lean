import RowPlan.Proofs.Calls
import RowPlan.Proofs.Outcome

/-! Which expressions can be lowered, said without any lowering. The judgment mentions the depth
only to bound it, and the row expression that goes with it is the translation. -/
namespace RowPlan

/-- An expression that can be lowered where it is found. Only the lowered arguments of a call are
asked to be lowerable in turn; the others count for nothing but the configuration. -/
inductive Lowerable (limit : Nat) : (depth : Nat) → Expr → Prop where
  | field {depth : Nat} (hd : depth ≤ limit) (name : String) (index : UInt64) :
    Lowerable limit depth (.field name index)
  | literal {depth : Nat} (hd : depth ≤ limit) (value : Literal Symbol) :
    Lowerable limit depth (.literal value)
  | call {depth : Nat} (hd : depth ≤ limit) {f : BuiltIn} {args : List Expr}
    (hconf : WellConfigured f args)
    (hargs : ∀ e ∈ loweredArgs f args, Lowerable limit (depth + 1) e) :
    Lowerable limit depth (.call f args)

namespace Check

theorem depth_passes (limit depth : Nat) :
    (Check.depth limit depth).passes = true ↔ depth ≤ limit := decide_eq_true_iff

theorem count_passes (f : BuiltIn) (actual : Nat) :
    (Check.count f actual).passes = true ↔ f.target.2.accepts actual = true := Iff.rfl

theorem slot_passes {α : Type} (f : BuiltIn) (read : Expr → Option α) (name : String) (e : Expr) :
    (Check.slot f read name e).passes = true ↔ ∃ a, read e = some a := Option.isSome_iff_exists

end Check

/-- All checks of an expression pass. -/
def Passes (limit depth : Nat) (e : Expr) : Prop := ∀ c ∈ e.checks limit depth, c.passes = true

section
variable {limit depth : Nat}

theorem Passes.depth_le {e : Expr} (h : Passes limit depth e) : depth ≤ limit := by
  obtain ⟨rest, hchecks⟩ := Expr.checks_head limit depth e
  rw [Passes, hchecks, List.forall_mem_cons, Check.depth_passes] at h
  exact h.1

theorem Passes.count {f : BuiltIn} {args : List Expr} (h : Passes limit depth (.call f args)) :
    f.target.2.accepts args.length = true := by
  obtain ⟨rest, hchecks⟩ := Expr.checks_call limit depth f args
  rw [Passes, hchecks, List.forall_mem_cons, List.forall_mem_cons, Check.count_passes] at h
  exact h.2.1

theorem passes_direct {f : BuiltIn} {op : Operator} {arity : Arity}
    (hf : f.direct? = some (op, arity)) (args : List Expr) :
    Passes limit depth (.call f args) ↔
      depth ≤ limit ∧ arity.accepts args.length = true ∧
        ∀ e ∈ args, Passes limit (depth + 1) e := by
  rw [Passes, Expr.checks_call_direct hf, List.forall_mem_cons, List.forall_mem_cons,
    List.forall_mem_flatMap, Check.depth_passes, Check.count_passes, BuiltIn.target_direct hf]
  rfl

theorem passes_clause (name : String) (behavior value : Expr) :
    (∀ c ∈ clauseChecks name behavior (value.checks limit depth), c.passes = true) ↔
      ∃ b, behavior = .literal (.symbol (.valueFallback b)) ∧
        (b = .default → Passes limit depth value) := by
  rw [clauseChecks, List.forall_mem_cons, Check.slot_passes]
  constructor
  · rintro ⟨⟨b, hb⟩, hvalue⟩
    refine ⟨b, Expr.valueFallback?_eq_some_iff.mp hb, ?_⟩
    rintro rfl
    rwa [hb, if_pos rfl] at hvalue
  · rintro ⟨b, rfl, hvalue⟩
    refine ⟨⟨b, rfl⟩, ?_⟩
    split
    · case isTrue h => exact hvalue (Option.some.inj h)
    · intro c hc
      exact absurd hc List.not_mem_nil

theorem passes_jsonExists (json path : Expr) :
    Passes limit depth (.call .jsonExists [json, path]) ↔
      depth ≤ limit ∧ Passes limit (depth + 1) json ∧ Passes limit (depth + 1) path := by
  have hcount : (Check.count .jsonExists [json, path].length).passes = true := rfl
  simp only [Passes, Expr.checks, List.forall_mem_cons, List.forall_mem_append,
    Check.depth_passes, hcount, true_and]

theorem passes_jsonExists_onError (json path onError : Expr) :
    Passes limit depth (.call .jsonExists [json, path, onError]) ↔
      depth ≤ limit ∧ Passes limit (depth + 1) json ∧ Passes limit (depth + 1) path ∧
        ∃ b, onError = .literal (.symbol (.existsFallback b)) := by
  have hcount : (Check.count .jsonExists [json, path, onError].length).passes = true := rfl
  simp only [Passes, Expr.checks, List.forall_mem_cons, List.forall_mem_append,
    List.not_mem_nil, false_implies, implies_true, Check.depth_passes, Check.slot_passes,
    Expr.existsFallback?_eq_some_iff, hcount, true_and, and_true, and_assoc]

theorem passes_jsonQuery (json path wrapping onEmpty onError : Expr) :
    Passes limit depth (.call .jsonQuery [json, path, wrapping, onEmpty, onError]) ↔
      depth ≤ limit ∧ Passes limit (depth + 1) json ∧ Passes limit (depth + 1) path ∧
        (∃ w, wrapping = .literal (.symbol (.wrapper w))) ∧
        (∃ b, onEmpty = .literal (.symbol (.queryFallback b))) ∧
        ∃ c, onError = .literal (.symbol (.queryFallback c)) := by
  have hcount : (Check.count .jsonQuery [json, path, wrapping, onEmpty, onError].length).passes =
    true := rfl
  simp only [Passes, Expr.checks, List.forall_mem_cons, List.forall_mem_append,
    List.not_mem_nil, false_implies, implies_true, Check.depth_passes, Check.slot_passes,
    Expr.wrapper?_eq_some_iff, Expr.queryFallback?_eq_some_iff, hcount, true_and, and_true,
    and_assoc]

theorem passes_jsonValue
    (json path returning onEmpty emptyDefault onError errorDefault : Expr) :
    Passes limit depth
        (.call .jsonValue [json, path, returning, onEmpty, emptyDefault, onError, errorDefault]) ↔
      depth ≤ limit ∧ (∃ t, returning = .type t) ∧
        Passes limit (depth + 1) json ∧ Passes limit (depth + 1) path ∧
        (∃ b, onEmpty = .literal (.symbol (.valueFallback b)) ∧
          (b = .default → Passes limit (depth + 1) emptyDefault)) ∧
        ∃ c, onError = .literal (.symbol (.valueFallback c)) ∧
          (c = .default → Passes limit (depth + 1) errorDefault) := by
  have hcount : (Check.count .jsonValue
    [json, path, returning, onEmpty, emptyDefault, onError, errorDefault].length).passes =
    true := rfl
  rw [Passes, Expr.checks]
  simp only [List.forall_mem_cons, List.forall_mem_append, passes_clause, Check.depth_passes,
    Check.slot_passes, Expr.sqlType?_eq_some_iff, hcount, true_and, and_assoc]
  rfl

theorem WellConfigured.of_passes {f : BuiltIn} {args : List Expr}
    (h : Passes limit depth (.call f args)) :
    WellConfigured f args ∧ ∀ e ∈ loweredArgs f args, Passes limit (depth + 1) e := by
  -- The count fixes the positions; only then do the other checks say what stands in them.
  have hcount := h.count
  cases hdirect : f.direct? with
  | some x =>
    obtain ⟨-, hcount, hargs⟩ := (passes_direct hdirect args).mp h
    rw [loweredArgs_direct hdirect]
    exact ⟨.direct hdirect hcount, hargs⟩
  | none =>
    rcases BuiltIn.eq_json_of_direct?_none hdirect with rfl | rfl | rfl
    · rcases Arity.two_or_three_arguments hcount with ⟨json, path, rfl⟩ | ⟨json, path, b, rfl⟩
      · obtain ⟨-, hlowered⟩ := (passes_jsonExists _ _).mp h
        exact ⟨.jsonExists json path, (forall_mem_loweredArgs_jsonExists []).mpr hlowered⟩
      · obtain ⟨-, hjson, hpath, b, rfl⟩ := (passes_jsonExists_onError _ _ _).mp h
        exact ⟨.jsonExistsOnError json path b,
          (forall_mem_loweredArgs_jsonExists _).mpr ⟨hjson, hpath⟩⟩
    · obtain ⟨json, path, returning, onEmpty, emptyDefault, onError, errorDefault, rfl⟩ :=
        Arity.seven_arguments hcount
      obtain ⟨-, ⟨t, rfl⟩, hjson, hpath, ⟨b, rfl, hempty⟩, c, rfl, herror⟩ :=
        (passes_jsonValue _ _ _ _ _ _ _).mp h
      exact ⟨.jsonValue json path emptyDefault errorDefault t b c,
        forall_mem_loweredArgs_jsonValue.mpr ⟨hjson, hpath, hempty, herror⟩⟩
    · obtain ⟨json, path, wrapping, onEmpty, onError, rfl⟩ := Arity.five_arguments hcount
      obtain ⟨-, hjson, hpath, ⟨w, rfl⟩, ⟨b, rfl⟩, c, rfl⟩ := (passes_jsonQuery _ _ _ _ _).mp h
      exact ⟨.jsonQuery json path w b c,
        (forall_mem_loweredArgs_jsonQuery _).mpr ⟨hjson, hpath⟩⟩

theorem WellConfigured.passes {f : BuiltIn} {args : List Expr} (hd : depth ≤ limit)
    (h : WellConfigured f args) (hargs : ∀ e ∈ loweredArgs f args, Passes limit (depth + 1) e) :
    Passes limit depth (.call f args) := by
  cases h with
  | direct hf hcount =>
    rw [loweredArgs_direct hf] at hargs
    exact (passes_direct hf args).mpr ⟨hd, hcount, hargs⟩
  | jsonExists json path =>
    have hlowered := (forall_mem_loweredArgs_jsonExists _).mp hargs
    exact (passes_jsonExists _ _).mpr ⟨hd, hlowered⟩
  | jsonExistsOnError json path onError =>
    obtain ⟨hjson, hpath⟩ := (forall_mem_loweredArgs_jsonExists _).mp hargs
    exact (passes_jsonExists_onError _ _ _).mpr ⟨hd, hjson, hpath, onError, rfl⟩
  | jsonQuery json path wrapping onEmpty onError =>
    obtain ⟨hjson, hpath⟩ := (forall_mem_loweredArgs_jsonQuery _).mp hargs
    exact (passes_jsonQuery _ _ _ _ _).mpr
      ⟨hd, hjson, hpath, ⟨wrapping, rfl⟩, ⟨onEmpty, rfl⟩, onError, rfl⟩
  | jsonValue json path emptyDefault errorDefault returning onEmpty onError =>
    obtain ⟨hjson, hpath, hempty, herror⟩ := forall_mem_loweredArgs_jsonValue.mp hargs
    exact (passes_jsonValue _ _ _ _ _ _ _).mpr
      ⟨hd, ⟨returning, rfl⟩, hjson, hpath, ⟨onEmpty, rfl, hempty⟩, onError, rfl, herror⟩

theorem Lowerable.passes {e : Expr} (h : Lowerable limit depth e) : Passes limit depth e := by
  induction h with
  | field hd name index =>
    rw [Passes, Expr.checks, List.forall_mem_singleton, Check.depth_passes]
    exact hd
  | literal hd value =>
    rw [Passes, Expr.checks, List.forall_mem_singleton, Check.depth_passes]
    exact hd
  | call hd hconf hargs ih => exact hconf.passes hd ih

theorem Passes.lowerable {e : Expr} (h : Passes limit depth e) : Lowerable limit depth e := by
  induction e using Expr.tree_induction generalizing depth with
  | field name index => exact .field h.depth_le name index
  | literal value => exact .literal h.depth_le value
  | type t =>
    rw [Passes, Expr.checks, List.forall_mem_cons, List.forall_mem_singleton] at h
    exact absurd h.2 Bool.false_ne_true
  | call f args ih =>
    -- The induction covers all arguments, of which those that are not lowered play no part.
    obtain ⟨hconf, hargs⟩ := WellConfigured.of_passes h
    refine .call h.depth_le hconf ?_
    intro e he
    exact ih e (mem_args_of_mem_loweredArgs he) (hargs e he)

end

namespace Planner

theorem lowerAt_eq_ok_iff (limit depth : Nat) (e : Expr) (n : Node) :
    ((standard limit).lowerAt depth e).outcome = .ok n ↔
      Lowerable limit depth e ∧ e.translation = n := by
  have hpasses : verify (e.checks limit depth) = .ok () ↔ Lowerable limit depth e :=
    (verify_eq_ok_iff _).trans ⟨Passes.lowerable, Lowerable.passes⟩
  have h : ((standard limit).lowerAt depth e).outcome = _ := answers_lowerAt limit e depth
  rw [h, ← hpasses]
  cases verify (e.checks limit depth) with
  | error error => exact iff_of_false nofun nofun
  | ok _ => simp only [Except.map, Except.ok.injEq, true_and]

/-- Lowering succeeds exactly on the lowerable expressions, with their translations. -/
theorem convert_eq_ok_iff (limit : Nat) (e : Expr) (n : Node) :
    (standard limit).convert e = .ok n ↔ Lowerable limit 0 e ∧ e.translation = n :=
  lowerAt_eq_ok_iff limit 0 e n

end Planner

end RowPlan
