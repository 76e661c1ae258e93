import RowPlan.Proofs.Dispatch

/-! Expressions that the walk reaches, each with the depth at which it does. Rules hand them back to
it, and no rule can do anything about a failure among them: the error of one is the error of the
whole, whatever the rules are and whatever answers the requests. -/
namespace RowPlan

theorem Step.filterMap_expr?_requests (rs : List Request) :
    (rs.map request).filterMap expr? = [] := by
  rw [List.filterMap_map]
  exact List.filterMap_eq_nil_iff.mpr fun r _ => rfl

namespace Logged
variable {α β : Type}

/-- The lowering of an expression hands nothing over on behalf of the recipe. -/
theorem handedOver_mapLog_request (x : Logged Request α) :
    (x.mapLog Step.request).handedOver = [] := Step.filterMap_expr?_requests x.log

theorem mem_handedOver_bind_iff {x : Logged Step α} {f : α → Logged Step β} {e : Expr} :
    e ∈ (x.bind f).handedOver ↔
      e ∈ x.handedOver ∨ ∃ a, x.outcome = .ok a ∧ e ∈ (f a).handedOver := by
  obtain ⟨log, outcome⟩ := x
  cases outcome with
  | error error =>
    have hnever : ¬ ∃ a, Except.error (α := α) error = .ok a ∧ e ∈ (f a).handedOver := nofun
    exact (or_iff_left hnever).symm
  | ok a =>
    have hlog : ((Logged.mk log (.ok a)).bind f).handedOver =
        log.filterMap Step.expr? ++ (f a).handedOver := List.filterMap_append
    rw [hlog, List.mem_append]
    apply or_congr_right
    constructor
    · intro he
      exact ⟨a, rfl, he⟩
    · rintro ⟨b, hb, he⟩
      rw [Except.ok.inj hb]
      exact he

end Logged

section
variable {α : Type} {lowering : Expr → Logged Request Node} {builder : Builder} {e : Expr}
  {error : LowerError}

/-- A recipe that has handed over an expression whose lowering fails has failed with it. -/
theorem Recipe.outcome_run_of_handedOver (hfail : (lowering e).outcome = .error error)
    (r : Recipe α) (count : Nat)
    (he : e ∈ (r.run ⟨fun _ e => lowering e, builder⟩ count).handedOver) :
    (r.run ⟨fun _ e => lowering e, builder⟩ count).outcome = .error error := by
  -- What a recipe hands over later depends on the answers to what it has handed over before.
  induction r generalizing count with
  | done a => exact absurd he List.not_mem_nil
  | fail error' => exact absurd he List.not_mem_nil
  | lower d next ih =>
    have hrun : e = d ∨ ∃ n, (lowering d).outcome = .ok n ∧
        e ∈ ((next n).run ⟨fun _ e => lowering e, builder⟩ (count + 1)).handedOver := by
      rcases List.mem_cons.mp he with he | he
      · exact Or.inl he
      · rcases Logged.mem_handedOver_bind_iff.mp he with he | he
        · rw [Logged.handedOver_mapLog_request] at he
          exact absurd he List.not_mem_nil
        · exact Or.inr he
    change (((lowering d).mapLog Step.request).bind _).outcome = _
    rw [Logged.outcome_bind]
    change (lowering d).outcome.bind _ = _
    rcases hrun with rfl | ⟨n, hn, he⟩
    · rw [hfail]
      rfl
    · rw [hn]
      exact ih n (count + 1) he
  | build request next ih =>
    rcases Logged.mem_handedOver_bind_iff.mp he with he | ⟨n, hn, he⟩
    · rw [Logged.handedOver_mapLog_request] at he
      exact absurd he List.not_mem_nil
    · cases hn
      exact ih (builder request) count he

theorem outcome_offer_of_handedOver (hfail : (lowering e).outcome = .error error) (call : Call)
    (rules : List Rule)
    (he : e ∈ (offer ⟨fun _ e => lowering e, builder⟩ call rules).handedOver) :
    (offer ⟨fun _ e => lowering e, builder⟩ call rules).outcome = .error error := by
  induction rules with
  | nil => exact absurd he List.not_mem_nil
  | cons rule rules ih =>
    change (((rule call).run _ 0).bind _).outcome = _
    rw [Logged.outcome_bind]
    rcases Logged.mem_handedOver_bind_iff.mp he with he | ⟨answer, hanswer, he⟩
    · rw [(rule call).outcome_run_of_handedOver hfail 0 he]
      rfl
    · rw [hanswer]
      -- Only a rule that declines leaves room for the rules behind it.
      cases answer with
      | some n => exact absurd he List.not_mem_nil
      | none => exact ih he

end

namespace Planner

/-- What the rules see of the walk when they are offered a call found at a depth. -/
def context (p : Planner) (depth : Nat) : Context := ⟨fun _ e => p.lowerAt (depth + 1) e, p.builder⟩

/-- The expressions that the rules hand back for a call found at a depth, in order. -/
def handedBack (p : Planner) (depth : Nat) (call : Call) : List Expr :=
  (offer (p.context depth) call p.rules).handedOver

/-- From the first expression, found at the first depth, the walk comes to the second expression at
the second depth. -/
inductive Reaches (p : Planner) : (depth : Nat) → Expr → (depth' : Nat) → Expr → Prop where
  | refl (depth : Nat) (e : Expr) : Reaches p depth e depth e
  | call {depth depth' : Nat} {f : BuiltIn} {args : List Expr} {e e' : Expr}
    (hd : depth ≤ p.limit) (he : e ∈ p.handedBack depth ⟨f, args⟩)
    (h : Reaches p (depth + 1) e depth' e') : Reaches p depth (.call f args) depth' e'

theorem lowerAt_call_eq_offer (p : Planner) {depth : Nat} (hd : depth ≤ p.limit) (f : BuiltIn)
    (args : List Expr) :
    p.lowerAt depth (.call f args) = (offer (p.context depth) ⟨f, args⟩ p.rules).requests := by
  rw [lowerAt, levels_of_depth_le hd]
  rfl

/-- An expression fails with the error of any expression that the walk reaches from it. -/
theorem Reaches.outcome_eq_error {p : Planner} {depth depth' : Nat} {e e' : Expr}
    (h : p.Reaches depth e depth' e') {error : LowerError}
    (hfail : (p.lowerAt depth' e').outcome = .error error) :
    (p.lowerAt depth e).outcome = .error error := by
  induction h with
  | refl depth e => exact hfail
  | call hd he h ih =>
    rw [lowerAt_call_eq_offer p hd]
    exact outcome_offer_of_handedOver (ih hfail) _ p.rules he

/-- Nothing that is reached on the way to a row expression has failed. -/
theorem Reaches.exists_ok {p : Planner} {depth depth' : Nat} {e e' : Expr} {n : Node}
    (h : p.Reaches depth e depth' e') (hn : (p.lowerAt depth e).outcome = .ok n) :
    ∃ m, (p.lowerAt depth' e').outcome = .ok m := by
  cases hm : (p.lowerAt depth' e').outcome with
  | ok m => exact ⟨m, rfl⟩
  | error error =>
    rw [h.outcome_eq_error hm] at hn
    cases hn

end Planner

end RowPlan
