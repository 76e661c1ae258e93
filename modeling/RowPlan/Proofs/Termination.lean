import RowPlan.Proofs.Reached
import RowPlan.Proofs.Walk

/-! The depth limit alone ends the walk. Rules may hand over whatever they like, the call itself and
larger expressions included. The depth counts the rules that wait, each of which waits for something
one level deeper, and a level behind the limit every expression fails before any rule is asked. So a
rule that hands back the very call it is asked about runs into the limit. -/
namespace RowPlan

/-- The depth of a rule that waits is the number of rules that wait for it. -/
def Stacked : List Waiting → Prop
  | [] => True
  | w :: waiting => w.depth.toNat = waiting.length ∧ Stacked waiting

/-- The depth of the phase is the given one. Rules are at work up to the limit only. -/
def Phase.IsAt (limit depth : ℕ) : Phase → Prop
  | enter d _ => d.toNat = depth
  | offer d _ _ => d.toNat = depth ∧ depth ≤ limit
  | work d _ _ _ => d.toNat = depth ∧ depth ≤ limit
  | answer _ => True

/-- Depths count rules that wait, of which there are never more than one for every level. -/
structure Walk.Counted (limit : ℕ) (w : Walk) : Prop where
  stacked : Stacked w.waiting
  length_le : w.waiting.length ≤ limit + 1
  phase : w.phase.IsAt limit w.waiting.length

namespace Planner

theorem counted_entered {p : Planner} {depth : UInt64} {waiting : List Waiting}
    {log : List Request} (hstacked : Stacked waiting) (hdepth : depth.toNat = waiting.length)
    (hle : depth.toNat ≤ p.limit) (e : Expr) : (p.entered depth waiting log e).Counted p.limit := by
  have hlength : waiting.length ≤ p.limit + 1 := by omega
  cases e with
  | field name index => exact ⟨hstacked, hlength, trivial⟩
  | literal value => exact ⟨hstacked, hlength, trivial⟩
  | type t => exact ⟨hstacked, hlength, trivial⟩
  | call f args => exact ⟨hstacked, hlength, hdepth, hdepth ▸ hle⟩

theorem counted_step {p : Planner} (hlimit : p.limit < 2 ^ 64 - 1) {w : Walk}
    (h : w.Counted p.limit) : (p.step w).Counted p.limit := by
  obtain ⟨phase, waiting, log⟩ := w
  obtain ⟨hstacked, hlength, hphase⟩ := h
  cases phase with
  | enter depth e =>
    have hdepth : depth.toNat = waiting.length := hphase
    by_cases hle : depth.toNat ≤ p.limit
    · rw [step_enter hle]
      exact counted_entered hstacked hdepth hle e
    · rw [step_enter_too_deep (Nat.not_le.mp hle)]
      exact ⟨hstacked, hlength, trivial⟩
  | offer depth call rules =>
    cases rules with
    | nil => exact ⟨hstacked, hlength, trivial⟩
    | cons rule rules => exact ⟨hstacked, hlength, hphase⟩
  | work depth call rules r =>
    cases r with
    | done result =>
      cases result with
      | some n => exact ⟨hstacked, hlength, trivial⟩
      | none => exact ⟨hstacked, hlength, hphase⟩
    | fail error => exact ⟨hstacked, hlength, trivial⟩
    | lower e next =>
      -- One more rule waits, for an expression one level deeper.
      obtain ⟨hdepth, hle⟩ := hphase
      have hnext : (depth + 1).toNat = waiting.length + 1 := by
        rw [toNat_succ (by omega), hdepth]
      exact ⟨⟨hdepth, hstacked⟩, Nat.succ_le_succ hle, hnext⟩
    | build r next => exact ⟨hstacked, hlength, hphase⟩
  | answer outcome =>
    cases waiting with
    | nil =>
      cases outcome with
      | ok n => exact ⟨hstacked, hlength, trivial⟩
      | error error => exact ⟨hstacked, hlength, trivial⟩
    | cons x waiting =>
      obtain ⟨hdepth, hstacked⟩ := hstacked
      have hle : waiting.length ≤ p.limit := Nat.le_of_succ_le_succ hlength
      cases outcome with
      | ok n => exact ⟨hstacked, Nat.le_succ_of_le hle, hdepth, hle⟩
      | error error => exact ⟨hstacked, Nat.le_succ_of_le hle, trivial⟩

theorem counted_walk {p : Planner} (hlimit : p.limit < 2 ^ 64 - 1) (e : Expr) (steps : ℕ) :
    (p.walk e steps).Counted p.limit := by
  induction steps with
  | zero => exact ⟨trivial, Nat.zero_le _, rfl⟩
  | succ steps ih =>
    rw [walk_succ]
    exact counted_step hlimit ih

/-- Asked about a call found at a depth, the rule declines. -/
def Declines (p : Planner) (rule : Rule) (depth : ℕ) (call : Call) : Prop :=
  ((rule call).run (p.context depth) 0).outcome = .ok none

/-- Asked about a call found at a depth, the rule hands the call itself over. -/
def HandsBack (p : Planner) (rule : Rule) (depth : ℕ) (call : Call) : Prop :=
  call.toExpr ∈ ((rule call).run (p.context depth) 0).handedOver

/-- What a rule hands over is handed back to the walk if the rules in front decline. -/
theorem mem_handedOver_offer {c : Context} {call : Call} {before after : List Rule} {rule : Rule}
    {e : Expr} (hbefore : ∀ r ∈ before, ((r call).run c 0).outcome = .ok none)
    (he : e ∈ ((rule call).run c 0).handedOver) :
    e ∈ (offer c call (before ++ rule :: after)).handedOver := by
  induction before with
  | nil => exact Logged.mem_handedOver_bind_iff.mpr (Or.inl he)
  | cons r before ih =>
    have hrest := ih fun s hs => hbefore s (List.mem_cons_of_mem _ hs)
    exact Logged.mem_handedOver_bind_iff.mpr
      (Or.inr ⟨none, hbefore r List.mem_cons_self, hrest⟩)

/-- A call that is handed back at every depth is handed back until it is too deep. -/
theorem depthExceeded_of_handedBack {p : Planner} {call : Call}
    (h : ∀ depth ≤ p.limit, call.toExpr ∈ p.handedBack depth call) :
    p.convert call.toExpr = .error (.depthExceeded p.limit) := by
  have hfails : ∀ depth,
      (p.lowerAt depth call.toExpr).outcome = .error (.depthExceeded p.limit) := by
    intro depth
    induction hlevels : p.limit + 1 - depth generalizing depth with
    | zero =>
      rw [lowerAt_too_deep p (by omega)]
      rfl
    | succ levels ih =>
      have hd : depth ≤ p.limit := by omega
      have hdeeper := ih (depth + 1) (by omega)
      change (p.lowerAt depth (.call call.function call.args)).outcome = _
      rw [lowerAt_call_eq_offer p hd]
      exact outcome_offer_of_handedOver hdeeper call p.rules (h depth hd)
  exact hfails 0

/-- Whatever the rules hand over, the walk over an expression comes to an end, with the result of
`convert`, and no expression is ever entered more than one level behind the limit. One that is
entered there fails in one step, which no rule has a part in. A rule that hands back the call it is
asked about, with rules in front of it that decline, is what the limit is needed for. -/
theorem depth_limit_terminates (p : Planner) (hlimit : p.limit < 2 ^ 64 - 1) (e : Expr) :
    (∃ steps, ∀ more,
      p.walk e (steps + more) = ⟨.answer (p.convert e), [], (p.lower e).log⟩) ∧
    (∀ steps depth e' waiting log, p.walk e steps = ⟨.enter depth e', waiting, log⟩ →
      depth.toNat = waiting.length ∧ depth.toNat ≤ p.limit + 1 ∧
        (depth.toNat = p.limit + 1 → p.walk e (steps + 1) =
          ⟨.answer (.error (.depthExceeded p.limit)), waiting, log⟩)) ∧
    ∀ before rule after f, p.rules = before ++ rule :: after →
      (∀ depth args, depth ≤ p.limit →
        (∀ r ∈ before, p.Declines r depth ⟨f, args⟩) ∧ p.HandsBack rule depth ⟨f, args⟩) →
      ∀ args, p.convert (.call f args) = .error (.depthExceeded p.limit) := by
  refine ⟨exists_walk_eq p hlimit e, ?_, ?_⟩
  · intro steps depth e' waiting log hwalk
    have hcounted := counted_walk hlimit e steps
    rw [hwalk] at hcounted
    have hdepth : depth.toNat = waiting.length := hcounted.phase
    refine ⟨hdepth, hdepth ▸ hcounted.length_le, ?_⟩
    intro hlast
    rw [walk_succ, hwalk]
    exact step_enter_too_deep (by omega) e' waiting log
  · intro before rule after f hrules hasked args
    have hback : ∀ depth ≤ p.limit, .call f args ∈ p.handedBack depth ⟨f, args⟩ := by
      intro depth hd
      obtain ⟨hbefore, hrule⟩ := hasked depth args hd
      rw [handedBack, hrules]
      exact mem_handedOver_offer hbefore hrule
    exact depthExceeded_of_handedBack hback

/-- The rule for `NOT` hands the call back, the other one hands over a larger call each time. Both run
into the limit, the larger calls at the third one that is entered, two levels below the first. -/
theorem depth_limit_terminates_growing :
    let back : Rule := fun call =>
      if call.function = .not then .lower call.toExpr fun n => .done (some n) else .done none
    let grow : Rule := fun call => .lower (.call .upper [call.toExpr]) fun n => .done (some n)
    let before : List Rule := [(TableRule.identity .lower).toRule]
    let p : Planner := ⟨before ++ back :: [grow], Request.node, 1⟩
    let e : Expr := .call .concat [.field "a" 0]
    let waiting := (p.walk e 14).waiting
    p.limit < 2 ^ 64 - 1 ∧
      (∃ steps, ∀ more,
        p.walk e (steps + more) = ⟨.answer (.error (.depthExceeded 1)), [], []⟩) ∧
      p.walk e 14 = ⟨.enter 2 (.call .upper [.call .upper [e]]), waiting, []⟩ ∧
      (2 : UInt64).toNat = waiting.length ∧
      p.walk e 15 = ⟨.answer (.error (.depthExceeded 1)), waiting, []⟩ ∧
      (∀ depth args, depth ≤ p.limit →
        (∀ r ∈ before, p.Declines r depth ⟨.not, args⟩) ∧ p.HandsBack back depth ⟨.not, args⟩) ∧
      ∀ args, p.convert (.call .not args) = .error (.depthExceeded 1) := by
  intro back grow before p e waiting
  have hlimit : p.limit < 2 ^ 64 - 1 := by decide
  have hasked : ∀ depth args, depth ≤ p.limit →
      (∀ r ∈ before, p.Declines r depth ⟨.not, args⟩) ∧ p.HandsBack back depth ⟨.not, args⟩ :=
    fun depth args _ => ⟨List.forall_mem_singleton.mpr rfl, List.mem_cons_self⟩
  have hwalk : p.walk e 14 = ⟨.enter 2 (.call .upper [.call .upper [e]]), waiting, []⟩ := rfl
  obtain ⟨hends, hentered, hback⟩ := depth_limit_terminates p hlimit e
  obtain ⟨hdepth, -, hlast⟩ := hentered 14 _ _ _ _ hwalk
  exact ⟨hlimit, hends, hwalk, hdepth, hlast rfl, hasked, hback before back [grow] .not rfl hasked⟩

end Planner
end RowPlan
