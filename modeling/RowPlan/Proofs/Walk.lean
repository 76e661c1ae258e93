import Mathlib.Logic.Function.Iterate
import RowPlan.Proofs.Confined

/-! The walk over an expression in single steps. What `lower` says at once, the walk does piece by
piece: it enters an expression, offers a call to one rule after the other, and sets a rule aside that
has handed an expression over, until there is an answer for it. The depth is a counter of 64 bits
that wraps around, and nothing but the check against the limit keeps the walk from going on. If the
counter counts as far as the walk goes, the walk comes to an end, with the answer of `lower`; below
its top it always does. -/
namespace RowPlan

/-- A rule that waits for the node of an expression it has handed over. -/
structure Waiting where
  depth : UInt64
  call : Call
  /-- The rules to be asked if it declines. -/
  rules : List Rule
  next : Node → Recipe (Option Node)

/-- What the walk is about to do. -/
inductive Phase where
  | enter (depth : UInt64) (e : Expr)
  /-- Offer a call found at a depth to the rules that are left. -/
  | offer (depth : UInt64) (call : Call) (rules : List Rule)
  /-- Go on with the recipe of one rule, with the rules behind it in reserve. -/
  | work (depth : UInt64) (call : Call) (rules : List Rule) (r : Recipe (Option Node))
  | answer (outcome : Except LowerError Node)

/-- A walk on its way: the rules that wait, the innermost first, and the requests so far. -/
structure Walk where
  phase : Phase
  waiting : List Waiting
  log : List Request

/-- Where the outcome of a rule leads. -/
def Phase.settled (depth : UInt64) (call : Call) (rules : List Rule) :
    Except LowerError (Option Node) → Phase
  | .ok (some n) => answer (.ok n)
  | .ok none => offer depth call rules
  | .error error => answer (.error error)

namespace Planner

/-- What comes of an expression that is not too deep. -/
def entered (p : Planner) (depth : UInt64) (waiting : List Waiting) (log : List Request) :
    Expr → Walk
  | .field _ index =>
    ⟨.answer (.ok (p.builder (.inputRef index))), waiting, log ++ [.inputRef index]⟩
  | .literal value =>
    ⟨.answer (.ok (p.builder (.ofLiteral value))), waiting, log ++ [.ofLiteral value]⟩
  | .type t => ⟨.answer (.error (.unsupportedExpression (Expr.type t).kind)), waiting, log⟩
  | .call function args => ⟨.offer depth ⟨function, args⟩ p.rules, waiting, log⟩

/-- One step. An answer that nobody waits for stays. -/
def step (p : Planner) : Walk → Walk
  | ⟨.enter depth e, waiting, log⟩ =>
    if p.limit < depth.toNat then ⟨.answer (.error (.depthExceeded p.limit)), waiting, log⟩
    else p.entered depth waiting log e
  | ⟨.offer _ call [], waiting, log⟩ =>
    ⟨.answer (.error (.unsupportedFunction call.function)), waiting, log⟩
  | ⟨.offer depth call (rule :: rules), waiting, log⟩ =>
    ⟨.work depth call rules (rule call), waiting, log⟩
  | ⟨.work depth call rules (.done result), waiting, log⟩ =>
    ⟨.settled depth call rules (.ok result), waiting, log⟩
  | ⟨.work depth call rules (.fail error), waiting, log⟩ =>
    ⟨.settled depth call rules (.error error), waiting, log⟩
  | ⟨.work depth call rules (.lower e next), waiting, log⟩ =>
    ⟨.enter (depth + 1) e, ⟨depth, call, rules, next⟩ :: waiting, log⟩
  | ⟨.work depth call rules (.build r next), waiting, log⟩ =>
    ⟨.work depth call rules (next (p.builder r)), waiting, log ++ [r]⟩
  | ⟨.answer (.ok n), w :: waiting, log⟩ => ⟨.work w.depth w.call w.rules (w.next n), waiting, log⟩
  | ⟨.answer (.error error), _ :: waiting, log⟩ => ⟨.answer (.error error), waiting, log⟩
  | ⟨.answer outcome, [], log⟩ => ⟨.answer outcome, [], log⟩

theorem step_enter_too_deep {p : Planner} {depth : UInt64} (h : p.limit < depth.toNat) (e : Expr)
    (waiting : List Waiting) (log : List Request) :
    p.step ⟨.enter depth e, waiting, log⟩ =
      ⟨.answer (.error (.depthExceeded p.limit)), waiting, log⟩ :=
  if_pos h

theorem step_enter {p : Planner} {depth : UInt64} (h : depth.toNat ≤ p.limit) (e : Expr)
    (waiting : List Waiting) (log : List Request) :
    p.step ⟨.enter depth e, waiting, log⟩ = p.entered depth waiting log e :=
  if_neg (Nat.not_lt.mpr h)

/-- Below its top the counter counts. -/
theorem toNat_succ {depth : UInt64} (h : depth.toNat < 2 ^ 64 - 1) :
    (depth + 1).toNat = depth.toNat + 1 := by
  rw [UInt64.toNat_add]
  change (depth.toNat + 1) % 2 ^ 64 = _
  omega

/-- The walk over an expression after a number of steps. -/
def walk (p : Planner) (e : Expr) (steps : ℕ) : Walk := p.step^[steps] ⟨.enter 0 e, [], []⟩

theorem walk_succ (p : Planner) (e : Expr) (steps : ℕ) :
    p.walk e (steps + 1) = p.step (p.walk e steps) :=
  Function.iterate_succ_apply' p.step steps _

/-- Some number of steps leads from one to the other. -/
def Leads (p : Planner) (w w' : Walk) : Prop := ∃ steps, p.step^[steps] w = w'

namespace Leads
variable {p : Planner} {w w' w'' : Walk}

theorem step (p : Planner) (w : Walk) : p.Leads w (p.step w) := ⟨1, rfl⟩

theorem trans (h : p.Leads w w') (h' : p.Leads w' w'') : p.Leads w w'' := by
  obtain ⟨k, rfl⟩ := h
  obtain ⟨l, rfl⟩ := h'
  exact ⟨l + k, Function.iterate_add_apply p.step l k w⟩

theorem step_trans (h : p.Leads (p.step w) w') : p.Leads w w' := (Leads.step p w).trans h

end Leads

/-- Entered at a depth, the expression gets its answer, whatever waits for it. -/
def Returns (p : Planner) (depth : UInt64) (e : Expr) (x : Logged Request Node) : Prop :=
  ∀ waiting log, p.Leads ⟨.enter depth e, waiting, log⟩ ⟨.answer x.outcome, waiting, log ++ x.log⟩

section
variable {p : Planner} {depth : UInt64} {lowering : Expr → Logged Request Node} {hands : Expr → Prop}

/-- A rule comes to its outcome if all that it may hand over gets an answer one level deeper. -/
theorem leads_work (h : ∀ e, hands e → p.Returns (depth + 1) e (lowering e)) (call : Call)
    (rules : List Rule) {r : Recipe (Option Node)} (hr : r.Within hands fun _ => True)
    (waiting : List Waiting) (log : List Request) :
    let x := r.perform lowering p.builder
    p.Leads ⟨.work depth call rules r, waiting, log⟩
      ⟨.settled depth call rules x.outcome, waiting, log ++ x.log⟩ := by
  intro x
  induction r generalizing log with
  | done result =>
    have hlog : log ++ x.log = log := List.append_nil log
    rw [hlog]
    exact Leads.step p _
  | fail error =>
    have hlog : log ++ x.log = log := List.append_nil log
    rw [hlog]
    exact Leads.step p _
  | lower e next ih =>
    obtain ⟨he, hnext⟩ := hr
    -- The rule is set aside, and the answer is for it.
    have hentered : p.Leads ⟨.work depth call rules (.lower e next), waiting, log⟩
        ⟨.answer (lowering e).outcome, ⟨depth, call, rules, next⟩ :: waiting,
          log ++ (lowering e).log⟩ :=
      Leads.step_trans (h e he _ log)
    apply hentered.trans
    cases houtcome : (lowering e).outcome with
    | ok n =>
      have hx : x = ⟨(lowering e).log ++ ((next n).perform lowering p.builder).log,
          ((next n).perform lowering p.builder).outcome⟩ := Logged.bind_of_ok houtcome _
      rw [hx, ← List.append_assoc]
      exact Leads.step_trans (ih n (hnext n) _)
    | error error =>
      have hx : x = ⟨(lowering e).log, .error error⟩ := Logged.bind_of_error houtcome _
      rw [hx]
      exact Leads.step p _
  | build r next ih =>
    have hx : x.log = r :: ((next (p.builder r)).perform lowering p.builder).log := rfl
    rw [hx, List.append_cons]
    exact Leads.step_trans (ih (p.builder r) (hr (p.builder r)) _)

theorem leads_offer (h : ∀ e, hands e → p.Returns (depth + 1) e (lowering e)) (call : Call)
    {rules : List Rule} (hrules : ∀ rule ∈ rules, (rule call).Within hands fun _ => True)
    (waiting : List Waiting) (log : List Request) :
    let x := (select rules call).perform lowering p.builder
    p.Leads ⟨.offer depth call rules, waiting, log⟩ ⟨.answer x.outcome, waiting, log ++ x.log⟩ := by
  intro x
  induction rules generalizing log with
  | nil =>
    have hlog : log ++ x.log = log := List.append_nil log
    rw [hlog]
    exact Leads.step p _
  | cons rule rules ih =>
    obtain ⟨hrule, hrules⟩ := List.forall_mem_cons.mp hrules
    have hasked : p.Leads ⟨.offer depth call (rule :: rules), waiting, log⟩ _ :=
      Leads.step_trans (leads_work h call rules hrule waiting log)
    have hx : x = ((rule call).perform lowering p.builder).bind _ :=
      Recipe.perform_bind lowering p.builder (rule call) _
    cases houtcome : ((rule call).perform lowering p.builder).outcome with
    | error error =>
      rw [houtcome] at hasked
      rw [hx, Logged.bind_of_error houtcome]
      exact hasked
    | ok result =>
      rw [houtcome] at hasked
      rw [hx, Logged.bind_of_ok houtcome, ← List.append_assoc]
      cases result with
      | some n =>
        change p.Leads _ ⟨_, _, _ ++ []⟩
        rw [List.append_nil]
        exact hasked
      | none => exact hasked.trans (ih hrules _)

end

/-- What may be met at each depth. Where the walk goes on, it meets nothing else one level deeper,
and the counter still counts there. -/
structure Admits (p : Planner) (met : ℕ → Expr → Prop) : Prop where
  below {depth : ℕ} (hd : depth ≤ p.limit) {f : BuiltIn} {args : List Expr}
    (h : met depth (.call f args)) :
    ∀ rule ∈ p.rules, (rule ⟨f, args⟩).Within (met (depth + 1)) fun _ => True
  counted {depth : ℕ} (hd : depth ≤ p.limit) {e : Expr} (h : met (depth + 1) e) :
    depth + 1 < 2 ^ 64

/-- Below its top the counter counts anything. -/
theorem admits_any {p : Planner} (hlimit : p.limit < 2 ^ 64 - 1) : p.Admits fun _ _ => True := by
  constructor
  · intro depth _ f args _ rule _
    exact (rule ⟨f, args⟩).within_any
  · intro depth hd e _
    omega

theorem Admits.toNat_succ {p : Planner} {met : ℕ → Expr → Prop} (hp : p.Admits met)
    {depth : UInt64} (hd : depth.toNat ≤ p.limit) {e : Expr} (h : met (depth.toNat + 1) e) :
    (depth + 1).toNat = depth.toNat + 1 := by
  have hlt : depth.toNat + 1 < 2 ^ 64 := hp.counted hd h
  exact Planner.toNat_succ (by omega)

section
variable {p : Planner} {met : ℕ → Expr → Prop}

/-- A walk that enters an expression it may meet there comes to the answer that lowering within the
levels left by the limit gives. -/
theorem returns_lowerWithin (hp : p.Admits met) {depth : UInt64} {levels : ℕ}
    (hlevels : depth.toNat + levels = p.limit + 1) {e : Expr} (he : met depth.toNat e) :
    p.Returns depth e (p.lowerWithin levels e) := by
  intro waiting log
  -- The measure is what the limit leaves, since rules may hand over any expressions whatever.
  induction levels generalizing depth e waiting log with
  | zero =>
    have hdeep : p.limit < depth.toNat := by omega
    have hstep := Leads.step p ⟨.enter depth e, waiting, log⟩
    rw [step_enter_too_deep hdeep] at hstep
    rw [lowerWithin_zero]
    change p.Leads _ ⟨_, _, log ++ []⟩
    rw [List.append_nil]
    exact hstep
  | succ levels ih =>
    have hdepth : depth.toNat ≤ p.limit := by omega
    apply Leads.step_trans
    rw [step_enter hdepth]
    cases e with
    | field name index => exact ⟨0, rfl⟩
    | literal value => exact ⟨0, rfl⟩
    | type t =>
      refine ⟨0, ?_⟩
      change _ = Walk.mk _ _ (log ++ [])
      rw [List.append_nil]
      rfl
    | call f args =>
      have hbelow : ∀ e, met (depth.toNat + 1) e →
          p.Returns (depth + 1) e (p.lowerWithin levels e) := by
        intro e he waiting log
        have hnext : (depth + 1).toNat = depth.toNat + 1 := hp.toNat_succ hdepth he
        exact ih (by omega) (hnext ▸ he) waiting log
      rw [lowerWithin_call]
      exact leads_offer hbelow ⟨f, args⟩ (hp.below hdepth he) waiting log

/-- The walk over an expression comes to the answer and the requests of `lower`, and ends there. -/
theorem exists_walk_eq_of_admits (hp : p.Admits met) {e : Expr} (he : met 0 e) :
    ∃ steps, ∀ more,
      p.walk e (steps + more) = ⟨.answer (p.convert e), [], (p.lower e).log⟩ := by
  have hlevels : (0 : UInt64).toNat + (p.limit + 1) = p.limit + 1 := Nat.zero_add _
  obtain ⟨steps, hsteps⟩ := returns_lowerWithin hp hlevels he [] []
  refine ⟨steps, fun more => ?_⟩
  have hends : p.step ⟨.answer (p.convert e), [], (p.lower e).log⟩ =
      ⟨.answer (p.convert e), [], (p.lower e).log⟩ := by
    cases p.convert e with
    | ok n => rfl
    | error error => rfl
  calc
    p.walk e (steps + more) = p.step^[more] (p.walk e steps) := by
      rw [walk, Nat.add_comm, Function.iterate_add_apply, walk]
    _ = p.step^[more] ⟨.answer (p.convert e), [], (p.lower e).log⟩ := congrArg _ hsteps
    _ = ⟨.answer (p.convert e), [], (p.lower e).log⟩ := Function.iterate_fixed hends more

end

theorem exists_walk_eq (p : Planner) (hlimit : p.limit < 2 ^ 64 - 1) (e : Expr) :
    ∃ steps, ∀ more,
      p.walk e (steps + more) = ⟨.answer (p.convert e), [], (p.lower e).log⟩ :=
  exists_walk_eq_of_admits (admits_any hlimit) trivial

end Planner
end RowPlan
