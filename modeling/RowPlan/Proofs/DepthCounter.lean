import RowPlan.Proofs.Walk

/-! The depth counter does not wrap around. It counts the calls around an expression, and table
rules hand over nothing but arguments, each nested less than its call. So either the limit stops the
walk below the top of the counter, or the expression is used up before. -/
namespace RowPlan

namespace Expr

mutual

/-- How far below the expression the deepest one inside stands. -/
def nesting : Expr → ℕ
  | field _ _ => 0
  | literal _ => 0
  | type _ => 0
  | call _ args => maxNesting args

/-- The same for the arguments of a call. They stand one level below it. -/
def maxNesting : List Expr → ℕ
  | [] => 0
  | e :: es => max (nesting e + 1) (maxNesting es)

end

theorem nesting_lt_of_mem {f : BuiltIn} {args : List Expr} {e : Expr} (he : e ∈ args) :
    e.nesting < (call f args).nesting := by
  rw [nesting]
  induction args with
  | nil => exact absurd he List.not_mem_nil
  | cons d args ih =>
    rw [maxNesting]
    rcases List.mem_cons.mp he with rfl | he
    · omega
    · have hrest : e.nesting < maxNesting args := ih he
      omega

/-- Found at the depth, the expression and all below it have depths that the counter can count, as
far as the limit lets the walk come. -/
def Countable (limit depth : ℕ) (e : Expr) : Prop :=
  limit < 2 ^ 64 - 1 ∨ depth + e.nesting < 2 ^ 64

theorem Countable.arg {limit depth : ℕ} {f : BuiltIn} {args : List Expr}
    (h : (call f args).Countable limit depth) {e : Expr} (he : e ∈ args) :
    e.Countable limit (depth + 1) := by
  rcases h with hlimit | hnesting
  · exact Or.inl hlimit
  · have hlt : e.nesting < (call f args).nesting := nesting_lt_of_mem he
    exact Or.inr (by omega)

end Expr

namespace Planner
variable {p : Planner} {met : ℕ → Expr → Prop}

/-- Table rules hand over arguments, which are nested less than their call. -/
theorem admits_countable (rules : List TableRule) (builder : Builder) {limit : ℕ}
    (hlimit : limit < 2 ^ 64) :
    (ofTablesWith rules builder limit).Admits fun depth e => e.Countable limit depth := by
  constructor
  · intro depth _ f args h rule hrule
    obtain ⟨rule, -, rfl⟩ := List.mem_map.mp hrule
    exact (rule.within ⟨f, args⟩).mono (fun e he => h.arg he) fun error _ => trivial
  · intro depth hd e h
    have hd : depth ≤ limit := hd
    rcases h with h | h
    · omega
    · omega

/-- Rules are at work on a call. All that they may hand over is admitted one level below. -/
structure AtWork (p : Planner) (met : ℕ → Expr → Prop) (depth : UInt64) (call : Call)
    (rules : List Rule) : Prop where
  depth_le : depth.toNat ≤ p.limit
  rules : ∀ rule ∈ rules, (rule call).Within (met (depth.toNat + 1)) fun _ => True

end Planner

/-- Whatever the phase leads to below is admitted there. -/
def Phase.Meets (p : Planner) (met : ℕ → Expr → Prop) : Phase → Prop
  | enter depth e => met depth.toNat e
  | offer depth call rules => p.AtWork met depth call rules
  | work depth call rules r =>
    p.AtWork met depth call rules ∧ r.Within (met (depth.toNat + 1)) fun _ => True
  | answer _ => True

/-- The same for the rules that wait, whatever answers they get. -/
structure Walk.Meets (p : Planner) (met : ℕ → Expr → Prop) (w : Walk) : Prop where
  phase : w.phase.Meets p met
  waiting : ∀ x ∈ w.waiting, p.AtWork met x.depth x.call x.rules ∧
    ∀ n, (x.next n).Within (met (x.depth.toNat + 1)) fun _ => True

namespace Planner
variable {p : Planner} {met : ℕ → Expr → Prop}

theorem meets_step (hp : p.Admits met) {w : Walk} (h : w.Meets p met) : (p.step w).Meets p met := by
  obtain ⟨phase, waiting, log⟩ := w
  obtain ⟨hphase, hwaiting⟩ := h
  cases phase with
  | enter depth e =>
    by_cases hle : depth.toNat ≤ p.limit
    · rw [step_enter hle]
      cases e with
      | field name index => exact ⟨trivial, hwaiting⟩
      | literal value => exact ⟨trivial, hwaiting⟩
      | type t => exact ⟨trivial, hwaiting⟩
      | call f args => exact ⟨⟨hle, hp.below hle hphase⟩, hwaiting⟩
    · rw [step_enter_too_deep (Nat.not_le.mp hle)]
      exact ⟨trivial, hwaiting⟩
  | offer depth call rules =>
    cases rules with
    | nil => exact ⟨trivial, hwaiting⟩
    | cons rule rules =>
      obtain ⟨hle, hrules⟩ := hphase
      obtain ⟨hrule, hrules⟩ := List.forall_mem_cons.mp hrules
      exact ⟨⟨⟨hle, hrules⟩, hrule⟩, hwaiting⟩
  | work depth call rules r =>
    obtain ⟨hwork, hr⟩ := hphase
    cases r with
    | done result =>
      cases result with
      | some n => exact ⟨trivial, hwaiting⟩
      | none => exact ⟨hwork, hwaiting⟩
    | fail error => exact ⟨trivial, hwaiting⟩
    | lower e next =>
      -- The counter is moved here and nowhere else.
      obtain ⟨he, hnext⟩ := hr
      have hcount : (depth + 1).toNat = depth.toNat + 1 := hp.toNat_succ hwork.depth_le he
      have hbelow : met (depth + 1).toNat e := hcount ▸ he
      exact ⟨hbelow, List.forall_mem_cons.mpr ⟨⟨hwork, hnext⟩, hwaiting⟩⟩
    | build r next => exact ⟨⟨hwork, hr (p.builder r)⟩, hwaiting⟩
  | answer outcome =>
    cases waiting with
    | nil =>
      cases outcome with
      | ok n => exact ⟨trivial, hwaiting⟩
      | error error => exact ⟨trivial, hwaiting⟩
    | cons x waiting =>
      obtain ⟨⟨hwork, hnext⟩, hrest⟩ := List.forall_mem_cons.mp hwaiting
      cases outcome with
      | ok n => exact ⟨⟨hwork, hnext n⟩, hrest⟩
      | error error => exact ⟨trivial, hrest⟩

theorem meets_walk (hp : p.Admits met) {e : Expr} (he : met 0 e) (steps : ℕ) :
    (p.walk e steps).Meets p met := by
  induction steps with
  | zero => exact ⟨he, List.forall_mem_nil _⟩
  | succ steps ih =>
    rw [walk_succ]
    exact meets_step hp ih

/-- Wherever the walk moves the depth counter, the counter counts: for any expression if the limit
is below the top of the counter, and for one that is not nested deeper than that if the limit is the
top. So the walk ends with the answer of lowering that counts without bound. -/
theorem depth_counter_never_wraps (rules : List TableRule) (builder : Builder) (limit : UInt64)
    (e : Expr) (h : limit.toNat ≤ 2 ^ 64 - 2 ∨ limit.toNat = 2 ^ 64 - 1 ∧ e.nesting < 2 ^ 64) :
    let p := ofTablesWith rules builder limit.toNat
    (∀ steps depth call behind e' next waiting log,
      p.walk e steps = ⟨.work depth call behind (.lower e' next), waiting, log⟩ →
        (depth + 1).toNat = depth.toNat + 1) ∧
    ∃ steps, ∀ more,
      p.walk e (steps + more) = ⟨.answer (p.convert e), [], (p.lower e).log⟩ := by
  intro p
  have hp : p.Admits fun depth e => e.Countable limit.toNat depth :=
    admits_countable rules builder limit.toNat_lt
  have he : e.Countable limit.toNat 0 := by
    rcases h with hlimit | ⟨-, hnesting⟩
    · exact Or.inl (by omega)
    · exact Or.inr (by omega)
  constructor
  · intro steps depth call behind e' next waiting log hwalk
    have hmeets : (p.walk e steps).Meets p _ := meets_walk hp he steps
    rw [hwalk] at hmeets
    obtain ⟨hwork, hbelow, -⟩ := hmeets.phase
    exact hp.toNat_succ hwork.depth_le hbelow
  · exact exists_walk_eq_of_admits hp he

/-- The limit is the top of the counter, which the counter never comes near. -/
theorem depth_counter_never_wraps_at_top :
    let p : Planner := ofTablesWith [.identity .upper, .direct] Request.node
      (0xFFFFFFFFFFFFFFFF : UInt64).toNat
    let e : Expr := .call .upper [.call .not [.field "a" 0]]
    (0xFFFFFFFFFFFFFFFF : UInt64).toNat = 2 ^ 64 - 1 ∧ e.nesting < 2 ^ 64 ∧
      (∃ call behind next waiting log,
        p.walk e 7 = ⟨.work 1 call behind (.lower (.field "a" 0) next), waiting, log⟩) ∧
      ((1 : UInt64) + 1).toNat = (1 : UInt64).toNat + 1 ∧
      ∃ steps, ∀ more, p.walk e (steps + more) =
        ⟨.answer (.ok (.call .not [.inputRef 0] none)), [],
          [.inputRef 0, .call .not [.inputRef 0]]⟩ := by
  intro p e
  have hlimit : (0xFFFFFFFFFFFFFFFF : UInt64).toNat = 2 ^ 64 - 1 := by decide
  have hnesting : e.nesting < 2 ^ 64 := by decide
  obtain ⟨hcounts, hends⟩ := depth_counter_never_wraps [.identity .upper, .direct] Request.node
    0xFFFFFFFFFFFFFFFF e (Or.inr ⟨hlimit, hnesting⟩)
  have hwalk : ∃ call behind next waiting log,
      p.walk e 7 = ⟨.work 1 call behind (.lower (.field "a" 0) next), waiting, log⟩ :=
    ⟨_, _, _, _, _, rfl⟩
  obtain ⟨call, behind, next, waiting, log, hlower⟩ := hwalk
  exact ⟨hlimit, hnesting, ⟨call, behind, next, waiting, log, hlower⟩,
    hcounts _ _ _ _ _ _ _ _ hlower, hends⟩

end Planner
end RowPlan
