import RowPlan.Proofs.Attempts
import RowPlan.Proofs.Reached

/-! A failing operand. Two runs are compared whose contexts answer alike, except that the second one
fails at the lowering of one number. An attempt gets that failure back and could do with it as it
likes. Those of the rules pass it on: step by step the runs are the same up to there, and nothing
follows in the second one, which ends with the error of that lowering as it stands. If the first run
does not come that far, the other is the same to its end. -/
namespace RowPlan

namespace Context

/-- The context that answers alike, but fails at the lowering of one number. By then that lowering
has made some requests, which depend on the expression. -/
def failingAt (c : Context) (k : Nat) (requested : Expr → List Request) (error : LowerError) :
    Context where
  lower count e := if count = k then ⟨requested e, .error error⟩ else c.lower count e
  builder := c.builder

section
variable (c : Context) (requested : Expr → List Request) (error : LowerError) (e : Expr)

theorem failingAt_lower_self (k : Nat) :
    (c.failingAt k requested error).lower k e = ⟨requested e, .error error⟩ :=
  if_pos rfl

theorem failingAt_lower_of_ne {count k : Nat} (h : count ≠ k) :
    (c.failingAt k requested error).lower count e = c.lower count e :=
  if_neg h

end

end Context

namespace Logged
variable {α : Type} {requested : Expr → List Request} {error : LowerError} {k : Nat}

/-- The second run is the first one up to its lowering number `k`, where it ends with the error. If
the first one has no lowering of that number, the second is the same. -/
inductive CutShort (requested : Expr → List Request) (error : LowerError) (k : Nat) :
    Logged Step α → Logged Step α → Prop where
  | reached (before : List Step) (e : Expr) (after : List Step) (outcome : Except LowerError α)
    (hk : (before.filterMap Step.expr?).length = k) :
    CutShort requested error k ⟨before ++ .lowering e :: after, outcome⟩
      ⟨before ++ .lowering e :: (requested e).map .request, .error error⟩
  | missed {x : Logged Step α} (hk : x.handedOver.length ≤ k) : CutShort requested error k x x

/-- Steps in front of both runs move the number by what they hand over. -/
theorem CutShort.behind {x y : Logged Step α} (h : CutShort requested error k x y)
    (steps : List Step) :
    CutShort requested error ((steps.filterMap Step.expr?).length + k)
      ⟨steps ++ x.log, x.outcome⟩ ⟨steps ++ y.log, y.outcome⟩ := by
  cases h with
  | reached before e after outcome hk =>
    simp only [← List.append_assoc]
    apply reached
    rw [List.filterMap_append, List.length_append, hk]
  | missed hk =>
    apply missed
    have hlog : (Logged.mk (steps ++ x.log) x.outcome).handedOver =
        steps.filterMap Step.expr? ++ x.handedOver := List.filterMap_append
    rw [hlog, List.length_append]
    omega

/-- One lowering handed over is the only one, whatever has been requested for it. -/
theorem handedOver_lowering (e : Expr) (rs : List Request) (outcome : Except LowerError α) :
    (Logged.mk (.lowering e :: rs.map .request) outcome).handedOver = [e] :=
  congrArg (e :: ·) (Step.filterMap_expr?_requests rs)

theorem CutShort.behind_lowering {x y : Logged Step α} (h : CutShort requested error k x y)
    (e : Expr) (rs : List Request) :
    CutShort requested error (k + 1) ⟨.lowering e :: rs.map .request ++ x.log, x.outcome⟩
      ⟨.lowering e :: rs.map .request ++ y.log, y.outcome⟩ := by
  have hsteps : (Step.lowering e :: rs.map .request).filterMap Step.expr? = [e] :=
    handedOver_lowering e rs x.outcome
  have hcut := h.behind (.lowering e :: rs.map .request)
  rwa [hsteps, List.length_singleton, Nat.add_comm] at hcut

theorem CutShort.behind_request {x y : Logged Step α} (h : CutShort requested error k x y)
    (r : Request) :
    CutShort requested error k (x.after (.request r)) (y.after (.request r)) := by
  have hcut := h.behind [.request r]
  rwa [show ([Step.request r].filterMap Step.expr?).length = 0 from rfl, Nat.zero_add] at hcut

end Logged

namespace Attempt
variable {α : Type}

/-- Every failure of a lowering ends the attempt, with its error as it stands. -/
def PassesOn : Attempt α → Prop
  | done _ => True
  | fail _ => True
  | lower _ next => (∀ error, next (.error error) = .fail error) ∧ ∀ n, (next (.ok n)).PassesOn
  | build _ next => ∀ n, (next n).PassesOn

theorem passesOn_toAttempt (r : Recipe α) : r.toAttempt.PassesOn := by
  induction r with
  | done a => trivial
  | fail error => trivial
  | lower e next ih =>
    rw [Recipe.toAttempt, PassesOn]
    exact ⟨fun error => rfl, ih⟩
  | build request next ih => exact ih

section
variable {c : Context} {count : Nat} {e : Expr} {next : Except LowerError Node → Attempt α}

theorem run_lower_of_ok {n : Node} (h : (c.lower count e).outcome = .ok n) :
    (lower e next).run c count =
      ⟨.lowering e :: (c.lower count e).log.map .request ++ ((next (.ok n)).run c (count + 1)).log,
        ((next (.ok n)).run c (count + 1)).outcome⟩ := by
  rw [run, h]
  rfl

theorem run_lower_of_error {error : LowerError} (h : (c.lower count e).outcome = .error error)
    (hnext : next (.error error) = .fail error) :
    (lower e next).run c count =
      ⟨.lowering e :: (c.lower count e).log.map .request, .error error⟩ := by
  rw [run, h, hnext]
  exact congrArg (Logged.mk · _) (congrArg (_ :: ·) (List.append_nil _))

end

variable (c : Context) (k : Nat) (requested : Expr → List Request) (error : LowerError)

/-- An attempt that passes failures on makes nothing of one but its end. -/
theorem cutShort_run {x : Attempt α} (h : x.PassesOn) (count : Nat) :
    Logged.CutShort requested error k (x.run c count)
      (x.run (c.failingAt (count + k) requested error) count) := by
  -- By induction on the attempt, for every number that may be left when it comes to its turn.
  induction x generalizing count k with
  | done a => exact .missed (Nat.zero_le k)
  | fail error' => exact .missed (Nat.zero_le k)
  | lower e next ih =>
    obtain ⟨hnext, hrest⟩ := h
    cases k with
    | zero =>
      -- This is the lowering that fails.
      have hlower := c.failingAt_lower_self requested error e count
      rw [Nat.add_zero, run_lower_of_error (congrArg Logged.outcome hlower) (hnext error), hlower]
      exact .reached [] e _ _ rfl
    | succ k =>
      have hlower := c.failingAt_lower_of_ne requested error e
        (show count ≠ count + (k + 1) by omega)
      cases houtcome : (c.lower count e).outcome with
      | error error' =>
        -- The attempt ends here by itself, in front of the lowering that would fail.
        have houtcome' := (congrArg Logged.outcome hlower).trans houtcome
        rw [run_lower_of_error houtcome (hnext error'),
          run_lower_of_error houtcome' (hnext error'), hlower]
        apply Logged.CutShort.missed
        rw [Logged.handedOver_lowering]
        exact Nat.le_add_left 1 k
      | ok n =>
        -- One number less is left for what follows, which starts its count one higher.
        have houtcome' := (congrArg Logged.outcome hlower).trans houtcome
        have hcount : count + (k + 1) = count + 1 + k := by omega
        rw [run_lower_of_ok houtcome, run_lower_of_ok houtcome', hlower, hcount]
        exact (ih (.ok n) k (hrest n) (count + 1)).behind_lowering e _
  | build request next ih =>
    exact (ih (c.builder request) k (h (c.builder request)) count).behind_request request

/-- What a failure at the lowering number `k` makes of a run. If there is such a lowering, the run
ends with the error and has logged nothing else behind it; otherwise it is the run without the
failure. -/
def StopsAt (x : Attempt α) : Prop :=
  let run := x.run c 0
  let run' := x.run (c.failingAt k requested error) 0
  (k < run.handedOver.length →
    run'.outcome = .error error ∧ run'.handedOver = run.handedOver.take (k + 1) ∧
      ∃ before e after, run.log = before ++ .lowering e :: after ∧
        before.filterMap Step.expr? = run.handedOver.take k ∧
        run'.log = before ++ .lowering e :: (requested e).map .request) ∧
  (run.handedOver.length ≤ k → run' = run)

theorem stopsAt_of_passesOn {x : Attempt α} (h : x.PassesOn) :
    x.StopsAt c k requested error := by
  unfold StopsAt
  intro run run'
  have hcut : Logged.CutShort requested error k run run' := by
    have hcut := cutShort_run c k requested error h 0
    rwa [Nat.zero_add] at hcut
  clear_value run run'
  cases hcut with
  | reached before e after outcome hk =>
    have hhanded : (Logged.mk (before ++ .lowering e :: after) outcome).handedOver =
        before.filterMap Step.expr? ++ e :: after.filterMap Step.expr? := List.filterMap_append
    have hlast : (Step.lowering e :: (requested e).map .request).filterMap Step.expr? = [e] :=
      Logged.handedOver_lowering e (requested e) outcome
    have hhanded' : (Logged.mk (before ++ .lowering e :: (requested e).map .request)
        (Except.error (α := α) error)).handedOver = before.filterMap Step.expr? ++ [e] := by
      change (_ ++ _ : List Step).filterMap Step.expr? = _
      rw [List.filterMap_append, hlast]
    rw [hhanded, hhanded']
    constructor
    · intro _
      refine ⟨rfl, ?_, before, e, after, rfl, ?_, rfl⟩
      · rw [← hk, List.take_length_add_append]
        rfl
      · rw [← hk, List.take_left]
    · intro hle
      rw [List.length_append, hk, List.length_cons] at hle
      omega
  | missed hk => exact ⟨fun hlt => absurd hk (Nat.not_le.mpr hlt), fun _ => rfl⟩

end Attempt

/-- An attempt that asks once more where it has failed is none that stops there. -/
example :
    let c : Context := ⟨fun _ _ => .pure (.inputRef 0), Request.node⟩
    let e : Expr := .field "a" 0
    let x : Attempt (Except LowerError Node) := .lower e fun _ => .ask e
    (x.run (c.failingAt 0 (fun _ => []) (.unsupportedFunction .upper)) 0).handedOver = [e, e] := rfl

/-- A failing operand stops a rule or a conversion at once, and its error passes through unchanged:
of the arguments that are lowered without that failure, those up to the failing one are lowered,
with the same requests in front of it, and if there are fewer the run is the same. The rules and
conversions that get failures back run as their recipes do. -/
theorem failing_operand_stops (c : Context) (k : Nat) (requested : Expr → List Request)
    (error : LowerError) (call : Call) :
    (∀ rule : TableRule, (rule.attempt call).StopsAt c k requested error ∧
      (rule.attempt call).run c 0 = (rule.toRule call).run c 0) ∧
    ∀ conversion : JsonConversion, (conversion.attempt call).StopsAt c k requested error ∧
      (conversion.attempt call).run c 0 = (conversion.recipe call).run c 0 := by
  constructor
  · intro rule
    rw [rule.attempt_eq]
    exact ⟨Attempt.stopsAt_of_passesOn c k requested error (Attempt.passesOn_toAttempt _),
      Recipe.run_toAttempt c _ 0⟩
  · intro conversion
    rw [conversion.attempt_eq]
    exact ⟨Attempt.stopsAt_of_passesOn c k requested error (Attempt.passesOn_toAttempt _),
      Recipe.run_toAttempt c _ 0⟩

/-- The default of an empty result is lowered after one flag has been requested, and its failure
comes before that of the missing behavior on an error. A failure at a later number changes nothing,
and to the direct rule a failure matters only if the rule claims the function. -/
theorem failing_operand_stops_used_default :
    let c : Context := ⟨fun count _ => .pure (.inputRef (.ofNat count)), Request.node⟩
    let value : Expr := .literal (.integer 0)
    let call : Call := ⟨.jsonValue, [.field "j" 0, .literal (.string "$"), .type .integer,
      .literal (.symbol (.valueFallback .default)), value, value, value]⟩
    let failing (k : Nat) := c.failingAt k (fun _ => []) (.unsupportedFunction .upper)
    let x := JsonConversion.jsonValue.attempt call
    (x.run c 0).outcome = .error (.missingConfiguration .jsonValue "on-error") ∧
      (x.run (failing 2) 0).outcome = .error (.unsupportedFunction .upper) ∧
      (x.run (failing 2) 0).handedOver = [.field "j" 0, .literal (.string "$"), value] ∧
      x.run (failing 3) 0 = x.run c 0 ∧
      (TableRule.direct.attempt call).run (failing 0) 0 = .pure none ∧
      ((TableRule.direct.attempt ⟨.and, [value, value]⟩).run (failing 1) 0).outcome =
        .error (.unsupportedFunction .upper) := by
  intro c value call failing x
  have hstops (k : Nat) (call : Call) :=
    failing_operand_stops c k (fun _ => []) (.unsupportedFunction .upper) call
  have hthree : (x.run c 0).handedOver = [.field "j" 0, .literal (.string "$"), value] := rfl
  have hlt : 2 < (x.run c 0).handedOver.length := Nat.le_refl 3
  have hle : (x.run c 0).handedOver.length ≤ 3 := Nat.le_refl 3
  obtain ⟨houtcome, hhanded, -⟩ := ((hstops 2 call).2 .jsonValue).1.1 hlt
  refine ⟨rfl, houtcome, ?_, ((hstops 3 call).2 .jsonValue).1.2 hle, ?_, ?_⟩
  · rw [hhanded, hthree]
    rfl
  · exact ((hstops 0 call).1 .direct).1.2 (Nat.le_refl 0)
  · exact (((hstops 1 ⟨.and, [value, value]⟩).1 .direct).1.1 (Nat.le_refl 2)).1

end RowPlan
