import RowPlan.Lowering.Rule

/-! Laws of carrying recipes out. `Recipe.perform` keeps of a run only what the lowering of a
whole expression keeps: the requests and the outcome. It sends sequencing to sequencing, and two
runs whose lowerings agree up to an early error agree up to that error. -/
namespace RowPlan

namespace Logged
variable {ε δ α β γ : Type}

theorem outcome_bind (x : Logged ε α) (f : α → Logged ε β) :
    (x.bind f).outcome = x.outcome.bind fun a => (f a).outcome := by
  unfold Logged.bind
  cases x.outcome with
  | ok a => rfl
  | error error => rfl

theorem bind_of_ok {x : Logged ε α} {a : α} (h : x.outcome = .ok a) (f : α → Logged ε β) :
    x.bind f = ⟨x.log ++ (f a).log, (f a).outcome⟩ := by
  simp only [Logged.bind, h]

theorem bind_of_error {x : Logged ε α} {error : LowerError} (h : x.outcome = .error error)
    (f : α → Logged ε β) : x.bind f = ⟨x.log, .error error⟩ := by
  simp only [Logged.bind, h]

theorem outcome_bind_eq_ok_iff {x : Logged ε α} {f : α → Logged ε β} {b : β} :
    (x.bind f).outcome = .ok b ↔ ∃ a, x.outcome = .ok a ∧ (f a).outcome = .ok b := by
  rw [outcome_bind]
  cases x.outcome with
  | ok a => simp [Except.bind]
  | error error => simp [Except.bind]

/-- A sequence fails in its first part or, if that has succeeded, in its second. -/
theorem bind_eq_error_iff {x : Logged ε α} {f : α → Logged ε β} {log : List ε}
    {error : LowerError} :
    x.bind f = ⟨log, .error error⟩ ↔
      x = ⟨log, .error error⟩ ∨
        ∃ a last, x.outcome = .ok a ∧ f a = ⟨last, .error error⟩ ∧ log = x.log ++ last := by
  obtain ⟨first, outcome⟩ := x
  cases outcome with
  | error error' =>
    rw [bind_of_error rfl]
    constructor
    · intro h
      cases h
      exact Or.inl rfl
    · rintro (h | ⟨a, last, h, -⟩)
      · cases h
        rfl
      · cases h
  | ok a =>
    rw [bind_of_ok rfl]
    constructor
    · intro h
      have hlog : first ++ (f a).log = log := congrArg Logged.log h
      have hfail : (f a).outcome = .error error := congrArg Logged.outcome h
      exact Or.inr ⟨a, (f a).log, rfl, congrArg (Logged.mk _) hfail, hlog.symm⟩
    · rintro (h | ⟨b, last, hb, hfail, rfl⟩)
      · cases h
      · cases hb
        rw [hfail]

/-- Nothing is left of the second part when it cannot fail itself. -/
theorem bind_eq_error_iff_of_ok {x : Logged ε α} {f : α → Logged ε β} {log : List ε}
    {error : LowerError} (hf : ∀ a, ∃ b, (f a).outcome = .ok b) :
    x.bind f = ⟨log, .error error⟩ ↔ x = ⟨log, .error error⟩ := by
  rw [bind_eq_error_iff]
  apply or_iff_left
  rintro ⟨a, last, -, hfail, -⟩
  obtain ⟨b, hb⟩ := hf a
  rw [hfail] at hb
  cases hb

theorem bind_pure (x : Logged ε α) : x.bind pure = x := by
  obtain ⟨log, outcome⟩ := x
  cases outcome with
  | ok a => simp only [Logged.bind, Logged.pure, List.append_nil]
  | error error => rfl

theorem bind_assoc (x : Logged ε α) (f : α → Logged ε β) (g : β → Logged ε γ) :
    (x.bind f).bind g = x.bind fun a => (f a).bind g := by
  obtain ⟨log, outcome⟩ := x
  cases outcome with
  | error error => rfl
  | ok a =>
    simp only [Logged.bind]
    cases (f a).outcome with
    | ok b => simp only [List.append_assoc]
    | error error => rfl

theorem requests_after_lowering (e : Expr) (x : Logged Step α) :
    (after (.lowering e) x).requests = x.requests := rfl

theorem requests_mapLog (x : Logged Request α) : (x.mapLog Step.request).requests = x := by
  have hlog (rs : List Request) : (rs.map Step.request).filterMap Step.request? = rs := by
    rw [List.filterMap_map]
    exact List.filterMap_some
  simp only [mapLog, requests, hlog]

theorem requests_bind (x : Logged Step α) (f : α → Logged Step β) :
    (x.bind f).requests = x.requests.bind fun a => (f a).requests := by
  obtain ⟨log, outcome⟩ := x
  cases outcome with
  | ok a => simp only [Logged.bind, requests, List.filterMap_append]
  | error error => rfl

/-- The first run is the second, or it stopped on the way of the second with an error of the
given kind. -/
def UpTo (early : LowerError → Prop) (x y : Logged ε α) : Prop :=
  x = y ∨ (∃ error, early error ∧ x.outcome = .error error) ∧ x.log <+: y.log

theorem upTo_refl (early : LowerError → Prop) (x : Logged ε α) : UpTo early x x := Or.inl rfl

theorem prefix_log_bind (x : Logged ε α) (f : α → Logged ε β) : x.log <+: (x.bind f).log := by
  unfold Logged.bind
  cases x.outcome with
  | ok a => exact List.prefix_append _ _
  | error error => exact List.prefix_rfl

theorem upTo_bind {early : LowerError → Prop} {x y : Logged ε α} {f g : α → Logged ε β}
    (hxy : UpTo early x y) (hfg : ∀ a, UpTo early (f a) (g a)) :
    UpTo early (x.bind f) (y.bind g) := by
  rcases hxy with rfl | ⟨⟨error, he, hx⟩, hlog⟩
  · -- The first parts agree, so the second parts decide.
    obtain ⟨log, outcome⟩ := x
    cases outcome with
    | error error => exact Or.inl rfl
    | ok a =>
      rcases hfg a with hfg | ⟨hfail, hlog⟩
      · exact Or.inl (by simp only [Logged.bind, hfg])
      · exact Or.inr ⟨hfail, (List.prefix_append_right_inj log).mpr hlog⟩
  · -- The first part stopped early, and what it logged is still a beginning.
    have hxf : x.bind f = ⟨x.log, .error error⟩ := bind_of_error hx f
    refine Or.inr ⟨⟨error, he, by rw [hxf]⟩, ?_⟩
    rw [hxf]
    exact hlog.trans (prefix_log_bind y g)

end Logged

namespace Recipe
variable {α β γ : Type}

theorem bind_eq (r : Recipe α) (f : α → Recipe β) : r >>= f = r.bind f := rfl

theorem bind_done (r : Recipe α) : r.bind done = r := by
  induction r with
  | done a => rfl
  | fail error => rfl
  | lower e next ih => simp only [Recipe.bind, ih]
  | build request next ih => simp only [Recipe.bind, ih]

theorem bind_assoc (r : Recipe α) (f : α → Recipe β) (g : β → Recipe γ) :
    (r.bind f).bind g = r.bind fun a => (f a).bind g := by
  induction r with
  | done a => rfl
  | fail error => rfl
  | lower e next ih => simp only [Recipe.bind, ih]
  | build request next ih => simp only [Recipe.bind, ih]

/-- Carry a recipe out and keep the requests alone, in a context that lowers alike at every
position. -/
def perform (lowering : Expr → Logged Request Node) (builder : Builder) :
    Recipe α → Logged Request α
  | done a => .pure a
  | fail error => .fail error
  | lower e next => (lowering e).bind fun n => (next n).perform lowering builder
  | build request next =>
    Logged.bind ⟨[request], .ok (builder request)⟩ fun n => (next n).perform lowering builder

variable (lowering : Expr → Logged Request Node) (builder : Builder)

theorem requests_run (count : Nat) (r : Recipe α) :
    (r.run ⟨fun _ e => lowering e, builder⟩ count).requests = r.perform lowering builder := by
  -- Such a context does not look at the count.
  induction r generalizing count with
  | done a => rfl
  | fail error => rfl
  | lower e next ih =>
    rw [Recipe.run, Logged.requests_after_lowering, Logged.requests_bind,
      Logged.requests_mapLog, perform]
    simp only [ih]
  | build request next ih =>
    rw [Recipe.run, Logged.requests_bind, Logged.requests_mapLog, perform]
    simp only [ih, Context.build]

theorem perform_bind (r : Recipe α) (f : α → Recipe β) :
    (r.bind f).perform lowering builder =
      (r.perform lowering builder).bind fun a => (f a).perform lowering builder := by
  induction r with
  | done a => rfl
  | fail error => rfl
  | lower e next ih => simp only [Recipe.bind, perform, ih, Logged.bind_assoc]
  | build request next ih => simp only [Recipe.bind, perform, ih, Logged.bind_assoc]

theorem perform_lowered (e : Expr) : (lowered e).perform lowering builder = lowering e :=
  Logged.bind_pure (lowering e)

/-- A recipe has no way to go on after a failed lowering, so neither has its run. -/
theorem upTo_perform {early : LowerError → Prop} {lowering' : Expr → Logged Request Node}
    (h : ∀ e, Logged.UpTo early (lowering e) (lowering' e)) (r : Recipe α) :
    Logged.UpTo early (r.perform lowering builder) (r.perform lowering' builder) := by
  induction r with
  | done a => exact Logged.upTo_refl _ _
  | fail error => exact Logged.upTo_refl _ _
  | lower e next ih => exact Logged.upTo_bind (h e) ih
  | build request next ih => exact Logged.upTo_bind (Logged.upTo_refl _ _) ih

/-- The outcome of a recipe depends on what it lowers only by the outcomes of that. -/
theorem outcome_perform_silent (r : Recipe α) :
    (r.perform (fun e => ⟨[], (lowering e).outcome⟩) builder).outcome =
      (r.perform lowering builder).outcome := by
  induction r with
  | done a => rfl
  | fail error => rfl
  | lower e next ih =>
    rw [perform, perform, Logged.outcome_bind, Logged.outcome_bind]
    congr 1
    funext n
    exact ih n
  | build request next ih => exact ih (builder request)

/-- A recipe that succeeds does so in the same way where all that it lowers becomes the same. -/
theorem outcome_perform_of_ok {lowering' : Expr → Logged Request Node}
    (h : ∀ e n, (lowering e).outcome = .ok n → (lowering' e).outcome = .ok n) (r : Recipe α) {a : α}
    (ha : (r.perform lowering builder).outcome = .ok a) :
    (r.perform lowering' builder).outcome = .ok a := by
  induction r with
  | done b => exact ha
  | fail error => exact ha
  | lower e next ih =>
    obtain ⟨n, hn, ha⟩ := Logged.outcome_bind_eq_ok_iff.mp ha
    exact Logged.outcome_bind_eq_ok_iff.mpr ⟨n, h e n hn, ih n ha⟩
  | build request next ih => exact ih (builder request) ha

end Recipe

end RowPlan
