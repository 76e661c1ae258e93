import RowPlan.Proofs.AllOrNothing
import RowPlan.Proofs.Sources

/-! `JSON_VALUE` in any context. Its two clauses bring two or three operands each, and a default
value is lowered exactly if its clause uses it. Reading the configuration and lowering alternate, so
what has been handed over before a failure depends on what is missing. -/
namespace RowPlan

/-- What a behavior makes use of: something if it is `DEFAULT`, else nothing. -/
def Symbol.ValueFallback.ifDefault {α : Type} (b : Symbol.ValueFallback) (x : α) : List α :=
  if b = .default then [x] else []

namespace JsonConversion

/-- The operands of a clause as a builder makes them: the flag of its behavior, the default value if
that is the behavior, and the marker of the clause. -/
def clauseNodes (builder : Builder) (b : Symbol.ValueFallback) (value : Node)
    (clause : Flag.Clause) : List Node :=
  builder (.flag (.valueFallback (.ofSymbol b))) ::
    (b.ifDefault value ++ [builder (.flag (.clause clause))])

/-- The operands of `JSON_VALUE` over lowered arguments. -/
def valueOperands (builder : Builder) (json path : Node) (onEmpty : Symbol.ValueFallback)
    (emptyDefault : Node) (onError : Symbol.ValueFallback) (errorDefault : Node) : List Node :=
  [json, path] ++ clauseNodes builder onEmpty emptyDefault .empty ++
    clauseNodes builder onError errorDefault .error

theorem usedDefault_valueFallback (b : Symbol.ValueFallback) (value : Expr) :
    usedDefault (.literal (.symbol (.valueFallback b))) value = b.ifDefault value := by
  cases b <;> rfl

theorem clauseNodes_node (b : Symbol.ValueFallback) (value : Node) (clause : Flag.Clause) :
    clauseNodes Request.node b value clause = clauseOperands (.ofSymbol b) value clause := by
  cases b <;> rfl

variable {c : Context} {count : Nat}

theorem exists_eq_ifDefault {b : Symbol.ValueFallback} {value : Expr} {ns : List Node}
    (h : c.Lowers count (b.ifDefault value) ns) : ∃ v, ns = b.ifDefault v := by
  cases b with
  | null =>
    cases h
    exact ⟨.inputRef 0, rfl⟩
  | error =>
    cases h
    exact ⟨.inputRef 0, rfl⟩
  | default =>
    obtain _ | ⟨he, hes⟩ := h
    cases hes
    exact ⟨_, rfl⟩

/-- A clause goes through exactly if its behavior is one of its own enumeration and the default
value, if used, can be lowered. -/
theorem brings_clauseStages_iff {f : BuiltIn} {slot : String} {behavior value : Expr}
    {clause : Flag.Clause} {ns : List Node} :
    Stage.Brings c count (clauseStages f slot behavior value clause) ns ↔
      ∃ b v, behavior = .literal (.symbol (.valueFallback b)) ∧
        c.Lowers count (b.ifDefault value) (b.ifDefault v) ∧
        ns = clauseNodes c.builder b v clause := by
  have hstages (b : Symbol.ValueFallback) :
      clauseStages f slot (.literal (.symbol (.valueFallback b))) value clause =
        .check (.slot f Expr.valueFallback? slot (.literal (.symbol (.valueFallback b)))) ::
          .flag (.valueFallback (.ofSymbol b)) ::
            ((b.ifDefault value).map .operand ++ [Flag.clause clause].map .flag) := by
    rw [clauseStages, usedDefault_valueFallback]
    rfl
  constructor
  · intro h
    have hbehavior : behavior.valueFallback?.isSome = true := by
      obtain _ | ⟨hbehavior, -⟩ := h
      exact hbehavior
    -- With the behavior known, so are the stages: its check, its flag, the value and the marker.
    obtain ⟨b, hb⟩ := Option.isSome_iff_exists.mp hbehavior
    obtain rfl := Expr.valueFallback?_eq_some_iff.mp hb
    rw [hstages] at h
    obtain _ | ⟨-, _ | _ | _ | h⟩ := h
    obtain ⟨ms, ls, rfl, hvalue, hmarker⟩ := Stage.brings_append_iff.mp h
    have hvalue := Stage.brings_operands_iff.mp hvalue
    obtain ⟨v, rfl⟩ := exists_eq_ifDefault hvalue
    obtain rfl := Stage.brings_flags_iff.mp hmarker
    exact ⟨b, v, rfl, hvalue, rfl⟩
  · rintro ⟨b, v, rfl, hv, rfl⟩
    rw [hstages]
    exact .check rfl (.flag ((Stage.brings_operands_iff.mpr hv).append
      (Stage.brings_flags_iff.mpr rfl)))

theorem lowered_clauseStages (f : BuiltIn) (slot : String) (behavior value : Expr)
    (clause : Flag.Clause) :
    Stage.lowered (clauseStages f slot behavior value clause) = usedDefault behavior value := by
  change Stage.lowered (_ ++ _ ++ [Flag.clause clause].map .flag) = _
  rw [Stage.lowered_append, Stage.lowered_append, Stage.lowered_flagOf, Stage.lowered_operands,
    Stage.lowered_flags, List.nil_append, List.append_nil]

/-- Behind stages that check nothing and one that does, a check is that one or comes later. -/
theorem check_split {A B before after : List Stage} {check k : Check}
    (hA : ∀ k, .check k ∉ A) (h : A ++ .check check :: B = before ++ .check k :: after) :
    (before = A ∧ k = check) ∨
      ∃ rest, before = A ++ .check check :: rest ∧ B = rest ++ .check k :: after := by
  rcases append_eq_append_cons h with ⟨rest, hrest⟩ | ⟨rest, rfl, hrest⟩
  · have hmem : .check k ∈ A := by
      rw [hrest]
      exact List.mem_append_right before List.mem_cons_self
    exact absurd hmem (hA k)
  · cases rest with
    | nil =>
      obtain ⟨hk, -⟩ := List.cons.inj hrest
      exact Or.inl ⟨List.append_nil A, (Stage.check.inj hk).symm⟩
    | cons s rest =>
      obtain ⟨rfl, hB⟩ := List.cons.inj hrest
      exact Or.inr ⟨rest, rfl, hB⟩

variable {f : BuiltIn} {json path returning onEmpty emptyDefault onError errorDefault : Expr}

theorem valueStages (f : BuiltIn)
    (json path returning onEmpty emptyDefault onError errorDefault : Expr) :
    jsonValue.stages f [json, path, returning, onEmpty, emptyDefault, onError, errorDefault] =
      .check (.slot f Expr.sqlType? "returning type" returning) ::
        ([json, path].map .operand ++ clauseStages f "on-empty" onEmpty emptyDefault .empty ++
          clauseStages f "on-error" onError errorDefault .error) := rfl

theorem lowered_operands_clauseStages :
    Stage.lowered ([json, path].map .operand ++
        clauseStages f "on-empty" onEmpty emptyDefault .empty) =
      [json, path] ++ usedDefault onEmpty emptyDefault := by
  rw [Stage.lowered_append, Stage.lowered_operands, lowered_clauseStages]

theorem lowered_valueStages :
    Stage.lowered (jsonValue.stages f
        [json, path, returning, onEmpty, emptyDefault, onError, errorDefault]) =
      [json, path] ++ usedDefault onEmpty emptyDefault ++ usedDefault onError errorDefault := by
  rw [valueStages, ← lowered_operands_clauseStages (f := f), ← lowered_clauseStages f "on-error",
    ← Stage.lowered_append]
  rfl

theorem brings_valueStages_iff {ns : List Node} :
    Stage.Brings c 0 (jsonValue.stages f
        [json, path, returning, onEmpty, emptyDefault, onError, errorDefault]) ns ↔
      ∃ t b b' j p v w, returning = .type t ∧ onEmpty = .literal (.symbol (.valueFallback b)) ∧
        onError = .literal (.symbol (.valueFallback b')) ∧
        c.Lowers 0 ([json, path] ++ b.ifDefault emptyDefault ++ b'.ifDefault errorDefault)
          ([j, p] ++ b.ifDefault v ++ b'.ifDefault w) ∧
        ns = valueOperands c.builder j p b v b' w := by
  have hlength (b : Symbol.ValueFallback) (e : Expr) (j p n : Node) :
      ([json, path] ++ b.ifDefault e).length = ([j, p] ++ b.ifDefault n).length := by
    cases b <;> rfl
  rw [valueStages]
  constructor
  · intro h
    obtain _ | ⟨htype, h⟩ := h
    obtain ⟨t, ht⟩ := Option.isSome_iff_exists.mp htype
    obtain rfl := Expr.sqlType?_eq_some_iff.mp ht
    obtain ⟨ns', l, rfl, hns', hl⟩ := Stage.brings_append_iff.mp h
    obtain ⟨o, m, rfl, ho, hm⟩ := Stage.brings_append_iff.mp hns'
    obtain ⟨b, v, rfl, hv, rfl⟩ := brings_clauseStages_iff.mp hm
    obtain ⟨b', w, rfl, hw, rfl⟩ := brings_clauseStages_iff.mp hl
    have ho := Stage.brings_operands_iff.mp ho
    obtain _ | ⟨hj, _ | ⟨hp, ⟨⟩⟩⟩ := ho
    rw [lowered_operands_clauseStages, usedDefault_valueFallback] at hw
    rw [Stage.lowered_operands] at hv
    -- What the parts lower joins up, since each counts on from the one in front.
    refine ⟨t, b, b', _, _, v, w, rfl, rfl, rfl, ?_, rfl⟩
    have ho : c.Lowers 0 [json, path] [_, _] := .cons hj (.cons hp .nil)
    have hov := (Context.lowers_append_iff rfl).mpr ⟨ho, hv⟩
    exact (Context.lowers_append_iff (hlength b emptyDefault _ _ v)).mpr ⟨hov, hw⟩
  · rintro ⟨t, b, b', j, p, v, w, rfl, rfl, rfl, h, rfl⟩
    obtain ⟨hov, hw⟩ := (Context.lowers_append_iff (hlength b emptyDefault j p v)).mp h
    obtain ⟨ho, hv⟩ := (Context.lowers_append_iff rfl).mp hov
    refine .check rfl (Stage.Brings.append (Stage.Brings.append
      (Stage.brings_operands_iff.mpr ho) (brings_clauseStages_iff.mpr ⟨b, v, rfl, ?_, rfl⟩))
      (brings_clauseStages_iff.mpr ⟨b', w, rfl, ?_, rfl⟩))
    · rwa [Stage.lowered_operands]
    · rwa [lowered_operands_clauseStages, usedDefault_valueFallback]

/-- What a call with seven arguments fails with, and what it has handed over by then. The type is
read before anything is lowered, and each behavior after all that is lowered for what stands before
it. -/
inductive ValueFails (c : Context) (f : BuiltIn)
    (json path returning onEmpty emptyDefault onError : Expr) : List Expr → LowerError → Prop where
  | returning (h : returning.sqlType? = none) :
    ValueFails c f json path returning onEmpty emptyDefault onError []
      (.missingConfiguration f "returning type")
  | lowering {es : List Expr} {error : LowerError} (htype : returning.sqlType?.isSome = true)
    (h : c.FailsAtLast es error) :
    ValueFails c f json path returning onEmpty emptyDefault onError es error
  | onEmpty {ns : List Node} (htype : returning.sqlType?.isSome = true)
    (hns : c.Lowers 0 [json, path] ns) (h : onEmpty.valueFallback? = none) :
    ValueFails c f json path returning onEmpty emptyDefault onError [json, path]
      (.missingConfiguration f "on-empty")
  | onError {ns : List Node} (htype : returning.sqlType?.isSome = true)
    (hempty : onEmpty.valueFallback?.isSome = true)
    (hns : c.Lowers 0 ([json, path] ++ usedDefault onEmpty emptyDefault) ns)
    (h : onError.valueFallback? = none) :
    ValueFails c f json path returning onEmpty emptyDefault onError
      ([json, path] ++ usedDefault onEmpty emptyDefault) (.missingConfiguration f "on-error")

theorem check_not_mem_clause {α : Type} {flag : α → Flag} {read : Option α} {es : List Expr}
    {marker : Flag} (k : Check) :
    .check k ∉ Stage.flagOf flag read ++ es.map .operand ++ [.flag marker] := by
  simp [Stage.flagOf]

/-- Only three checks are made, and between them come the operands. -/
theorem check_in_valueStages {before after : List Stage} {k : Check}
    (h : jsonValue.stages f [json, path, returning, onEmpty, emptyDefault, onError, errorDefault] =
      before ++ .check k :: after) :
    (before = [] ∧ k = .slot f Expr.sqlType? "returning type" returning) ∨
      (before = .check (.slot f Expr.sqlType? "returning type" returning) ::
          [json, path].map .operand ∧ k = .slot f Expr.valueFallback? "on-empty" onEmpty) ∨
      (before = .check (.slot f Expr.sqlType? "returning type" returning) ::
          ([json, path].map .operand ++ clauseStages f "on-empty" onEmpty emptyDefault .empty) ∧
        k = .slot f Expr.valueFallback? "on-error" onError) := by
  rcases check_split (A := []) (fun k => List.not_mem_nil) h with ⟨rfl, rfl⟩ | ⟨rest, rfl, h₁⟩
  · exact Or.inl ⟨rfl, rfl⟩
  · rcases check_split (A := [json, path].map .operand) (by simp) h₁ with
      ⟨rfl, rfl⟩ | ⟨rest, rfl, h₂⟩
    · exact Or.inr (Or.inl ⟨rfl, rfl⟩)
    · rcases check_split check_not_mem_clause h₂ with ⟨rfl, rfl⟩ | ⟨rest, rfl, h₃⟩
      · exact Or.inr (Or.inr ⟨rfl, rfl⟩)
      · -- Behind the third check there is none.
        have hmem : .check k ∈ rest ++ .check k :: after :=
          List.mem_append_right rest List.mem_cons_self
        rw [← h₃] at hmem
        exact absurd hmem (check_not_mem_clause k)

theorem valueFails_of_failsIn {before after : List Stage} {s : Stage} {ns : List Node}
    {error : LowerError}
    (hsplit : jsonValue.stages f
      [json, path, returning, onEmpty, emptyDefault, onError, errorDefault] = before ++ s :: after)
    (hbefore : Stage.Brings c 0 before ns)
    (hs : s.FailsIn c (Stage.lowered before).length error) :
    ValueFails c f json path returning onEmpty emptyDefault onError
      (Stage.lowered (before ++ [s])) error := by
  cases hs with
  | operand he =>
    obtain ⟨ms, hms⟩ := hbefore.exists_lowers
    -- The first stage is a check, so it stands in front of the operand.
    have htype : returning.sqlType?.isSome = true := by
      cases before with
      | nil => cases hsplit
      | cons s before =>
        obtain ⟨rfl, -⟩ := List.cons.inj hsplit
        obtain _ | ⟨htype, -⟩ := hbefore
        exact htype
    rw [Stage.lowered_append]
    exact .lowering htype ⟨_, _, ms, rfl, hms, he⟩
  | check hk =>
    rcases check_in_valueStages hsplit with ⟨rfl, rfl⟩ | ⟨rfl, rfl⟩ | ⟨rfl, rfl⟩
    · exact .returning (Option.not_isSome_iff_eq_none.mp (Bool.eq_false_iff.mp hk))
    · obtain _ | ⟨htype, ho⟩ := hbefore
      exact .onEmpty htype (Stage.brings_operands_iff.mp ho)
        (Option.not_isSome_iff_eq_none.mp (Bool.eq_false_iff.mp hk))
    · obtain _ | ⟨htype, h⟩ := hbefore
      obtain ⟨ms, hms⟩ := h.exists_lowers
      obtain ⟨_, _, rfl, _, hempty⟩ := Stage.brings_append_iff.mp h
      obtain ⟨b, v, rfl, -⟩ := brings_clauseStages_iff.mp hempty
      rw [lowered_operands_clauseStages] at hms
      have hhanded : Stage.lowered (.check (.slot f Expr.sqlType? "returning type" returning) ::
          ([json, path].map .operand ++ clauseStages f "on-empty"
            (.literal (.symbol (.valueFallback b))) emptyDefault .empty) ++
          [.check (.slot f Expr.valueFallback? "on-error" onError)]) =
          [json, path] ++ usedDefault (.literal (.symbol (.valueFallback b))) emptyDefault := by
        rw [Stage.lowered_append, ← lowered_operands_clauseStages (f := f)]
        exact List.append_nil _
      rw [hhanded]
      exact .onError htype rfl hms (Option.not_isSome_iff_eq_none.mp (Bool.eq_false_iff.mp hk))

/-- The run of a call with seven arguments either goes through all stages or fails in one. -/
theorem run_seven (c : Context) (f : BuiltIn)
    (json path returning onEmpty emptyDefault onError errorDefault : Expr) :
    let args := [json, path, returning, onEmpty, emptyDefault, onError, errorDefault]
    let run := (jsonValue.recipe ⟨f, args⟩).run c 0
    let used := [json, path] ++ usedDefault onEmpty emptyDefault ++ usedDefault onError errorDefault
    (∃ ns, Stage.Brings c 0 (jsonValue.stages f args) ns ∧ run.handedOver = used ∧
        run.outcome = .ok (c.builder ((jsonValue.course ⟨f, args⟩).request ns))) ∨
      ∃ error,
        ValueFails c f json path returning onEmpty emptyDefault onError run.handedOver error ∧
          run.handedOver <+: used ∧ run.outcome = .error error := by
  intro args run used
  have hlowered : Stage.lowered (jsonValue.stages f args) = used := lowered_valueStages
  have hrun : run = Recipe.run c 0 _ :=
    congrArg (Recipe.run c 0) (recipe_of_accepted jsonValue rfl)
  rcases Stage.brings_or_failsIn c 0 (jsonValue.stages f args) with
    ⟨ns, hns⟩ | ⟨before, s, after, ns, error, hsplit, hbefore, hs⟩
  · left
    rw [Course.run_of_brings hns] at hrun
    refine ⟨ns, hns, ?_, ?_⟩
    · rw [hrun, ← hlowered]
      exact Stage.handedOver_steps_append c 0 _ [_] _
    · rw [hrun]
      rfl
  · right
    rw [Nat.zero_add] at hs
    rw [Course.run_of_failsIn hsplit hbefore hs] at hrun
    have hhanded : run.handedOver = Stage.lowered (before ++ [s]) := by
      rw [hrun]
      exact Stage.handedOver_steps c 0 _ _
    refine ⟨error, ?_, ?_, ?_⟩
    · rw [hhanded]
      exact valueFails_of_failsIn hsplit hbefore hs
    · rw [hhanded, ← hlowered, hsplit]
      exact List.IsPrefix.filterMap _ ⟨after, List.append_assoc before [s] after⟩
    · rw [hrun]

/-- Both behaviors and the default values in use can be read off the operands. -/
theorem valueOperands_node_inj {j p v w j' p' v' w' : Node} {b d b' d' : Symbol.ValueFallback}
    (h : valueOperands Request.node j p b v d w = valueOperands Request.node j' p' b' v' d' w') :
    b = b' ∧ d = d' ∧ b.ifDefault v = b'.ifDefault v' ∧ d.ifDefault w = d'.ifDefault w' := by
  have hused {b : Symbol.ValueFallback} {v v' : Node} (h : b = .default → v = v') :
      b.ifDefault v = b.ifDefault v' := by
    cases b with
    | null => rfl
    | error => rfl
    | default => rw [h rfl]
  simp only [valueOperands, clauseNodes_node, List.append_assoc] at h
  obtain ⟨-, hclauses⟩ := List.append_inj h rfl
  obtain ⟨rfl, rfl, hv, hw⟩ := clauseOperands_pair_inj hclauses
  exact ⟨rfl, rfl, hused hv, hused hw⟩

theorem outcome_jsonValue_eq_ok_iff (c : Context) (call : Call) (n : Node) :
    ((jsonValue.recipe call).run c 0).outcome = .ok n ↔
      ∃ json path t onEmpty emptyDefault onError errorDefault j p v w,
        call.args = Expr.valueArguments json path t onEmpty emptyDefault onError errorDefault ∧
          c.Lowers 0
            ([json, path] ++ onEmpty.ifDefault emptyDefault ++ onError.ifDefault errorDefault)
            ([j, p] ++ onEmpty.ifDefault v ++ onError.ifDefault w) ∧
          n = c.builder
            (.typedCall t .jsonValue (valueOperands c.builder j p onEmpty v onError w)) := by
  obtain ⟨f, args⟩ := call
  constructor
  · intro hn
    have hlength : jsonValue.arity.accepts args.length = true := by
      apply Bool.eq_true_of_not_eq_false
      intro hrejected
      rw [recipe_of_rejected jsonValue ⟨f, args⟩ hrejected] at hn
      cases hn
    obtain ⟨json, path, returning, onEmpty, emptyDefault, onError, errorDefault, rfl⟩ :=
      Arity.seven_arguments hlength
    rcases run_seven c f json path returning onEmpty emptyDefault onError errorDefault with
      ⟨ns, hns, -, hok⟩ | ⟨error, -, -, herror⟩
    · obtain ⟨t, b, d, j, p, v, w, rfl, rfl, rfl, hlowers, rfl⟩ := brings_valueStages_iff.mp hns
      have hnode := Except.ok.inj (hn.symm.trans hok)
      exact ⟨json, path, t, b, emptyDefault, d, errorDefault, j, p, v, w, rfl, hlowers, hnode⟩
    · cases hn.symm.trans herror
  · rintro ⟨json, path, t, b, emptyDefault, d, errorDefault, j, p, v, w, rfl, hlowers, rfl⟩
    have hns := (brings_valueStages_iff (f := f)).mpr
      ⟨t, b, d, j, p, v, w, rfl, rfl, rfl, hlowers, rfl⟩
    rw [recipe_of_accepted jsonValue rfl, Course.run_of_brings hns]
    rfl

/-- The run of the conversion in any context, for a call of any function. It succeeds exactly if the
type and both clauses can be read and all arguments in use can be lowered. What it hands over is a
beginning of these, up to where reading or lowering fails. -/
theorem run_jsonValue (c : Context) (call : Call) :
    let run := (jsonValue.recipe call).run c 0
    (∀ n, run.outcome = .ok n ↔
        ∃ json path t onEmpty emptyDefault onError errorDefault j p v w,
          call.args = Expr.valueArguments json path t onEmpty emptyDefault onError errorDefault ∧
            c.Lowers 0
              ([json, path] ++ onEmpty.ifDefault emptyDefault ++ onError.ifDefault errorDefault)
              ([j, p] ++ onEmpty.ifDefault v ++ onError.ifDefault w) ∧
            n = c.builder
              (.typedCall t .jsonValue (valueOperands c.builder j p onEmpty v onError w))) ∧
      (call.args.length ≠ 7 →
        run = .fail (.arity call.function (.exactly 7) call.args.length)) ∧
      (∀ json path returning onEmpty emptyDefault onError errorDefault,
        call.args = [json, path, returning, onEmpty, emptyDefault, onError, errorDefault] →
          let used :=
            [json, path] ++ usedDefault onEmpty emptyDefault ++ usedDefault onError errorDefault
          run.handedOver <+: used ∧ (∀ n, run.outcome = .ok n → run.handedOver = used) ∧
            ∀ error, run.outcome = .error error →
              ValueFails c call.function json path returning onEmpty emptyDefault onError
                run.handedOver error) ∧
      ∀ {j p v w j' p' v' w' : Node} {b d b' d' : Symbol.ValueFallback},
        valueOperands Request.node j p b v d w = valueOperands Request.node j' p' b' v' d' w' →
          b = b' ∧ d = d' ∧ b.ifDefault v = b'.ifDefault v' ∧ d.ifDefault w = d'.ifDefault w' := by
  intro run
  refine ⟨outcome_jsonValue_eq_ok_iff c call, ?_, ?_, valueOperands_node_inj⟩
  · intro hlength
    have hcount : jsonValue.arity.accepts call.args.length = false :=
      beq_eq_false_iff_ne.mpr hlength
    exact congrArg (Recipe.run c 0) (recipe_of_rejected jsonValue call hcount)
  · obtain ⟨f, args⟩ := call
    rintro json path returning onEmpty emptyDefault onError errorDefault rfl
    intro used
    rcases run_seven c f json path returning onEmpty emptyDefault onError errorDefault with
      ⟨ns, -, hhanded, hok⟩ | ⟨error, hfails, hbeginning, herror⟩
    · refine ⟨hhanded ▸ List.prefix_rfl, fun _ _ => hhanded, ?_⟩
      intro error herror
      cases hok.symm.trans herror
    · refine ⟨hbeginning, ?_, ?_⟩
      · intro n hn
        cases hn.symm.trans herror
      · intro error' herror'
        obtain rfl := Except.error.inj (herror.symm.trans herror')
        exact hfails

/-- The context answers with a column for each position, and the call is one of `NOT`. Of its two
default values only the second is used. -/
theorem run_jsonValue_error_default :
    let c : Context := ⟨fun count _ => ⟨[], .ok (.inputRef (.ofNat count))⟩, Request.node⟩
    let call : Call :=
      ⟨.not, Expr.valueArguments (.type .double) (.literal (.string "$")) .varchar .null
        (.field "a" 8) .default (.field "b" 9)⟩
    let run := (jsonValue.recipe call).run c 0
    run.outcome = .ok (.call .jsonValue
        [.inputRef 0, .inputRef 1, .literal (.symbol (.valueFallback .null)),
          .literal (.symbol (.clause .empty)), .literal (.symbol (.valueFallback .default)),
          .inputRef 2, .literal (.symbol (.clause .error))] (some .varchar)) ∧
      run.handedOver = [.type .double, .literal (.string "$"), .field "b" 9] := by
  intro c call run
  obtain ⟨hok, -, hseven, -⟩ := run_jsonValue c call
  have houtcome := (hok _).mpr ⟨_, _, _, _, _, _, _, .inputRef 0, .inputRef 1, .inputRef 0,
    .inputRef 2, rfl, .cons rfl (.cons rfl (.cons rfl .nil)), rfl⟩
  obtain ⟨-, hhanded, -⟩ := hseven _ _ _ _ _ _ _ rfl
  exact ⟨houtcome, hhanded _ houtcome⟩

end JsonConversion
end RowPlan
