import RowPlan.Proofs.Arguments
import RowPlan.Proofs.Translation
import RowPlan.Proofs.Trees

/-! Calls that can be lowered, as far as a call itself decides: how many arguments it has, what its
configuration arguments hold, and which of its arguments are lowered. The operands that such a
call translates to are flags and the translations of its lowered arguments. -/
namespace RowPlan

/-- The default value of a clause of `JSON_VALUE`, if its behavior uses one. -/
def usedDefault (behavior value : Expr) : List Expr :=
  if behavior.valueFallback? = some .default then [value] else []

/-- The arguments that are lowered: all of them, unless the function is a SQL/JSON one. -/
def loweredArgs : BuiltIn → List Expr → List Expr
  | .jsonExists, json :: path :: _ => [json, path]
  | .jsonQuery, json :: path :: _ => [json, path]
  | .jsonValue, [json, path, _, onEmpty, emptyDefault, onError, errorDefault] =>
    [json, path] ++ usedDefault onEmpty emptyDefault ++ usedDefault onError errorDefault
  | _, args => args

/-- The arguments have an accepted number, and every configuration argument is a literal of its
own enumeration. -/
inductive WellConfigured : BuiltIn → List Expr → Prop where
  | direct {f : BuiltIn} {op : Operator} {arity : Arity} {args : List Expr}
    (hf : f.direct? = some (op, arity)) (hcount : arity.accepts args.length = true) :
    WellConfigured f args
  | jsonExists (json path : Expr) : WellConfigured .jsonExists [json, path]
  | jsonExistsOnError (json path : Expr) (onError : Symbol.ExistsFallback) :
    WellConfigured .jsonExists [json, path, .literal (.symbol (.existsFallback onError))]
  | jsonQuery (json path : Expr) (wrapping : Symbol.Wrapper)
    (onEmpty onError : Symbol.QueryFallback) :
    WellConfigured .jsonQuery [json, path, .literal (.symbol (.wrapper wrapping)),
      .literal (.symbol (.queryFallback onEmpty)), .literal (.symbol (.queryFallback onError))]
  | jsonValue (json path emptyDefault errorDefault : Expr) (returning : SqlType)
    (onEmpty onError : Symbol.ValueFallback) :
    WellConfigured .jsonValue [json, path, .type returning,
      .literal (.symbol (.valueFallback onEmpty)), emptyDefault,
      .literal (.symbol (.valueFallback onError)), errorDefault]

theorem mem_usedDefault {b : Symbol.ValueFallback} {value e : Expr} :
    e ∈ usedDefault (.literal (.symbol (.valueFallback b))) value ↔ b = .default ∧ e = value := by
  have hb : (Expr.literal (.symbol (.valueFallback b))).valueFallback? = some b := rfl
  rw [usedDefault, hb]
  by_cases h : b = .default
  · simp [h]
  · simp [h]

theorem mem_loweredArgs_jsonValue {json path returning emptyDefault errorDefault e : Expr}
    {b c : Symbol.ValueFallback} :
    e ∈ loweredArgs .jsonValue [json, path, returning, .literal (.symbol (.valueFallback b)),
        emptyDefault, .literal (.symbol (.valueFallback c)), errorDefault] ↔
      e = json ∨ e = path ∨ (b = .default ∧ e = emptyDefault) ∨
        (c = .default ∧ e = errorDefault) := by
  simp only [loweredArgs, List.mem_append, List.mem_cons, List.not_mem_nil, or_false,
    mem_usedDefault, or_assoc]

section
variable {P : Expr → Prop} {json path : Expr}

theorem forall_mem_loweredArgs_jsonExists (rest : List Expr) :
    (∀ e ∈ loweredArgs .jsonExists (json :: path :: rest), P e) ↔ P json ∧ P path := by
  rw [loweredArgs, List.forall_mem_cons, List.forall_mem_singleton]

theorem forall_mem_loweredArgs_jsonQuery (rest : List Expr) :
    (∀ e ∈ loweredArgs .jsonQuery (json :: path :: rest), P e) ↔ P json ∧ P path := by
  rw [loweredArgs, List.forall_mem_cons, List.forall_mem_singleton]

theorem forall_mem_loweredArgs_jsonValue {returning emptyDefault errorDefault : Expr}
    {b c : Symbol.ValueFallback} :
    (∀ e ∈ loweredArgs .jsonValue [json, path, returning, .literal (.symbol (.valueFallback b)),
        emptyDefault, .literal (.symbol (.valueFallback c)), errorDefault], P e) ↔
      P json ∧ P path ∧ (b = .default → P emptyDefault) ∧ (c = .default → P errorDefault) := by
  simp only [mem_loweredArgs_jsonValue]
  constructor
  · intro h
    exact ⟨h json (Or.inl rfl), h path (Or.inr (Or.inl rfl)),
      fun hb => h emptyDefault (Or.inr (Or.inr (Or.inl ⟨hb, rfl⟩))),
      fun hc => h errorDefault (Or.inr (Or.inr (Or.inr ⟨hc, rfl⟩)))⟩
  · rintro ⟨hjson, hpath, hempty, herror⟩ e (rfl | rfl | ⟨hb, rfl⟩ | ⟨hc, rfl⟩)
    · exact hjson
    · exact hpath
    · exact hempty hb
    · exact herror hc

end

theorem loweredArgs_direct {f : BuiltIn} {x : Operator × Arity} (hf : f.direct? = some x)
    (args : List Expr) : loweredArgs f args = args := by
  cases f <;> first | rfl | cases hf

theorem Arity.pos_of_direct {f : BuiltIn} {op : Operator} {arity : Arity} {count : Nat}
    (hf : f.direct? = some (op, arity)) (h : arity.accepts count = true) : 0 < count := by
  apply Nat.pos_of_ne_zero
  rintro rfl
  -- No arity in the table accepts an empty list.
  cases f <;> cases hf <;> exact absurd h Bool.false_ne_true

theorem eq_of_mem_usedDefault {behavior value e : Expr} (he : e ∈ usedDefault behavior value) :
    e = value := by
  unfold usedDefault at he
  split at he
  · exact List.mem_singleton.mp he
  · exact absurd he List.not_mem_nil

theorem mem_args_of_mem_loweredArgs {f : BuiltIn} {args : List Expr} {e : Expr}
    (he : e ∈ loweredArgs f args) : e ∈ args := by
  unfold loweredArgs at he
  split at he
  · exact List.mem_of_mem_take (i := 2) he
  · exact List.mem_of_mem_take (i := 2) he
  · rcases List.mem_append.mp he with he | he
    · rcases List.mem_append.mp he with he | he
      · exact List.mem_of_mem_take (i := 2) he
      · simp [eq_of_mem_usedDefault he]
    · simp [eq_of_mem_usedDefault he]
  · exact he

theorem mem_clauseOperands {b : Flag.ValueFallback} {value : Node} {clause : Flag.Clause}
    {n : Node} :
    n ∈ clauseOperands b value clause ↔ n = .literal (.symbol (.valueFallback b)) ∨
      (b = .default ∧ n = value) ∨ n = .literal (.symbol (.clause clause)) := by
  unfold clauseOperands
  split
  · simp_all
  · simp_all

theorem Flag.ValueFallback.ofSymbol_eq_default_iff {b : Symbol.ValueFallback} :
    ofSymbol b = .default ↔ b = .default := by
  cases b <;> simp [ofSymbol]

/-- The operands of a call are flags and the translations of certain arguments, all of them. -/
def HasOperands (n : Node) (lowered : List Expr) : Prop :=
  ∃ op operands type, n = .call op operands type ∧
    (∀ m ∈ operands, m.isFlag = true ∨ ∃ e ∈ lowered, m = e.translation) ∧
    ∀ e ∈ lowered, e.translation ∈ operands

namespace WellConfigured
variable {f : BuiltIn} {args : List Expr}

theorem exists_lowered (h : WellConfigured f args) : ∃ e, e ∈ loweredArgs f args := by
  cases h with
  | direct hf hcount =>
    rw [loweredArgs_direct hf]
    exact List.exists_mem_of_length_pos (Arity.pos_of_direct hf hcount)
  | jsonExists json path => exact ⟨json, List.mem_cons_self⟩
  | jsonExistsOnError json path onError => exact ⟨json, List.mem_cons_self⟩
  | jsonQuery json path wrapping onEmpty onError => exact ⟨json, List.mem_cons_self⟩
  | jsonValue json path emptyDefault errorDefault returning onEmpty onError =>
    exact ⟨json, List.mem_cons_self⟩

theorem hasOperands (h : WellConfigured f args) :
    HasOperands (Expr.call f args).translation (loweredArgs f args) := by
  cases h with
  | direct hf hcount =>
    rw [loweredArgs_direct hf, Expr.translation_call_direct hf]
    refine ⟨_, _, _, rfl, ?_, fun e he => List.mem_map_of_mem he⟩
    intro m hm
    obtain ⟨e, he, rfl⟩ := List.mem_map.mp hm
    exact Or.inr ⟨e, he, rfl⟩
  | jsonExists json path =>
    rw [Expr.translation_jsonExists]
    refine ⟨_, _, _, rfl, ?_, ?_⟩
    · simp [loweredArgs]
    · simp [loweredArgs]
  | jsonExistsOnError json path onError =>
    rw [Expr.translation_jsonExists]
    refine ⟨_, _, _, rfl, ?_, ?_⟩
    · simp [loweredArgs, Expr.translation, Literal.map, Node.isFlag, Node.flag?]
    · simp [loweredArgs]
  | jsonQuery json path wrapping onEmpty onError =>
    rw [Expr.translation_jsonQuery]
    refine ⟨_, _, _, rfl, ?_, ?_⟩
    · simp [loweredArgs, Expr.translation, Literal.map, Node.isFlag, Node.flag?]
    · simp [loweredArgs]
  | jsonValue json path emptyDefault errorDefault returning onEmpty onError =>
    refine ⟨_, _, _, rfl, ?_, ?_⟩
    · intro m hm
      simp only [List.mem_cons, List.mem_append, mem_clauseOperands,
        Flag.ValueFallback.ofSymbol_eq_default_iff] at hm
      simp only [mem_loweredArgs_jsonValue]
      rcases hm with rfl | rfl | (rfl | ⟨hb, rfl⟩ | rfl) | rfl | ⟨hc, rfl⟩ | rfl
      · exact Or.inr ⟨json, Or.inl rfl, rfl⟩
      · exact Or.inr ⟨path, Or.inr (Or.inl rfl), rfl⟩
      · exact Or.inl rfl
      · exact Or.inr ⟨emptyDefault, Or.inr (Or.inr (Or.inl ⟨hb, rfl⟩)), rfl⟩
      · exact Or.inl rfl
      · exact Or.inl rfl
      · exact Or.inr ⟨errorDefault, Or.inr (Or.inr (Or.inr ⟨hc, rfl⟩)), rfl⟩
      · exact Or.inl rfl
    · intro e he
      simp only [List.mem_cons, List.mem_append, mem_clauseOperands,
        Flag.ValueFallback.ofSymbol_eq_default_iff]
      rcases mem_loweredArgs_jsonValue.mp he with rfl | rfl | ⟨hb, rfl⟩ | ⟨hc, rfl⟩
      · exact Or.inl rfl
      · exact Or.inr (Or.inl rfl)
      · exact Or.inr (Or.inr (Or.inl (Or.inr (Or.inl ⟨hb, rfl⟩))))
      · exact Or.inr (Or.inr (Or.inr (Or.inr (Or.inl ⟨hc, rfl⟩))))

end WellConfigured

end RowPlan
