import RowPlan.Proofs.Interchangeable
import RowPlan.Proofs.Lowerable
import RowPlan.Proofs.Outline

/-! The expressions that are lowered to the same row expression. They are interchangeable: all
that lowering loses are the names of fields and unused default values. -/
namespace RowPlan

namespace BuiltIn

theorem find?_target (f : BuiltIn) : all.find? (fun g => g.target.1 == f.target.1) = some f := by
  cases f <;> rfl

/-- No two functions become the same operator. -/
theorem eq_of_target_eq {f g : BuiltIn} (h : f.target.1 = g.target.1) : f = g := by
  have hf := find?_target f
  rw [h, find?_target g] at hf
  exact (Option.some.inj hf).symm

end BuiltIn

theorem Expr.translation_call (f : BuiltIn) (args : List Expr) :
    ∃ operands type, (call f args).translation = .call f.target.1 operands type := by
  unfold translation
  split
  · exact ⟨_, _, rfl⟩
  · exact ⟨_, _, rfl⟩

namespace Flag

theorem Wrapper.ofSymbol_injective {w v : Symbol.Wrapper} (h : ofSymbol w = ofSymbol v) :
    w = v := by
  cases w <;> cases v <;> first | rfl | cases h

theorem QueryFallback.ofSymbol_injective {b c : Symbol.QueryFallback}
    (h : ofSymbol b = ofSymbol c) : b = c := by
  cases b <;> cases c <;> first | rfl | cases h

theorem ValueFallback.ofSymbol_injective {b c : Symbol.ValueFallback}
    (h : ofSymbol b = ofSymbol c) : b = c := by
  cases b <;> cases c <;> first | rfl | cases h

theorem ExistsFallback.ofSymbol_injective {b c : Symbol.ExistsFallback}
    (h : ofSymbol b = ofSymbol c) : b = c := by
  cases b <;> cases c <;> first | rfl | cases h

/-- The flags of different symbols differ, also across the enumerations. -/
theorem ofSymbol_injective {s t : Symbol} (h : ofSymbol s = ofSymbol t) : s = t := by
  cases s <;> cases t <;> simp only [ofSymbol, wrapper.injEq, queryFallback.injEq,
    valueFallback.injEq, existsFallback.injEq, reduceCtorEq] at h
  · rw [Wrapper.ofSymbol_injective h]
  · rw [QueryFallback.ofSymbol_injective h]
  · rw [ValueFallback.ofSymbol_injective h]
  · rw [ExistsFallback.ofSymbol_injective h]

end Flag

theorem Literal.map_injective {σ τ : Type} {f : σ → τ} (hf : ∀ s t, f s = f t → s = t)
    {v w : Literal σ} (h : v.map f = w.map f) : v = w := by
  cases v <;> cases w <;> simp only [map, boolean.injEq, integer.injEq, double.injEq,
    string.injEq, symbol.injEq, reduceCtorEq] at h ⊢
  all_goals first | exact h | exact hf _ _ h

/-- A literal is the only literal with its translation. -/
theorem Expr.eq_of_translation_literal {v w : Literal Symbol}
    (h : (literal v).translation = (literal w).translation) : literal v = literal w := by
  rw [translation, translation, Node.literal.injEq] at h
  rw [Literal.map_injective (fun s t => Flag.ofSymbol_injective) h]

/-- The operands of a clause tell its behavior first, hence how many they are. -/
theorem clauseOperands_append_inj {b c : Flag.ValueFallback} {v w : Node} {clause : Flag.Clause}
    {ns ms : List Node} (h : clauseOperands b v clause ++ ns = clauseOperands c w clause ++ ms) :
    b = c ∧ (b = .default → v = w) ∧ ns = ms := by
  have hbc : b = c := by
    unfold clauseOperands at h
    split at h <;> split at h <;> simp_all
  subst hbc
  unfold clauseOperands at h
  split at h
  · case isTrue hb =>
    simp only [List.cons_append, List.nil_append, List.cons.injEq, true_and] at h
    exact ⟨rfl, fun _ => h.1, h.2⟩
  · case isFalse hb =>
    simp only [List.cons_append, List.nil_append, List.cons.injEq, true_and] at h
    exact ⟨rfl, fun hb' => absurd hb' hb, h⟩

/-- Two clauses are read off one after the other, each with the default value it uses, if any. -/
theorem clauseOperands_pair_inj {b c b' c' : Symbol.ValueFallback} {v w v' w' : Node}
    (h : clauseOperands (.ofSymbol b) v .empty ++ clauseOperands (.ofSymbol c) w .error =
      clauseOperands (.ofSymbol b') v' .empty ++ clauseOperands (.ofSymbol c') w' .error) :
    b = b' ∧ c = c' ∧ (b = .default → v = v') ∧ (c = .default → w = w') := by
  obtain ⟨hb, hempty, hrest⟩ := clauseOperands_append_inj h
  rw [← List.append_nil (clauseOperands _ _ .error),
    ← List.append_nil (clauseOperands (.ofSymbol c') _ .error)] at hrest
  obtain ⟨hc, herror, -⟩ := clauseOperands_append_inj hrest
  refine ⟨Flag.ValueFallback.ofSymbol_injective hb,
    Flag.ValueFallback.ofSymbol_injective hc, ?_, ?_⟩
  · intro hdefault
    exact hempty (Flag.ValueFallback.ofSymbol_eq_default_iff.mpr hdefault)
  · intro hdefault
    exact herror (Flag.ValueFallback.ofSymbol_eq_default_iff.mpr hdefault)

theorem forall₂_interchangeable {es es' : List Expr}
    (hmap : es.map Expr.translation = es'.map Expr.translation)
    (h : ∀ e ∈ es, ∀ e' ∈ es', e.translation = e'.translation → e.Interchangeable e') :
    List.Forall₂ Expr.Interchangeable es es' := by
  induction es generalizing es' with
  | nil =>
    rw [List.map_nil] at hmap
    rw [List.map_eq_nil_iff.mp hmap.symm]
    exact .nil
  | cons e es ih =>
    cases es' with
    | nil => exact absurd hmap (List.cons_ne_nil _ _)
    | cons e' es' =>
      obtain ⟨he, hes⟩ := List.cons.inj hmap
      refine .cons (h e List.mem_cons_self e' List.mem_cons_self he) (ih hes ?_)
      intro d hd d' hd'
      exact h d (List.mem_cons_of_mem _ hd) d' (List.mem_cons_of_mem _ hd')

/-- The operands of `JSON_VALUE` have no fixed positions, but its clauses can be read off them. -/
theorem interchangeable_jsonValue
    {json json' path path' emptyDefault emptyDefault' errorDefault errorDefault' : Expr}
    {returning returning' : SqlType} {onEmpty onEmpty' onError onError' : Symbol.ValueFallback} :
    let args := Expr.valueArguments json path returning onEmpty emptyDefault onError errorDefault
    let args' :=
      Expr.valueArguments json' path' returning' onEmpty' emptyDefault' onError' errorDefault'
    (Expr.call .jsonValue args).translation = (Expr.call .jsonValue args').translation →
      (∀ e ∈ loweredArgs .jsonValue args, ∀ e' ∈ loweredArgs .jsonValue args',
        e.translation = e'.translation → e.Interchangeable e') →
      (Expr.call .jsonValue args).Interchangeable (.call .jsonValue args') := by
  intro args args' heq hargs
  rw [Expr.translation_jsonValue, Expr.translation_jsonValue] at heq
  obtain ⟨-, hoperands, htype⟩ := Node.call.inj heq
  obtain ⟨hj, hoperands⟩ := List.cons.inj hoperands
  obtain ⟨hp, hoperands⟩ := List.cons.inj hoperands
  obtain ⟨rfl, rfl, hempty, herror⟩ := clauseOperands_pair_inj hoperands
  obtain rfl := Option.some.inj htype
  simp only [args, args', mem_loweredArgs_jsonValue] at hargs
  have hjson := hargs json (.inl rfl) json' (.inl rfl) hj
  have hpath := hargs path (.inr (.inl rfl)) path' (.inr (.inl rfl)) hp
  refine .jsonValue hjson hpath returning onEmpty onError ?_ ?_
  · intro h
    exact hargs _ (.inr (.inr (.inl ⟨h, rfl⟩))) _ (.inr (.inr (.inl ⟨h, rfl⟩))) (hempty h)
  · intro h
    exact hargs _ (.inr (.inr (.inr ⟨h, rfl⟩))) _ (.inr (.inr (.inr ⟨h, rfl⟩))) (herror h)

/-- Calls with the same translation have interchangeable arguments if those that are lowered do. -/
theorem WellConfigured.interchangeable {f : BuiltIn} {args args' : List Expr}
    (h : WellConfigured f args) (h' : WellConfigured f args')
    (heq : (Expr.call f args).translation = (Expr.call f args').translation)
    (hargs : ∀ e ∈ loweredArgs f args, ∀ e' ∈ loweredArgs f args',
      e.translation = e'.translation → e.Interchangeable e') :
    (Expr.call f args).Interchangeable (.call f args') := by
  cases h with
  | direct hf hcount =>
    rw [loweredArgs_direct hf, loweredArgs_direct hf] at hargs
    rw [Expr.translation_call_direct hf, Expr.translation_call_direct hf] at heq
    exact .call_of_forall₂ f (forall₂_interchangeable (Node.call.inj heq).2.1 hargs)
  | jsonExists json path =>
    rw [Expr.translation_jsonExists, Expr.translation_jsonExists] at heq
    have hmap := (Node.call.inj heq).2.1
    cases h' with
    | direct hf' hcount' => cases hf'
    | jsonExistsOnError json' path' onError' => simp at hmap
    | jsonExists json' path' =>
      simp only [List.map_cons, List.map_nil, List.cons.injEq, and_true] at hmap
      obtain ⟨hj, hp⟩ := hmap
      have hjson := hargs json (by simp [loweredArgs]) json' (by simp [loweredArgs]) hj
      have hpath := hargs path (by simp [loweredArgs]) path' (by simp [loweredArgs]) hp
      exact .call_of_forall₂ _ (.cons hjson (.cons hpath .nil))
  | jsonExistsOnError json path onError =>
    rw [Expr.translation_jsonExists, Expr.translation_jsonExists] at heq
    have hmap := (Node.call.inj heq).2.1
    cases h' with
    | direct hf' hcount' => cases hf'
    | jsonExists json' path' => simp at hmap
    | jsonExistsOnError json' path' onError' =>
      simp only [List.map_cons, List.map_nil, List.cons.injEq, and_true] at hmap
      obtain ⟨hj, hp, ho⟩ := hmap
      have hjson := hargs json (by simp [loweredArgs]) json' (by simp [loweredArgs]) hj
      have hpath := hargs path (by simp [loweredArgs]) path' (by simp [loweredArgs]) hp
      rw [Expr.eq_of_translation_literal ho]
      exact .call_of_forall₂ _ (.cons hjson (.cons hpath (.cons (.literal _) .nil)))
  | jsonQuery json path wrapping onEmpty onError =>
    rw [Expr.translation_jsonQuery, Expr.translation_jsonQuery] at heq
    have hmap := (Node.call.inj heq).2.1
    cases h' with
    | direct hf' hcount' => cases hf'
    | jsonQuery json' path' wrapping' onEmpty' onError' =>
      simp only [List.map_cons, List.map_nil, List.cons.injEq, and_true] at hmap
      obtain ⟨hj, hp, hw, hb, hc⟩ := hmap
      have hjson := hargs json (by simp [loweredArgs]) json' (by simp [loweredArgs]) hj
      have hpath := hargs path (by simp [loweredArgs]) path' (by simp [loweredArgs]) hp
      rw [Expr.eq_of_translation_literal hw, Expr.eq_of_translation_literal hb,
        Expr.eq_of_translation_literal hc]
      exact .call_of_forall₂ _ (.cons hjson (.cons hpath
        (.cons (.literal _) (.cons (.literal _) (.cons (.literal _) .nil)))))
  | jsonValue json path emptyDefault errorDefault returning onEmpty onError =>
    cases h' with
    | direct hf' hcount' => cases hf'
    | jsonValue json' path' emptyDefault' errorDefault' returning' onEmpty' onError' =>
      exact interchangeable_jsonValue heq hargs

/-- Induction over two lowerable expressions at once, whose translations have one outline. They go
down together: a leaf to a leaf, and a call to a call of the same function. -/
theorem Lowerable.pair_induction {motive : Expr → Expr → Prop} {limit limit' : Nat}
    (field : ∀ name name' index, motive (.field name index) (.field name' index))
    (literal : ∀ v w : Literal Symbol,
      (Expr.literal v).translation.outline = (Expr.literal w).translation.outline →
        motive (.literal v) (.literal w))
    (call : ∀ f args args', WellConfigured f args → WellConfigured f args' →
      (Expr.call f args).translation.outline = (Expr.call f args').translation.outline →
      (∀ e ∈ loweredArgs f args, ∀ e' ∈ loweredArgs f args',
        e.translation.outline = e'.translation.outline → motive e e') →
      motive (.call f args) (.call f args'))
    {depth depth' : Nat} {e e' : Expr} (h : Lowerable limit depth e)
    (h' : Lowerable limit' depth' e') (heq : e.translation.outline = e'.translation.outline) :
    motive e e' := by
  induction h generalizing depth' e' with
  | field hd name index =>
    cases h' with
    | field hd' name' index' =>
      obtain rfl := Outline.column.inj heq
      exact field name name' index
    | literal hd' value' => cases heq
    | @call _ _ f' args' hconf' hargs' =>
      obtain ⟨operands, type, hcall⟩ := Expr.translation_call f' args'
      rw [hcall] at heq
      cases heq
  | literal hd value =>
    cases h' with
    | field hd' name' index' => cases heq
    | literal hd' value' => exact literal value value' heq
    | @call _ _ f' args' hconf' hargs' =>
      obtain ⟨operands, type, hcall⟩ := Expr.translation_call f' args'
      rw [hcall] at heq
      cases heq
  | @call depth hd f args hconf hargs ih =>
    obtain ⟨operands, type, hcall⟩ := Expr.translation_call f args
    cases h' with
    | field hd' name' index' =>
      rw [hcall] at heq
      cases heq
    | literal hd' value' =>
      rw [hcall] at heq
      cases heq
    | @call _ hd' f' args' hconf' hargs' =>
      obtain ⟨operands', type', hcall'⟩ := Expr.translation_call f' args'
      have hop : f.target.1 = f'.target.1 := by
        rw [hcall, hcall'] at heq
        exact (Outline.call.inj heq).1
      obtain rfl := BuiltIn.eq_of_target_eq hop
      exact call f args args' hconf hconf' heq fun d hd d' hd' => ih d hd (hargs' d' hd')

/-- The translation of a lowerable expression determines it up to what lowering does not look at. -/
theorem Lowerable.interchangeable {limit depth limit' depth' : Nat} {e e' : Expr}
    (h : Lowerable limit depth e) (h' : Lowerable limit' depth' e')
    (heq : e.translation = e'.translation) : e.Interchangeable e' := by
  refine Lowerable.pair_induction
    (motive := fun e e' => e.translation = e'.translation → e.Interchangeable e')
    ?_ ?_ ?_ h h' (congrArg Node.outline heq) heq
  · intro name name' index _
    exact .field name name' index
  · intro v w _ heq
    rw [Expr.eq_of_translation_literal heq]
    exact .literal w
  · intro f args args' hconf hconf' _ ih heq
    apply hconf.interchangeable hconf' heq
    intro d hd d' hd' hdd'
    exact ih d hd d' hd' (congrArg Node.outline hdd') hdd'

namespace Planner

/-- Expressions that are lowered to the same row expression, under whatever limits, are the same up
to the names of fields and up to unused default values. -/
theorem interchangeable_of_convert_eq_ok {limit limit' : Nat} {e e' : Expr} {n : Node}
    (h : (standard limit).convert e = .ok n) (h' : (standard limit').convert e' = .ok n) :
    e.Interchangeable e' := by
  obtain ⟨hlowerable, htranslation⟩ := (lowerAt_eq_ok_iff limit 0 e n).mp h
  obtain ⟨hlowerable', htranslation'⟩ := (lowerAt_eq_ok_iff limit' 0 e' n).mp h'
  exact hlowerable.interchangeable hlowerable' (htranslation.trans htranslation'.symm)

/-- The used default value is a field of another name, the unused one another expression, and the
limits differ too. -/
theorem interchangeable_of_convert_eq_ok_defaults :
    let e (name : String) (unused : Expr) : Expr :=
      .call .jsonValue [.field name 0, .literal (.string "$"), .type .varchar,
        .literal (.symbol (.valueFallback .null)), unused,
        .literal (.symbol (.valueFallback .default)), .call .upper [.field name 1]]
    let n : Node :=
      .call .jsonValue [.inputRef 0, .literal (.string "$"),
        .literal (.symbol (.valueFallback .null)), .literal (.symbol (.clause .empty)),
        .literal (.symbol (.valueFallback .default)), .call .upper [.inputRef 1] none,
        .literal (.symbol (.clause .error))] (some .varchar)
    (standard 2).convert (e "a" (.type .double)) = .ok n ∧
      (standard 7).convert (e "b" (.call .not [])) = .ok n ∧
      (e "a" (.type .double)).Interchangeable (e "b" (.call .not [])) := by
  intro e n
  have h : (standard 2).convert (e "a" (.type .double)) = .ok n := rfl
  have h' : (standard 7).convert (e "b" (.call .not [])) = .ok n := rfl
  exact ⟨h, h', interchangeable_of_convert_eq_ok h h'⟩

end Planner
end RowPlan
