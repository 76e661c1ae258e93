import RowPlan.Proofs.JsonForms
import RowPlan.Proofs.Producible
import RowPlan.Proofs.Sources
import RowPlan.Proofs.TreePrint

/-! The tree print of a lowered expression tells everything about it, the kinds of flags included,
which the names in the print leave open. The operator of a call and the place among its operands fix
the enumeration that a flag is of; in a clause of `JSON_VALUE` the name of the first flag tells where
the next one stands. Only a symbol that is itself an operand becomes a flag of any enumeration. -/
namespace RowPlan

namespace Expr

/-- The literal is lowered, be it the expression itself or below lowered arguments. -/
inductive LowersLiteral (value : Literal Symbol) : Expr → Prop where
  | literal : LowersLiteral value (.literal value)
  | call {f : BuiltIn} {args : List Expr} {e : Expr} (he : e ∈ loweredArgs f args)
    (h : LowersLiteral value e) : LowersLiteral value (.call f args)

/-- Nothing is lowered whose text stands for several row expressions. Configuration arguments and
unused default values are free. -/
structure Unambiguous (e : Expr) : Prop where
  noSymbol : ∀ s, ¬ e.LowersLiteral (.symbol s)
  noNaN : ∀ d, e.LowersLiteral (.double d) → d.isNaN = false

theorem Unambiguous.arg {f : BuiltIn} {args : List Expr} (h : Unambiguous (.call f args)) {e : Expr}
    (he : e ∈ loweredArgs f args) : e.Unambiguous :=
  ⟨fun s hs => h.noSymbol s (.call he hs), fun d hd => h.noNaN d (.call he hd)⟩

end Expr

/-- Within one enumeration the names of flags differ. -/
theorem Flag.eq_of_name_eq {f g : Flag} (henumeration : f.enumeration = g.enumeration)
    (hname : f.name = g.name) : f = g := by
  have hread := f.ofName?_enumeration_name
  rw [henumeration, hname, g.ofName?_enumeration_name] at hread
  exact (Option.some.inj hread).symm

theorem Node.flag_eq_of_outline_eq {f g : Flag} (henumeration : f.enumeration = g.enumeration)
    (h : (literal (.symbol f)).outline = (literal (.symbol g)).outline) : f = g :=
  Flag.eq_of_name_eq henumeration (Literal.symbol.inj (Outline.constant.inj h))

theorem Expr.symbol_eq_of_outline_eq {s t : Symbol}
    (h : (literal (.symbol s)).translation.outline = (literal (.symbol t)).translation.outline)
    (henumeration : (Flag.ofSymbol s).enumeration = (Flag.ofSymbol t).enumeration) : s = t :=
  Flag.ofSymbol_injective (Node.flag_eq_of_outline_eq henumeration h)

/-- The first flag of a clause tells whether a default value follows. -/
theorem outline_clauseOperands_append_inj {b c : Flag.ValueFallback} {v w : Node}
    {clause : Flag.Clause} {ns ms : List Node}
    (h : (clauseOperands b v clause ++ ns).map Node.outline =
      (clauseOperands c w clause ++ ms).map Node.outline) :
    b = c ∧ (b = .default → v.outline = w.outline) ∧
      ns.map Node.outline = ms.map Node.outline := by
  have hbc : b = c := by
    have hflag : (Node.literal (.symbol (.valueFallback b))).outline =
        (Node.literal (.symbol (.valueFallback c))).outline := by
      unfold clauseOperands at h
      split at h <;> split at h <;> exact (List.cons.inj h).1
    exact Flag.valueFallback.inj (Node.flag_eq_of_outline_eq rfl hflag)
  subst hbc
  unfold clauseOperands at h
  split at h
  · case isTrue hb =>
    simp only [List.cons_append, List.nil_append, List.map_cons, List.cons.injEq, true_and] at h
    exact ⟨rfl, fun _ => h.1, h.2⟩
  · case isFalse hb =>
    simp only [List.cons_append, List.nil_append, List.map_cons, List.cons.injEq, true_and] at h
    exact ⟨rfl, fun hb' => absurd hb' hb, h⟩

/-- Literals with one outline are the same, unless they stand for several row expressions. -/
theorem Expr.Unambiguous.literal_eq {v w : Literal Symbol} (hv : (literal v).Unambiguous)
    (hw : (literal w).Unambiguous)
    (h : (literal v).translation.outline = (literal w).translation.outline) : v = w := by
  have hplain : (v.map Flag.ofSymbol).plain = (w.map Flag.ofSymbol).plain :=
    Outline.constant.inj h
  cases v <;> cases w <;> simp only [Literal.map, Literal.plain, reduceCtorEq] at hplain
  case null.null => rfl
  case boolean.boolean => rw [Literal.boolean.inj hplain]
  case integer.integer => rw [Literal.integer.inj hplain]
  case string.string => rw [Literal.string.inj hplain]
  case double.double d d' =>
    have hd : d.isNaN = false := hv.noNaN d .literal
    have hd' : d'.isNaN = false := hw.noNaN d' .literal
    have hunified : d.unifyNaN = d'.unifyNaN := Literal.double.inj hplain
    simp only [Double.unifyNaN, hd, hd', Bool.false_eq_true, if_false] at hunified
    rw [hunified]
  case symbol.symbol s t => exact absurd .literal (hv.noSymbol s)

section
variable {f : BuiltIn} {args args' : List Expr}

/-- The clauses of `JSON_VALUE` are read off the outlines of its operands one after the other. -/
theorem translation_jsonValue_eq_of_outline_eq
    {json json' path path' emptyDefault emptyDefault' errorDefault errorDefault' : Expr}
    {returning returning' : SqlType} {onEmpty onEmpty' onError onError' : Symbol.ValueFallback} :
    let args := Expr.valueArguments json path returning onEmpty emptyDefault onError errorDefault
    let args' :=
      Expr.valueArguments json' path' returning' onEmpty' emptyDefault' onError' errorDefault'
    (Expr.call .jsonValue args).translation.outline =
        (Expr.call .jsonValue args').translation.outline →
      (∀ e ∈ loweredArgs .jsonValue args, ∀ e' ∈ loweredArgs .jsonValue args',
        e.translation.outline = e'.translation.outline → e.translation = e'.translation) →
      (Expr.call .jsonValue args).translation = (Expr.call .jsonValue args').translation := by
  intro args args' heq hargs
  rw [Expr.translation_jsonValue, Expr.translation_jsonValue, Node.outline_call,
    Node.outline_call] at heq
  obtain ⟨-, hoperands, htype⟩ := Outline.call.inj heq
  obtain ⟨hj, hoperands⟩ := List.cons.inj hoperands
  obtain ⟨hp, hoperands⟩ := List.cons.inj hoperands
  obtain ⟨hb, hempty, hoperands⟩ := outline_clauseOperands_append_inj hoperands
  rw [← List.append_nil (clauseOperands _ _ .error),
    ← List.append_nil (clauseOperands (.ofSymbol onError') _ .error)] at hoperands
  obtain ⟨hc, herror, -⟩ := outline_clauseOperands_append_inj hoperands
  simp only [args, args', mem_loweredArgs_jsonValue] at hargs
  have hjson := hargs json (.inl rfl) json' (.inl rfl) hj
  have hpath := hargs path (.inr (.inl rfl)) path' (.inr (.inl rfl)) hp
  obtain rfl := Flag.ValueFallback.ofSymbol_injective hb
  obtain rfl := Flag.ValueFallback.ofSymbol_injective hc
  -- A default value counts where its clause uses it, and there it is lowered.
  have hemptyOperands : clauseOperands (.ofSymbol onEmpty) emptyDefault.translation .empty =
      clauseOperands (.ofSymbol onEmpty) emptyDefault'.translation .empty := by
    apply clauseOperands_congr
    intro h
    have hused := Flag.ValueFallback.ofSymbol_eq_default_iff.mp h
    exact hargs _ (.inr (.inr (.inl ⟨hused, rfl⟩))) _ (.inr (.inr (.inl ⟨hused, rfl⟩))) (hempty h)
  have herrorOperands : clauseOperands (.ofSymbol onError) errorDefault.translation .error =
      clauseOperands (.ofSymbol onError) errorDefault'.translation .error := by
    apply clauseOperands_congr
    intro h
    have hused := Flag.ValueFallback.ofSymbol_eq_default_iff.mp h
    exact hargs _ (.inr (.inr (.inr ⟨hused, rfl⟩))) _ (.inr (.inr (.inr ⟨hused, rfl⟩))) (herror h)
  rw [Expr.translation_jsonValue, Expr.translation_jsonValue, hjson, hpath, hemptyOperands,
    herrorOperands, htype]

/-- Calls with one outline have one translation if this holds of their lowered arguments. The other
operands are flags, and both calls have the same enumerations in the same places. -/
theorem WellConfigured.translation_eq_of_outline_eq (h : WellConfigured f args)
    (h' : WellConfigured f args')
    (heq : (Expr.call f args).translation.outline = (Expr.call f args').translation.outline)
    (hargs : ∀ e ∈ loweredArgs f args, ∀ e' ∈ loweredArgs f args',
      e.translation.outline = e'.translation.outline → e.translation = e'.translation) :
    (Expr.call f args).translation = (Expr.call f args').translation := by
  cases h with
  | direct hf hcount =>
    rw [loweredArgs_direct hf, loweredArgs_direct hf] at hargs
    rw [Expr.translation_call_direct hf, Expr.translation_call_direct hf, Node.outline_call,
      Node.outline_call, List.map_map, List.map_map] at heq
    have hoperands : args.map Expr.translation = args'.map Expr.translation :=
      map_eq_map_of_map_eq hargs (Outline.call.inj heq).2.1
    rw [Expr.translation_call_direct hf, Expr.translation_call_direct hf, hoperands]
  | jsonExists json path =>
    rw [Expr.translation_jsonExists, Expr.translation_jsonExists, Node.outline_call,
      Node.outline_call] at heq
    have hmap := (Outline.call.inj heq).2.1
    cases h' with
    | direct hf' hcount' => cases hf'
    | jsonExistsOnError json' path' onError' => simp at hmap
    | jsonExists json' path' =>
      simp only [List.map_cons, List.map_nil, List.cons.injEq, and_true] at hmap
      obtain ⟨hj, hp⟩ := hmap
      have hjson := hargs json (by simp [loweredArgs]) json' (by simp [loweredArgs]) hj
      have hpath := hargs path (by simp [loweredArgs]) path' (by simp [loweredArgs]) hp
      rw [Expr.translation_jsonExists, Expr.translation_jsonExists]
      simp only [List.map_cons, hjson, hpath]
  | jsonExistsOnError json path onError =>
    rw [Expr.translation_jsonExists, Expr.translation_jsonExists, Node.outline_call,
      Node.outline_call] at heq
    have hmap := (Outline.call.inj heq).2.1
    cases h' with
    | direct hf' hcount' => cases hf'
    | jsonExists json' path' => simp at hmap
    | jsonExistsOnError json' path' onError' =>
      simp only [List.map_cons, List.map_nil, List.cons.injEq, and_true] at hmap
      obtain ⟨hj, hp, ho⟩ := hmap
      have hjson := hargs json (by simp [loweredArgs]) json' (by simp [loweredArgs]) hj
      have hpath := hargs path (by simp [loweredArgs]) path' (by simp [loweredArgs]) hp
      obtain rfl := Symbol.existsFallback.inj (Expr.symbol_eq_of_outline_eq ho rfl)
      rw [Expr.translation_jsonExists, Expr.translation_jsonExists]
      simp only [List.map_cons, hjson, hpath]
  | jsonQuery json path wrapping onEmpty onError =>
    rw [Expr.translation_jsonQuery, Expr.translation_jsonQuery, Node.outline_call,
      Node.outline_call] at heq
    have hmap := (Outline.call.inj heq).2.1
    cases h' with
    | direct hf' hcount' => cases hf'
    | jsonQuery json' path' wrapping' onEmpty' onError' =>
      simp only [List.map_cons, List.map_nil, List.cons.injEq, and_true] at hmap
      obtain ⟨hj, hp, hw, hb, hc⟩ := hmap
      have hjson := hargs json (by simp [loweredArgs]) json' (by simp [loweredArgs]) hj
      have hpath := hargs path (by simp [loweredArgs]) path' (by simp [loweredArgs]) hp
      obtain rfl := Symbol.wrapper.inj (Expr.symbol_eq_of_outline_eq hw rfl)
      obtain rfl := Symbol.queryFallback.inj (Expr.symbol_eq_of_outline_eq hb rfl)
      obtain rfl := Symbol.queryFallback.inj (Expr.symbol_eq_of_outline_eq hc rfl)
      rw [Expr.translation_jsonQuery, Expr.translation_jsonQuery]
      simp only [List.map_cons, hjson, hpath]
  | jsonValue json path emptyDefault errorDefault returning onEmpty onError =>
    cases h' with
    | direct hf' hcount' => cases hf'
    | jsonValue json' path' emptyDefault' errorDefault' returning' onEmpty' onError' =>
      exact translation_jsonValue_eq_of_outline_eq heq hargs

end

theorem Lowerable.translation_eq_of_outline_eq {limit depth limit' depth' : Nat} {e e' : Expr}
    (h : Lowerable limit depth e) (h' : Lowerable limit' depth' e') (he : e.Unambiguous)
    (he' : e'.Unambiguous) (heq : e.translation.outline = e'.translation.outline) :
    e.translation = e'.translation := by
  refine Lowerable.pair_induction
    (motive := fun e e' => e.Unambiguous → e'.Unambiguous → e.translation = e'.translation)
    ?_ ?_ ?_ h h' heq he he'
  · intro name name' index _ _
    rfl
  · intro v w heq hv hw
    rw [hv.literal_eq hw heq]
  · intro f args args' hconf hconf' heq ih he he'
    apply hconf.translation_eq_of_outline_eq hconf' heq
    intro d hd d' hd' hdd'
    exact ih d hd d' hd' hdd' (he.arg hd) (he'.arg hd')

namespace Planner

/-- Lowered expressions that print alike are the same row expression, flag by flag, whatever limits
they were lowered under. -/
theorem eq_of_tree_eq {limit limit' : Nat} {e e' : Expr} {n n' : Node} (he : e.Unambiguous)
    (he' : e'.Unambiguous) (h : (standard limit).convert e = .ok n)
    (h' : (standard limit').convert e' = .ok n') (htree : n.tree = n'.tree) : n = n' := by
  obtain ⟨hlowerable, rfl⟩ := (lowerAt_eq_ok_iff limit 0 e n).mp h
  obtain ⟨hlowerable', rfl⟩ := (lowerAt_eq_ok_iff limit' 0 e' n').mp h'
  have houtline := Node.tree_eq_tree_iff.mp htree
  exact hlowerable.translation_eq_of_outline_eq hlowerable' he he' houtline

/-- The print shows two flags of one name twice, and each of the four is of the enumeration that its
place asks for. The expressions differ in the name of a field and in an unused default value, which
is a symbol in one of them. -/
theorem eq_of_tree_eq_shared_names :
    let e (name : String) (unused : Expr) : Expr := .call .jsonQuery
      [.call .jsonValue [.field name 0, .literal (.string "$"), .type .varchar,
          .literal (.symbol (.valueFallback .null)), unused,
          .literal (.symbol (.valueFallback .error)), .type .double],
        .literal (.string "$"), .literal (.symbol (.wrapper .withoutArray)),
        .literal (.symbol (.queryFallback .null)), .literal (.symbol (.queryFallback .error))]
    let e₁ := e "a" (.type .double)
    let e₂ := e "b" (.literal (.symbol (.queryFallback .null)))
    let print := "JSON_QUERY\n  JSON_VALUE : VARCHAR\n    $0\n    '$'\n    FLAG(NULL)\n" ++
      "    FLAG(EMPTY)\n    FLAG(ERROR)\n    FLAG(ERROR)\n  '$'\n  FLAG(WITHOUT_ARRAY)\n" ++
      "  FLAG(NULL)\n  FLAG(ERROR)\n"
    e₁.Unambiguous ∧ e₂.Unambiguous ∧
      (standard 2).convert e₁ = .ok e₁.translation ∧
      (standard 7).convert e₂ = .ok e₂.translation ∧
      e₁.translation.tree = print ∧ e₁.translation.tree = e₂.translation.tree ∧
      e₁.translation = e₂.translation := by
  intro e e₁ e₂ print
  have hlowers (name : String) (unused : Expr) (v : Literal Symbol)
      (h : (e name unused).LowersLiteral v) : v = .string "$" := by
    obtain - | ⟨hmem, h⟩ := h
    rcases List.mem_pair.mp hmem with rfl | rfl
    · obtain - | ⟨hmem, h⟩ := h
      rcases mem_loweredArgs_jsonValue.mp hmem with rfl | rfl | ⟨hb, -⟩ | ⟨hc, -⟩
      · cases h
      · cases h
        rfl
      · cases hb
      · cases hc
    · cases h
      rfl
  have hunambiguous (name : String) (unused : Expr) : (e name unused).Unambiguous := by
    constructor
    · intro s hs
      cases hlowers name unused _ hs
    · intro d hd
      cases hlowers name unused _ hd
  have h₁ : (standard 2).convert e₁ = .ok e₁.translation := rfl
  have h₂ : (standard 7).convert e₂ = .ok e₂.translation := rfl
  have htree : e₁.translation.tree = e₂.translation.tree := rfl
  refine ⟨hunambiguous _ _, hunambiguous _ _, h₁, h₂, by decide +kernel, htree, ?_⟩
  exact eq_of_tree_eq (hunambiguous _ _) (hunambiguous _ _) h₁ h₂ htree

/-- A symbol that is an operand leaves open which enumeration its flag is of. -/
example :
    let n (s : Symbol) := (Expr.call .not [.literal (.symbol s)]).translation
    (n (.queryFallback .null)).tree = (n (.valueFallback .null)).tree ∧
      n (.queryFallback .null) ≠ n (.valueFallback .null) :=
  ⟨rfl, nofun⟩

end Planner
end RowPlan
