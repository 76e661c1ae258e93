import RowPlan.Proofs.DepthLimit

/-! The row expressions that the standard rules can produce form a grammar. In one direction the
translation of every lowerable expression belongs to it, in the other every member is lifted
back, bottom up, to an expression that becomes it. -/
namespace RowPlan

/-- The grammar of the row expressions that lowering produces. The markers of `JSON_VALUE` clauses
stand in their two places and nowhere else; a value follows a behavior only if it is `DEFAULT`. -/
inductive Producible : Node → Prop where
  | inputRef (index : UInt64) : Producible (.inputRef index)
  | literal {value : Literal Flag} (hvalue : ∀ clause, value ≠ .symbol (.clause clause)) :
    Producible (.literal value)
  | direct {f : BuiltIn} {op : Operator} {arity : Arity} (hf : f.direct? = some (op, arity))
    {operands : List Node} (hcount : arity.accepts operands.length = true)
    (hoperands : ∀ n ∈ operands, Producible n) :
    Producible (.call op operands none)
  | jsonExists {json path : Node} (hjson : Producible json) (hpath : Producible path) :
    Producible (.call .jsonExists [json, path] none)
  | jsonExistsOnError {json path : Node} (hjson : Producible json) (hpath : Producible path)
    (onError : Flag.ExistsFallback) :
    Producible (.call .jsonExists [json, path, .literal (.symbol (.existsFallback onError))] none)
  | jsonQuery {json path : Node} (hjson : Producible json) (hpath : Producible path)
    (wrapping : Flag.Wrapper) (onEmpty onError : Flag.QueryFallback) :
    Producible
      (.call .jsonQuery [json, path, .literal (.symbol (.wrapper wrapping)),
        .literal (.symbol (.queryFallback onEmpty)),
        .literal (.symbol (.queryFallback onError))] none)
  | jsonValue {json path emptyDefault errorDefault : Node} (hjson : Producible json)
    (hpath : Producible path) (returning : SqlType) (onEmpty onError : Flag.ValueFallback)
    (hempty : onEmpty = .default → Producible emptyDefault)
    (herror : onError = .default → Producible errorDefault) :
    Producible
      (.call .jsonValue (json :: path :: (clauseOperands onEmpty emptyDefault .empty ++
        clauseOperands onError errorDefault .error)) (some returning))

theorem Lowerable.producible {limit depth : Nat} {e : Expr} (h : Lowerable limit depth e) :
    Producible e.translation := by
  induction h with
  | field hd name index => exact .inputRef index
  | literal hd value =>
    apply Producible.literal
    intro clause
    cases value with
    | symbol s => cases s <;> exact nofun
    | _ => exact nofun
  | call hd hconf hargs ih =>
    cases hconf with
    | direct hf hcount =>
      rw [loweredArgs_direct hf] at ih
      rw [Expr.translation_call_direct hf]
      refine .direct hf (by rw [List.length_map]; exact hcount) ?_
      rw [List.forall_mem_map]
      exact ih
    | jsonExists json path =>
      obtain ⟨hjson, hpath⟩ := (forall_mem_loweredArgs_jsonExists _).mp ih
      exact .jsonExists hjson hpath
    | jsonExistsOnError json path onError =>
      obtain ⟨hjson, hpath⟩ := (forall_mem_loweredArgs_jsonExists _).mp ih
      exact .jsonExistsOnError hjson hpath (.ofSymbol onError)
    | jsonQuery json path wrapping onEmpty onError =>
      obtain ⟨hjson, hpath⟩ := (forall_mem_loweredArgs_jsonQuery _).mp ih
      exact .jsonQuery hjson hpath (.ofSymbol wrapping) (.ofSymbol onEmpty) (.ofSymbol onError)
    | jsonValue json path emptyDefault errorDefault returning onEmpty onError =>
      obtain ⟨hjson, hpath, hempty, herror⟩ := forall_mem_loweredArgs_jsonValue.mp ih
      refine .jsonValue hjson hpath returning (.ofSymbol onEmpty) (.ofSymbol onError) ?_ ?_
      · intro hb
        exact hempty (Flag.ValueFallback.ofSymbol_eq_default_iff.mp hb)
      · intro hc
        exact herror (Flag.ValueFallback.ofSymbol_eq_default_iff.mp hc)

namespace Flag

theorem Wrapper.exists_symbol (w : Wrapper) : ∃ s, ofSymbol s = w := by
  cases w
  · exact ⟨.withoutArray, rfl⟩
  · exact ⟨.conditionalArray, rfl⟩
  · exact ⟨.unconditionalArray, rfl⟩

theorem QueryFallback.exists_symbol (b : QueryFallback) : ∃ s, ofSymbol s = b := by
  cases b
  · exact ⟨.null, rfl⟩
  · exact ⟨.emptyArray, rfl⟩
  · exact ⟨.emptyObject, rfl⟩
  · exact ⟨.error, rfl⟩

theorem ValueFallback.exists_symbol (b : ValueFallback) : ∃ s, ofSymbol s = b := by
  cases b
  · exact ⟨.null, rfl⟩
  · exact ⟨.error, rfl⟩
  · exact ⟨.default, rfl⟩

theorem ExistsFallback.exists_symbol (b : ExistsFallback) : ∃ s, ofSymbol s = b := by
  cases b
  · exact ⟨.true, rfl⟩
  · exact ⟨.false, rfl⟩
  · exact ⟨.unknown, rfl⟩
  · exact ⟨.error, rfl⟩

/-- Only the clause markers come from no symbol. -/
theorem exists_symbol {f : Flag} (h : ∀ clause, f ≠ .clause clause) : ∃ s, ofSymbol s = f := by
  cases f with
  | wrapper w =>
    obtain ⟨s, rfl⟩ := w.exists_symbol
    exact ⟨.wrapper s, rfl⟩
  | queryFallback b =>
    obtain ⟨s, rfl⟩ := b.exists_symbol
    exact ⟨.queryFallback s, rfl⟩
  | valueFallback b =>
    obtain ⟨s, rfl⟩ := b.exists_symbol
    exact ⟨.valueFallback s, rfl⟩
  | existsFallback b =>
    obtain ⟨s, rfl⟩ := b.exists_symbol
    exact ⟨.existsFallback s, rfl⟩
  | clause c => exact absurd rfl (h c)

end Flag

theorem Literal.exists_map_ofSymbol {value : Literal Flag}
    (h : ∀ clause, value ≠ .symbol (.clause clause)) :
    ∃ v : Literal Symbol, v.map Flag.ofSymbol = value := by
  cases value with
  | null => exact ⟨.null, rfl⟩
  | boolean b => exact ⟨.boolean b, rfl⟩
  | integer n => exact ⟨.integer n, rfl⟩
  | double d => exact ⟨.double d, rfl⟩
  | string s => exact ⟨.string s, rfl⟩
  | symbol f =>
    have hf : ∀ clause, f ≠ .clause clause := fun clause hc => h clause (by rw [hc])
    obtain ⟨s, rfl⟩ := Flag.exists_symbol hf
    exact ⟨.symbol s, rfl⟩

/-- Lowerable at the root, under a limit no higher than the translation. -/
def Fits (e : Expr) : Prop := Lowerable e.translation.height 0 e

theorem Fits.call {f : BuiltIn} {args : List Expr} (hconf : WellConfigured f args)
    (h : ∀ e ∈ loweredArgs f args, Fits e) : Fits (.call f args) := by
  obtain ⟨op, operands, type, htranslation, -, hoperands⟩ := hconf.hasOperands
  refine Lowerable.call (Nat.zero_le _) hconf ?_
  intro e he
  have hcall := (Node.add_height_call_le_iff 0 _ op operands type).mp (Nat.le_of_eq rfl)
  apply (h e he).relocate
  rw [htranslation]
  have hheight := hcall.2 _ (hoperands e he)
  omega

theorem exists_sources {ns : List Node} (h : ∀ n ∈ ns, ∃ e : Expr, e.translation = n ∧ Fits e) :
    ∃ es : List Expr, es.map Expr.translation = ns ∧ ∀ e ∈ es, Fits e := by
  induction ns with
  | nil => exact ⟨[], rfl, nofun⟩
  | cons n ns ih =>
    obtain ⟨e, rfl, he⟩ := h n List.mem_cons_self
    obtain ⟨es, rfl, hes⟩ := ih fun m hm => h m (List.mem_cons_of_mem _ hm)
    exact ⟨e :: es, rfl, List.forall_mem_cons.mpr ⟨he, hes⟩⟩

theorem clauseOperands_congr {b : Flag.ValueFallback} {v w : Node} (h : b = .default → v = w)
    (clause : Flag.Clause) : clauseOperands b v clause = clauseOperands b w clause := by
  unfold clauseOperands
  split
  · case isTrue hb => rw [h hb]
  · rfl

/-- Where a default value is not used, any expression may stand for it. -/
theorem exists_default_source {b : Flag.ValueFallback} {v : Node}
    (h : b = .default → ∃ e : Expr, e.translation = v ∧ Fits e) :
    ∃ e : Expr, b = .default → e.translation = v ∧ Fits e := by
  by_cases hb : b = .default
  · obtain ⟨e, he⟩ := h hb
    exact ⟨e, fun _ => he⟩
  · exact ⟨.literal .null, fun hb' => absurd hb' hb⟩

theorem Producible.exists_source {n : Node} (h : Producible n) :
    ∃ e : Expr, e.translation = n ∧ Fits e := by
  induction h with
  | inputRef index => exact ⟨.field "" index, rfl, .field (Nat.le_of_eq rfl) "" index⟩
  | literal hvalue =>
    obtain ⟨v, rfl⟩ := Literal.exists_map_ofSymbol hvalue
    exact ⟨.literal v, rfl, .literal (Nat.le_of_eq rfl) v⟩
  | direct hf hcount hoperands ih =>
    -- All operands of a direct call are lifted, and lifting keeps their number.
    obtain ⟨args, rfl, hargs⟩ := exists_sources ih
    rw [List.length_map] at hcount
    refine ⟨.call _ args, Expr.translation_call_direct hf args, .call (.direct hf hcount) ?_⟩
    rw [loweredArgs_direct hf]
    exact hargs
  | jsonExists hjson hpath ihjson ihpath =>
    obtain ⟨json, rfl, hfitsj⟩ := ihjson
    obtain ⟨path, rfl, hfitsp⟩ := ihpath
    refine ⟨.call .jsonExists _, rfl, .call (.jsonExists json path) ?_⟩
    exact (forall_mem_loweredArgs_jsonExists _).mpr ⟨hfitsj, hfitsp⟩
  | jsonExistsOnError hjson hpath onError ihjson ihpath =>
    obtain ⟨json, rfl, hfitsj⟩ := ihjson
    obtain ⟨path, rfl, hfitsp⟩ := ihpath
    obtain ⟨b, rfl⟩ := onError.exists_symbol
    refine ⟨.call .jsonExists _, rfl, .call (.jsonExistsOnError json path b) ?_⟩
    exact (forall_mem_loweredArgs_jsonExists _).mpr ⟨hfitsj, hfitsp⟩
  | jsonQuery hjson hpath wrapping onEmpty onError ihjson ihpath =>
    obtain ⟨json, rfl, hfitsj⟩ := ihjson
    obtain ⟨path, rfl, hfitsp⟩ := ihpath
    obtain ⟨w, rfl⟩ := wrapping.exists_symbol
    obtain ⟨b, rfl⟩ := onEmpty.exists_symbol
    obtain ⟨c, rfl⟩ := onError.exists_symbol
    refine ⟨.call .jsonQuery _, rfl, .call (.jsonQuery json path w b c) ?_⟩
    exact (forall_mem_loweredArgs_jsonQuery _).mpr ⟨hfitsj, hfitsp⟩
  | jsonValue hjson hpath returning onEmpty onError hempty herror ihjson ihpath ihempty iherror =>
    obtain ⟨json, rfl, hfitsj⟩ := ihjson
    obtain ⟨path, rfl, hfitsp⟩ := ihpath
    -- An unused default has no operand to be lifted from.
    obtain ⟨emptyDefault, hemptyDefault⟩ := exists_default_source ihempty
    obtain ⟨errorDefault, herrorDefault⟩ := exists_default_source iherror
    obtain ⟨b, rfl⟩ := onEmpty.exists_symbol
    obtain ⟨c, rfl⟩ := onError.exists_symbol
    refine ⟨.call .jsonValue _, ?_,
      .call (.jsonValue json path emptyDefault errorDefault returning b c) ?_⟩
    · rw [Expr.translation_jsonValue, clauseOperands_congr fun hb => (hemptyDefault hb).1,
        clauseOperands_congr fun hc => (herrorDefault hc).1]
    · refine forall_mem_loweredArgs_jsonValue.mpr ⟨hfitsj, hfitsp, ?_, ?_⟩
      · intro hb
        exact (hemptyDefault (Flag.ValueFallback.ofSymbol_eq_default_iff.mpr hb)).2
      · intro hc
        exact (herrorDefault (Flag.ValueFallback.ofSymbol_eq_default_iff.mpr hc)).2

namespace Planner

/-- What lowering produces under a limit are the members of the grammar up to that height. -/
theorem exists_convert_eq_ok_iff (limit : Nat) (n : Node) :
    (∃ e, (standard limit).convert e = .ok n) ↔ Producible n ∧ n.height ≤ limit := by
  constructor
  · rintro ⟨e, he⟩
    obtain ⟨hlowerable, rfl⟩ := (lowerAt_eq_ok_iff limit 0 e n).mp he
    have hheight := hlowerable.height_le
    exact ⟨hlowerable.producible, by omega⟩
  · rintro ⟨hn, hheight⟩
    -- The source fits below the height of the node, hence below the limit.
    obtain ⟨e, rfl, he⟩ := hn.exists_source
    have hlowerable : Lowerable limit 0 e := he.relocate (by omega)
    exact ⟨e, (lowerAt_eq_ok_iff limit 0 e _).mpr ⟨hlowerable, rfl⟩⟩

end Planner

end RowPlan
