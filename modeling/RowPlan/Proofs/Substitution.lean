import RowPlan.Proofs.Producible

/-! Expressions in place of the columns of the input row. Where the columns that an expression
lowers are replaced, its row expression changes at the same columns and nowhere else, and the
height of the result alone decides which limits let the whole through. -/
namespace RowPlan

namespace Expr

mutual

/-- Put expressions in the place of the fields that are lowered. Configuration arguments stay as
they are, and so do the default values that their clauses do not use. -/
def subst (s : UInt64 → Expr) : Expr → Expr
  | field _ index => s index
  | literal value => literal value
  | type t => type t
  | call function args =>
    match function, args with
    | .jsonExists, json :: path :: rest => call .jsonExists (subst s json :: subst s path :: rest)
    | .jsonQuery, json :: path :: rest => call .jsonQuery (subst s json :: subst s path :: rest)
    | .jsonValue, [json, path, returning, onEmpty, emptyDefault, onError, errorDefault] =>
      call .jsonValue [subst s json, subst s path, returning, onEmpty,
        if onEmpty.valueFallback? = some .default then subst s emptyDefault else emptyDefault,
        onError,
        if onError.valueFallback? = some .default then subst s errorDefault else errorDefault]
    | function, args => call function (substs s args)

def substs (s : UInt64 → Expr) : List Expr → List Expr
  | [] => []
  | e :: es => subst s e :: substs s es

end

/-- A field with the index is lowered, be it as the expression itself or below lowered arguments. -/
inductive LowersField (index : UInt64) : Expr → Prop where
  | field (name : String) : LowersField index (.field name index)
  | call {f : BuiltIn} {args : List Expr} {e : Expr} (he : e ∈ loweredArgs f args)
    (h : LowersField index e) : LowersField index (.call f args)

theorem lowersField_call_iff {index : UInt64} {f : BuiltIn} {args : List Expr} :
    LowersField index (.call f args) ↔ ∃ e ∈ loweredArgs f args, LowersField index e := by
  constructor
  · rintro (- | ⟨he, h⟩)
    exact ⟨_, he, h⟩
  · rintro ⟨e, he, h⟩
    exact .call he h

theorem substs_eq_map (s : UInt64 → Expr) (es : List Expr) : substs s es = es.map (subst s) := by
  induction es with
  | nil => rfl
  | cons e es ih => rw [substs, ih, List.map_cons]

theorem subst_call_direct {f : BuiltIn} {x : Operator × Arity} (hf : f.direct? = some x)
    (s : UInt64 → Expr) (args : List Expr) :
    subst s (call f args) = call f (args.map (subst s)) := by
  rw [← substs_eq_map]
  -- No arm but the last is for a direct function.
  cases f <;> first | rfl | cases hf

theorem subst_jsonValue (s : UInt64 → Expr) (json path emptyDefault errorDefault : Expr)
    (t : SqlType) (b c : Symbol.ValueFallback) :
    subst s (call .jsonValue [json, path, type t, literal (.symbol (.valueFallback b)),
        emptyDefault, literal (.symbol (.valueFallback c)), errorDefault]) =
      call .jsonValue [subst s json, subst s path, type t, literal (.symbol (.valueFallback b)),
        if b = .default then subst s emptyDefault else emptyDefault,
        literal (.symbol (.valueFallback c)),
        if c = .default then subst s errorDefault else errorDefault] := by
  have hused (b : Symbol.ValueFallback) :
      (literal (.symbol (.valueFallback b))).valueFallback? = some .default ↔ b = .default := by
    change some b = some .default ↔ b = .default
    exact Option.some_inj
  rw [subst]
  simp only [hused]

end Expr

namespace Node

mutual

/-- Put row expressions in the place of the input columns. -/
def subst (v : UInt64 → Node) : Node → Node
  | inputRef index => v index
  | literal value => literal value
  | call op operands type => call op (substs v operands) type

def substs (v : UInt64 → Node) : List Node → List Node
  | [] => []
  | n :: ns => subst v n :: substs v ns

end

theorem substs_eq_map (v : UInt64 → Node) (ns : List Node) : substs v ns = ns.map (subst v) := by
  induction ns with
  | nil => rfl
  | cons n ns ih => rw [substs, ih, List.map_cons]

theorem subst_call (v : UInt64 → Node) (op : Operator) (operands : List Node)
    (type : Option SqlType) :
    subst v (call op operands type) = call op (operands.map (subst v)) type := by
  rw [subst, substs_eq_map]

end Node

theorem map_subst_clauseOperands (v : UInt64 → Node) (b : Flag.ValueFallback) (value : Node)
    (clause : Flag.Clause) :
    (clauseOperands b value clause).map (Node.subst v) =
      clauseOperands b (value.subst v) clause := by
  unfold clauseOperands
  split
  · rfl
  · rfl

namespace Planner

/-- Some limit lets the expression become the row expression. -/
def Becomes (e : Expr) (n : Node) : Prop := ∃ limit, (standard limit).convert e = .ok n

theorem becomes_iff {e : Expr} {n : Node} : Becomes e n ↔ Fits e ∧ e.translation = n := by
  constructor
  · rintro ⟨limit, h⟩
    obtain ⟨hlowerable, rfl⟩ := (lowerAt_eq_ok_iff limit 0 e n).mp h
    have hfits : Fits e := hlowerable.relocate (by omega)
    exact ⟨hfits, rfl⟩
  · rintro ⟨hfits, hn⟩
    exact ⟨e.translation.height, (lowerAt_eq_ok_iff _ 0 e n).mpr ⟨hfits, hn⟩⟩

theorem Becomes.fits {e : Expr} {n : Node} (h : Becomes e n) : Fits e := (becomes_iff.mp h).1

theorem Becomes.translation_eq {e : Expr} {n : Node} (h : Becomes e n) : e.translation = n :=
  (becomes_iff.mp h).2

/-- An expression that becomes something becomes it under all limits that are not too low. -/
theorem Becomes.convert_eq {e : Expr} {n : Node} (h : Becomes e n) (limit : Nat) :
    (standard limit).convert e =
      if n.height ≤ limit then .ok n else .error (.depthExceeded limit) := by
  obtain ⟨hfits, rfl⟩ := becomes_iff.mp h
  have hmin : (standard e.translation.height).convert e = .ok e.translation :=
    (lowerAt_eq_ok_iff _ 0 e _).mpr ⟨hfits, rfl⟩
  split
  · case isTrue hheight =>
    have hlowerable : Lowerable limit 0 e := hfits.relocate (by omega)
    exact (lowerAt_eq_ok_iff limit 0 e _).mpr ⟨hlowerable, rfl⟩
  · case isFalse hheight =>
    -- Any other result would be the success under the least limit, hence low enough.
    apply Classical.byContradiction
    intro hne
    have hsame : (standard e.translation.height).convert e = (standard limit).convert e :=
      convert_eq_of_limit_le (by omega) TableRule.standard hne
    have hok : (standard limit).convert e = .ok e.translation := hsame.symm.trans hmin
    have hlow := ((lowerAt_eq_ok_iff limit 0 e _).mp hok).1.height_le
    omega

section
variable {s : UInt64 → Expr} {v : UInt64 → Node}

/-- A default value that its clause uses is replaced like any operand; another one does not count
on either side. -/
theorem clauseOperands_subst {b : Symbol.ValueFallback} {value : Expr}
    (h : b = .default → Becomes (value.subst s) (value.translation.subst v))
    (clause : Flag.Clause) :
    clauseOperands (.ofSymbol b) (if b = .default then value.subst s else value).translation
        clause =
      (clauseOperands (.ofSymbol b) value.translation clause).map (Node.subst v) := by
  rw [map_subst_clauseOperands]
  apply clauseOperands_congr
  intro hb
  have hdefault : b = .default := Flag.ValueFallback.ofSymbol_eq_default_iff.mp hb
  rw [if_pos hdefault]
  exact (h hdefault).translation_eq

/-- A call becomes what its row expression does under the substitution, if its lowered arguments
do. Its other arguments are the same on both sides. -/
theorem Becomes.call_subst {f : BuiltIn} {args : List Expr} (hconf : WellConfigured f args)
    (h : ∀ e ∈ loweredArgs f args, Becomes (e.subst s) (e.translation.subst v)) :
    Becomes ((Expr.call f args).subst s) ((Expr.call f args).translation.subst v) := by
  rw [becomes_iff]
  cases hconf with
  | @direct _ op arity _ hf hcount =>
    rw [loweredArgs_direct hf] at h
    rw [Expr.subst_call_direct hf]
    have hoperands : (args.map (Expr.subst s)).map Expr.translation =
        (args.map Expr.translation).map (Node.subst v) := by
      rw [List.map_map, List.map_map]
      exact List.map_congr_left fun e he => (h e he).translation_eq
    constructor
    · apply Fits.call (.direct hf (by rwa [List.length_map]))
      rw [loweredArgs_direct hf, List.forall_mem_map]
      intro e he
      exact (h e he).fits
    · calc
        (Expr.call f (args.map (Expr.subst s))).translation =
            .call op ((args.map (Expr.subst s)).map Expr.translation) none :=
          Expr.translation_call_direct hf _
        _ = .call op ((args.map Expr.translation).map (Node.subst v)) none := by rw [hoperands]
        _ = (Expr.call f args).translation.subst v := by
          rw [Expr.translation_call_direct hf, Node.subst_call]
  | jsonExists json path =>
    obtain ⟨hjson, hpath⟩ := (forall_mem_loweredArgs_jsonExists _).mp h
    constructor
    · apply Fits.call (.jsonExists _ _)
      exact (forall_mem_loweredArgs_jsonExists _).mpr ⟨hjson.fits, hpath.fits⟩
    · change Node.call _ [(json.subst s).translation, (path.subst s).translation] _ = _
      rw [hjson.translation_eq, hpath.translation_eq]
      rfl
  | jsonExistsOnError json path onError =>
    obtain ⟨hjson, hpath⟩ := (forall_mem_loweredArgs_jsonExists _).mp h
    constructor
    · apply Fits.call (.jsonExistsOnError _ _ onError)
      exact (forall_mem_loweredArgs_jsonExists _).mpr ⟨hjson.fits, hpath.fits⟩
    · change Node.call _ [(json.subst s).translation, (path.subst s).translation, _] _ = _
      rw [hjson.translation_eq, hpath.translation_eq]
      rfl
  | jsonQuery json path wrapping onEmpty onError =>
    obtain ⟨hjson, hpath⟩ := (forall_mem_loweredArgs_jsonQuery _).mp h
    constructor
    · apply Fits.call (.jsonQuery _ _ wrapping onEmpty onError)
      exact (forall_mem_loweredArgs_jsonQuery _).mpr ⟨hjson.fits, hpath.fits⟩
    · change Node.call _ [(json.subst s).translation, (path.subst s).translation, _, _, _] _ = _
      rw [hjson.translation_eq, hpath.translation_eq]
      rfl
  | jsonValue json path emptyDefault errorDefault returning onEmpty onError =>
    obtain ⟨hjson, hpath, hempty, herror⟩ := forall_mem_loweredArgs_jsonValue.mp h
    rw [Expr.subst_jsonValue]
    constructor
    · apply Fits.call (.jsonValue _ _ _ _ returning onEmpty onError)
      -- Of the default values only the used ones are asked to fit, and only they were replaced.
      refine forall_mem_loweredArgs_jsonValue.mpr ⟨hjson.fits, hpath.fits, ?_, ?_⟩
      · intro hb
        rw [if_pos hb]
        exact (hempty hb).fits
      · intro hc
        rw [if_pos hc]
        exact (herror hc).fits
    · rw [Expr.translation_jsonValue, Expr.translation_jsonValue, Node.subst_call,
        hjson.translation_eq, hpath.translation_eq, clauseOperands_subst hempty,
        clauseOperands_subst herror, List.map_cons, List.map_cons, List.map_append]

theorem becomes_subst {limit depth : Nat} {e : Expr} (h : Lowerable limit depth e)
    (hs : ∀ i, e.LowersField i → Becomes (s i) (v i)) :
    Becomes (e.subst s) (e.translation.subst v) := by
  -- The judgment goes down to the lowered arguments only, and so do the columns to be replaced.
  induction h with
  | field hd name index => exact hs index (.field name)
  | literal hd value => exact becomes_iff.mpr ⟨.literal (Nat.le_of_eq rfl) value, rfl⟩
  | call hd hconf hargs ih =>
    apply Becomes.call_subst hconf
    intro e he
    apply ih e he
    intro i hi
    exact hs i (.call he hi)

/-- Lowering commutes with substitution: with the lowered columns of an expression replaced all at
once, what comes out is its row expression with these columns replaced, if the limit is not lower
than that row expression is high, and a depth error otherwise. The limits under which the parts were
lowered do not matter. -/
theorem convert_subst {limit : Nat} {e : Expr} {n : Node}
    (he : (standard limit).convert e = .ok n)
    (hs : ∀ i, e.LowersField i → ∃ limit, (standard limit).convert (s i) = .ok (v i))
    (limit' : Nat) :
    (standard limit').convert (e.subst s) =
      if (n.subst v).height ≤ limit' then .ok (n.subst v) else .error (.depthExceeded limit') := by
  obtain ⟨hlowerable, rfl⟩ := (lowerAt_eq_ok_iff limit 0 e n).mp he
  have hbecomes : Becomes (e.subst s) (e.translation.subst v) := becomes_subst hlowerable hs
  exact hbecomes.convert_eq limit'

/-- Two columns change places, one of them to be found below a call. The column in the unused default
value stays, and what would stand for it has no row expression. -/
theorem convert_subst_exchange :
    let e : Expr := .call .jsonValue [.field "a" 0, .literal (.string "$"), .type .varchar,
      .literal (.symbol (.valueFallback .null)), .field "c" 2,
      .literal (.symbol (.valueFallback .default)), .call .not [.field "b" 1]]
    let n : Node := .call .jsonValue [.inputRef 0, .literal (.string "$"),
      .literal (.symbol (.valueFallback .null)), .literal (.symbol (.clause .empty)),
      .literal (.symbol (.valueFallback .default)), .call .not [.inputRef 1] none,
      .literal (.symbol (.clause .error))] (some .varchar)
    let s : UInt64 → Expr := fun i =>
      if i = 0 then .field "b" 1 else if i = 1 then .call .not [.field "a" 0] else .type .varchar
    let v : UInt64 → Node := fun i => if i = 0 then .inputRef 1 else .call .not [.inputRef 0] none
    (standard 2).convert e = .ok n ∧
      (∀ i, e.LowersField i → ∃ limit, (standard limit).convert (s i) = .ok (v i)) ∧
      (standard 3).convert (e.subst s) =
        .ok (.call .jsonValue [.inputRef 1, .literal (.string "$"),
          .literal (.symbol (.valueFallback .null)), .literal (.symbol (.clause .empty)),
          .literal (.symbol (.valueFallback .default)),
          .call .not [.call .not [.inputRef 0] none] none,
          .literal (.symbol (.clause .error))] (some .varchar)) ∧
      (standard 2).convert (e.subst s) = .error (.depthExceeded 2) := by
  intro e n s v
  have he : (standard 2).convert e = .ok n := rfl
  have hs : ∀ i, e.LowersField i → ∃ limit, (standard limit).convert (s i) = .ok (v i) := by
    intro i hi
    obtain ⟨d, hmem, hd⟩ := Expr.lowersField_call_iff.mp hi
    rcases mem_loweredArgs_jsonValue.mp hmem with rfl | rfl | ⟨hb, -⟩ | ⟨-, rfl⟩
    · cases hd
      exact ⟨0, rfl⟩
    · cases hd
    · cases hb
    · obtain ⟨d, hmem, hd⟩ := Expr.lowersField_call_iff.mp hd
      obtain rfl := List.mem_singleton.mp hmem
      cases hd
      exact ⟨1, rfl⟩
  refine ⟨he, hs, ?_, ?_⟩
  · exact (convert_subst he hs 3).trans (if_pos (by decide))
  · exact (convert_subst he hs 2).trans (if_neg (by decide))

end

end Planner

end RowPlan
