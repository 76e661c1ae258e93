import RowPlan.Expr.Json
import RowPlan.Proofs.JsonForms
import RowPlan.Proofs.Trees

/-! Expressions in JSON. What has been written reads as the expression it was written from, or as
nothing if a double inside has no number form; and no JSON value, written by whomever, reads as an
expression with such a double. So an expression that has been read survives being written and read
again. -/
namespace RowPlan.Expr

mutual

/-- No literal in the expression is a NaN or an infinity, wherever it stands. -/
def isFinite : Expr → Bool
  | field _ _ => true
  | literal value => value.isFinite
  | type _ => true
  | call _ args => areFinite args

def areFinite : List Expr → Bool
  | [] => true
  | e :: es => isFinite e && areFinite es

end

theorem areFinite_eq_all (es : List Expr) : areFinite es = es.all isFinite := by
  induction es with
  | nil => rfl
  | cons e es ih => rw [areFinite, List.all_cons, ih]

theorem toJsons_eq_map (es : List Expr) : toJsons es = es.map toJson := by
  induction es with
  | nil => rfl
  | cons e es ih => rw [toJsons, List.map_cons, ih]

theorem ofJsons?_eq_mapM (place : Json.Place) (items : List Json) :
    ofJsons? place items = items.mapM (ofJson? place) := by
  induction items with
  | nil => rfl
  | cons j items ih => rw [ofJsons?, List.mapM_cons, ih]

theorem argsOfFields?_eq_bind (place : Json.Place) (fields : Json.Fields) :
    argsOfFields? place fields = (fields.lookup "args").bind (argsOfJson? place) := by
  induction fields with
  | nil => rfl
  | cons field fields ih =>
    rw [argsOfFields?, List.lookup_cons]
    by_cases hname : field.1 = "args"
    · simp [hname]
    · have hother : ("args" == field.1) = false := beq_false_of_ne (Ne.symm hname)
      rw [if_neg hname, ih, hother]

section
variable {place : Json.Place} {fields : Json.Fields}

-- The tag decides which other fields are looked up, and those are then inside a tree.

theorem ofJson?_field_ref
    (h : (fields.lookup "type").bind (Json.tag? place tags) = some "field_ref") :
    ofJson? place (.obj fields) = (fields.lookup "name").bind fun name =>
      (fields.lookup "index").bind fun index => fieldOfJson? name index := by
  obtain ⟨j, hj, htag⟩ := Option.bind_eq_some_iff.mp h
  simp [ofJson?, hj, htag]

theorem ofJson?_literal
    (h : (fields.lookup "type").bind (Json.tag? place tags) = some "literal") :
    ofJson? place (.obj fields) =
      ((fields.lookup "value").bind (Literal.ofJson? .symbol .inner)).map literal := by
  obtain ⟨j, hj, htag⟩ := Option.bind_eq_some_iff.mp h
  simp only [ofJson?, hj, htag, Option.bind_eq_bind, Option.pure_def, Option.bind_some,
    String.reduceEq, ↓reduceIte, Option.map_eq_bind, Function.comp_def, Option.bind_assoc]

theorem ofJson?_type_literal
    (h : (fields.lookup "type").bind (Json.tag? place tags) = some "type_literal") :
    ofJson? place (.obj fields) =
      ((fields.lookup "data_type").bind (SqlType.ofJson? .inner)).map type := by
  obtain ⟨j, hj, htag⟩ := Option.bind_eq_some_iff.mp h
  simp only [ofJson?, hj, htag, Option.bind_eq_bind, Option.pure_def, Option.bind_some,
    String.reduceEq, ↓reduceIte, Option.map_eq_bind, Function.comp_def, Option.bind_assoc]

theorem ofJson?_call
    (h : (fields.lookup "type").bind (Json.tag? place tags) = some "call") :
    ofJson? place (.obj fields) =
      ((fields.lookup "function").bind (BuiltIn.ofJson? .inner)).bind fun f =>
        ((fields.lookup "args").bind (argsOfJson? .inner)).map (call f) := by
  obtain ⟨j, hj, htag⟩ := Option.bind_eq_some_iff.mp h
  simp only [ofJson?, hj, htag, argsOfFields?_eq_bind, Option.bind_eq_bind, Option.pure_def,
    Option.bind_some, String.reduceEq, ↓reduceIte, Option.map_eq_bind, Function.comp_def,
    Option.bind_assoc]

theorem ofJson?_eq_none
    (h : ∀ tag ∈ tags, (fields.lookup "type").bind (Json.tag? place tags) ≠ some tag) :
    ofJson? place (.obj fields) = none := by
  cases hj : fields.lookup "type" with
  | none => simp [ofJson?, hj]
  | some j =>
    rw [hj] at h
    cases htag : j.tag? place tags with
    | none => simp [ofJson?, hj, htag]
    | some tag =>
      have hother : ∀ t ∈ tags, tag ≠ t := by
        rintro t ht rfl
        exact h tag ht htag
      simp only [tags, List.forall_mem_cons] at hother
      obtain ⟨hfield, hliteral, htype, hcall, -⟩ := hother
      simp [ofJson?, hj, htag, hfield, hliteral, htype, hcall]

end

theorem ofJson?_toJson (e : Expr) (place : Json.Place) :
    ofJson? place e.toJson = if e.isFinite then some e else none := by
  -- The arguments are read inside a tree, wherever the call stands.
  induction e using tree_induction generalizing place with
  | field name index =>
    rw [toJson, ofJson?_field_ref rfl]
    simp [List.lookup_cons, fieldOfJson?, Json.str?, Json.uint64?_int_toNat, isFinite]
  | literal value =>
    have hvalue : Literal.ofJson? .symbol .inner (value.toJson .symbol) =
        if value.isFinite then some value else none :=
      Literal.ofJson?_obj Literal.Sixth.symbol_lawful .inner value rfl rfl
    rw [toJson, ofJson?_literal rfl, isFinite]
    change (Literal.ofJson? .symbol .inner (value.toJson .symbol)).map literal = _
    rw [hvalue]
    cases value.isFinite with
    | false => rfl
    | true => rfl
  | type t =>
    rw [toJson, ofJson?_type_literal rfl]
    change (SqlType.ofJson? .inner t.toJson).map type = some (type t)
    rw [SqlType.ofJson?_toJson, Option.map_some]
  | call f args ih =>
    have hargs : ofJsons? .inner (toJsons args) = if areFinite args then some args else none := by
      rw [ofJsons?_eq_mapM, toJsons_eq_map, areFinite_eq_all]
      exact Json.mapM_read_map_write fun e he => ih e he .inner
    rw [toJson, ofJson?_call rfl, isFinite]
    change (BuiltIn.ofJson? .inner f.toJson).bind (fun f =>
      (ofJsons? .inner (toJsons args)).map (call f)) = _
    rw [BuiltIn.ofJson?_toJson, hargs]
    cases areFinite args with
    | false => rfl
    | true => rfl

theorem isFinite_of_fieldOfJson? {name index : Json} {e : Expr}
    (h : fieldOfJson? name index = some e) : e.isFinite = true := by
  obtain ⟨s, -, h⟩ := Option.bind_eq_some_iff.mp h
  obtain ⟨i, -, h⟩ := Option.bind_eq_some_iff.mp h
  cases h
  rfl

/-- A JSON value reads as finite expressions only, be it as one or as a list of arguments. -/
def ReadsFinite (j : Json) : Prop :=
  (∀ place e, ofJson? place j = some e → e.isFinite = true) ∧
    ∀ place es, argsOfJson? place j = some es → areFinite es = true

theorem isFinite_of_literal {value : Option (Literal Symbol)} {e : Expr}
    (hvalue : ∀ v, value = some v → v.isFinite = true)
    (h : (value.bind fun v => some (literal v)) = some e) : e.isFinite = true := by
  obtain ⟨v, hv, h⟩ := Option.bind_eq_some_iff.mp h
  cases h
  exact hvalue v hv

theorem isFinite_of_type {t : Option SqlType} {e : Expr}
    (h : (t.bind fun t => some (type t)) = some e) : e.isFinite = true := by
  obtain ⟨t, -, h⟩ := Option.bind_eq_some_iff.mp h
  cases h
  rfl

theorem isFinite_of_call {f : Option BuiltIn} {args : Option (List Expr)} {e : Expr}
    (hargs : ∀ es, args = some es → areFinite es = true)
    (h : (f.bind fun f => args.bind fun es => some (call f es)) = some e) : e.isFinite = true := by
  obtain ⟨f, -, h⟩ := Option.bind_eq_some_iff.mp h
  obtain ⟨es, hes, h⟩ := Option.bind_eq_some_iff.mp h
  cases h
  exact hargs es hes

theorem isFinite_of_obj {place : Json.Place} {fields : Json.Fields} {e : Expr}
    (hargs : ∀ es, argsOfFields? .inner fields = some es → areFinite es = true)
    (h : ofJson? place (.obj fields) = some e) : e.isFinite = true := by
  rw [ofJson?] at h
  obtain ⟨j, -, h⟩ := Option.bind_eq_some_iff.mp h
  obtain ⟨tag, -, h⟩ := Option.bind_eq_some_iff.mp h
  split at h
  · obtain ⟨name, -, h⟩ := Option.bind_eq_some_iff.mp h
    obtain ⟨index, -, h⟩ := Option.bind_eq_some_iff.mp h
    exact isFinite_of_fieldOfJson? h
  split at h
  · obtain ⟨value, -, h⟩ := Option.bind_eq_some_iff.mp h
    exact isFinite_of_literal (fun v hv => Literal.isFinite_of_ofJson? hv) h
  split at h
  · obtain ⟨t, -, h⟩ := Option.bind_eq_some_iff.mp h
    exact isFinite_of_type h
  split at h
  · obtain ⟨f, -, h⟩ := Option.bind_eq_some_iff.mp h
    exact isFinite_of_call hargs h
  · cases h

theorem isFinite_of_arr {place : Json.Place} {items : List Json} {e : Expr}
    (hargs : ∀ j ∈ items, ∀ es, argsOfJson? .inner j = some es → areFinite es = true)
    (h : ofJson? place (.arr items) = some e) : e.isFinite = true := by
  -- Only arrays of two items and of three read as anything.
  match items with
  | [tag, value] =>
    rw [ofJson?] at h
    obtain ⟨tag, -, h⟩ := Option.bind_eq_some_iff.mp h
    split at h
    · exact isFinite_of_literal (fun v hv => Literal.isFinite_of_ofJson? hv) h
    split at h
    · exact isFinite_of_type h
    · cases h
  | [tag, first, second] =>
    rw [ofJson?] at h
    obtain ⟨tag, -, h⟩ := Option.bind_eq_some_iff.mp h
    split at h
    · exact isFinite_of_fieldOfJson? h
    split at h
    · exact isFinite_of_call (hargs second (by simp)) h
    · cases h
  | [] => cases h
  | [_] => cases h
  | _ :: _ :: _ :: _ :: _ => cases h

theorem readsFinite (j : Json) : ReadsFinite j := by
  -- An array is read in two ways, as an expression and as arguments, so both are claimed at once.
  induction j using Json.tree_induction with
  | null => exact ⟨nofun, nofun⟩
  | bool b => exact ⟨nofun, nofun⟩
  | int n => exact ⟨nofun, nofun⟩
  | real d => exact ⟨nofun, nofun⟩
  | str s => exact ⟨nofun, nofun⟩
  | arr items ih =>
    constructor
    · intro place e h
      exact isFinite_of_arr (fun j hj => (ih j hj).2 .inner) h
    · intro place es h
      rw [argsOfJson?, ofJsons?_eq_mapM] at h
      rw [areFinite_eq_all]
      exact Json.all_of_mapM_read (fun j hj => (ih j hj).1 place) h
  | obj fields ih =>
    refine ⟨fun place e h => isFinite_of_obj (fun es hes => ?_) h, nofun⟩
    rw [argsOfFields?_eq_bind] at hes
    obtain ⟨args, hargs, hes⟩ := Option.bind_eq_some_iff.mp hes
    exact (ih ("args", args) (Json.mem_of_lookup hargs)).2 .inner es hes

/-- Written expressions reload: exactly if all their doubles are finite, and then as themselves.
Whatever has been read, from however unusual a spelling, is such an expression. -/
theorem expr_json_round_trip (place : Json.Place) :
    (∀ e : Expr, e.isFinite = true → ofJson? place e.toJson = some e) ∧
      (∀ e : Expr, e.isFinite = false → ofJson? place e.toJson = none) ∧
      ∀ (j : Json) (e : Expr), ofJson? place j = some e →
        e.isFinite = true ∧ ofJson? place e.toJson = some e := by
  have hfinite : ∀ e : Expr, e.isFinite = true → ofJson? place e.toJson = some e := by
    intro e he
    rw [ofJson?_toJson, if_pos he]
  refine ⟨hfinite, ?_, ?_⟩
  · intro e he
    rw [ofJson?_toJson, he]
    rfl
  · intro j e h
    have he : e.isFinite = true := (readsFinite j).1 place e h
    exact ⟨he, hfinite e he⟩

/-- The largest index and the least integer are read back, an infinity inside a call is not, and a
literal in an array, its tag given by position, is read to be written as an object. -/
theorem expr_json_round_trip_extremes :
    ofJson? .outer (call .plus [field "c" (.ofNat (2 ^ 64 - 1)),
        literal (.integer (.ofInt (-2 ^ 63)))]).toJson =
      some (call .plus [field "c" (.ofNat (2 ^ 64 - 1)), literal (.integer (.ofInt (-2 ^ 63)))]) ∧
    ofJson? .outer (call .not [literal (.double ⟨0x7FF0000000000000⟩)]).toJson = none ∧
    ofJson? .inner (.arr [.int 1, .obj [("kind", .str "null"), ("value", .null)]]) =
      some (literal .null) ∧
    ofJson? .inner (literal .null).toJson = some (literal .null) := by
  have harray : ofJson? .inner (.arr [.int 1, .obj [("kind", .str "null"), ("value", .null)]]) =
      some (literal .null) := by
    rfl
  exact ⟨(expr_json_round_trip .outer).1 _ (by decide),
    (expr_json_round_trip .outer).2.1 _ (by decide), harray,
    ((expr_json_round_trip .inner).2.2 _ _ harray).2⟩

end RowPlan.Expr
