import RowPlan.Node.Json
import RowPlan.Proofs.JsonForms
import RowPlan.Proofs.Trees

/-! Row expressions in JSON, with the same two facts as for expressions: what has been written reads
as what it was written from if all its doubles have a number form and as nothing otherwise, and only
such row expressions are ever read. Flags keep the enumeration they belong to, which their names in
a digest do not tell. -/
namespace RowPlan.Node

mutual

/-- No constant in the row expression is a NaN or an infinity, wherever it stands. -/
def isFinite : Node → Bool
  | inputRef _ => true
  | literal value => value.isFinite
  | call _ operands _ => areFinite operands

def areFinite : List Node → Bool
  | [] => true
  | n :: ns => isFinite n && areFinite ns

end

theorem areFinite_eq_all (ns : List Node) : areFinite ns = ns.all isFinite := by
  induction ns with
  | nil => rfl
  | cons n ns ih => rw [areFinite, List.all_cons, ih]

theorem toJsons_eq_map (ns : List Node) : toJsons ns = ns.map toJson := by
  induction ns with
  | nil => rfl
  | cons n ns ih => rw [toJsons, List.map_cons, ih]

theorem ofJsons?_eq_mapM (place : Json.Place) (items : List Json) :
    ofJsons? place items = items.mapM (ofJson? place) := by
  induction items with
  | nil => rfl
  | cons j items ih => rw [ofJsons?, List.mapM_cons, ih]

theorem operandsOfFields?_eq_bind (place : Json.Place) (fields : Json.Fields) :
    operandsOfFields? place fields = (fields.lookup "operands").bind (operandsOfJson? place) := by
  induction fields with
  | nil => rfl
  | cons field fields ih =>
    rw [operandsOfFields?, List.lookup_cons]
    by_cases hname : field.1 = "operands"
    · simp [hname]
    · have hother : ("operands" == field.1) = false := beq_false_of_ne (Ne.symm hname)
      rw [if_neg hname, ih, hother]

section
variable {place : Json.Place} {fields : Json.Fields}

-- The tag decides which other fields are looked up. A constant looks up its own in the same object.

theorem ofJson?_input_ref
    (h : (fields.lookup "node").bind (Json.tag? place tags) = some "input_ref") :
    ofJson? place (.obj fields) =
      ((fields.lookup "index").bind Json.uint64?).map inputRef := by
  obtain ⟨j, hj, htag⟩ := Option.bind_eq_some_iff.mp h
  simp only [ofJson?, hj, htag, Option.bind_eq_bind, Option.pure_def, Option.bind_some,
    ↓reduceIte, Option.map_eq_bind, Function.comp_def, Option.bind_assoc]

theorem ofJson?_literal
    (h : (fields.lookup "node").bind (Json.tag? place tags) = some "literal") :
    ofJson? place (.obj fields) =
      (Literal.ofJson? .flag .inner (.obj fields)).map literal := by
  obtain ⟨j, hj, htag⟩ := Option.bind_eq_some_iff.mp h
  simp only [ofJson?, hj, htag, Option.bind_eq_bind, Option.pure_def, Option.bind_some,
    String.reduceEq, ↓reduceIte, Option.map_eq_bind, Function.comp_def]

theorem ofJson?_call
    (h : (fields.lookup "node").bind (Json.tag? place tags) = some "call") :
    ofJson? place (.obj fields) =
      ((fields.lookup "op").bind (Operator.ofJson? .inner)).bind fun op =>
        ((fields.lookup "operands").bind (operandsOfJson? .inner)).bind fun operands =>
          (typeOfJson? .inner (fields.lookup "return_type")).map (call op operands) := by
  obtain ⟨j, hj, htag⟩ := Option.bind_eq_some_iff.mp h
  simp only [ofJson?, hj, htag, operandsOfFields?_eq_bind, Option.bind_eq_bind, Option.pure_def,
    Option.bind_some, String.reduceEq, ↓reduceIte, Option.map_eq_bind, Function.comp_def,
    Option.bind_assoc]

theorem ofJson?_eq_none
    (h : ∀ tag ∈ tags, (fields.lookup "node").bind (Json.tag? place tags) ≠ some tag) :
    ofJson? place (.obj fields) = none := by
  cases hj : fields.lookup "node" with
  | none => simp [ofJson?, hj]
  | some j =>
    rw [hj] at h
    cases htag : j.tag? place tags with
    | none => simp [ofJson?, hj, htag]
    | some tag =>
      have hother : ∀ t ∈ tags, tag ≠ t := by
        rintro t ht rfl
        exact h tag ht htag
      simp only [tags, List.forall_mem_cons] at hother
      obtain ⟨hinput, hliteral, hcall, -⟩ := hother
      simp [ofJson?, hj, htag, hinput, hliteral, hcall]

end

theorem typeOfJson?_lookup_typeField (place : Json.Place) (type : Option SqlType) :
    typeOfJson? place ((typeField type).lookup "return_type") = some type := by
  cases type with
  | none => rfl
  | some t =>
    change (SqlType.ofJson? place t.toJson).map some = some (some t)
    rw [SqlType.ofJson?_toJson, Option.map_some]

theorem ofJson?_toJson (n : Node) (place : Json.Place) :
    ofJson? place n.toJson = if n.isFinite then some n else none := by
  -- The operands are read inside a tree, wherever the call stands.
  induction n using tree_induction generalizing place with
  | leaf n hn =>
    cases n with
    | inputRef index =>
      have hlookup (j : Json) :
          List.lookup "index" [("node", .str "input_ref"), ("index", j)] = some j := rfl
      rw [toJson, ofJson?_input_ref rfl, hlookup, Option.bind_some, Json.uint64?_int_toNat]
      rfl
    | literal value =>
      -- The fields of the constant are found in the object of the node.
      have hvalue : Literal.ofJson? .flag .inner
          (.obj (("node", .str "literal") :: value.toFields .flag)) =
            if value.isFinite then some value else none :=
        Literal.ofJson?_obj Literal.Sixth.flag_lawful .inner value rfl rfl
      rw [toJson, ofJson?_literal rfl, hvalue, isFinite]
      cases value.isFinite with
      | false => rfl
      | true => rfl
    | call op operands type => exact hn.elim
  | call op operands type ih =>
    have hoperands : ofJsons? .inner (toJsons operands) =
        if areFinite operands then some operands else none := by
      rw [ofJsons?_eq_mapM, toJsons_eq_map, areFinite_eq_all]
      exact Json.mapM_read_map_write fun n hn => ih n hn .inner
    have htype : typeOfJson? .inner ((typeField type).lookup "return_type") = some type :=
      typeOfJson?_lookup_typeField .inner type
    rw [toJson, ofJson?_call rfl, isFinite]
    change (Operator.ofJson? .inner op.toJson).bind (fun op =>
      (ofJsons? .inner (toJsons operands)).bind fun operands =>
        (typeOfJson? .inner ((typeField type).lookup "return_type")).map (call op operands)) = _
    rw [Operator.ofJson?_toJson, hoperands, htype]
    cases areFinite operands with
    | false => rfl
    | true => rfl

/-- A JSON value reads as finite row expressions only, be it as one or as a list of operands. -/
def ReadsFinite (j : Json) : Prop :=
  (∀ place n, ofJson? place j = some n → n.isFinite = true) ∧
    ∀ place ns, operandsOfJson? place j = some ns → areFinite ns = true

theorem isFinite_of_inputRef {index : Option UInt64} {n : Node}
    (h : (index.bind fun index => some (inputRef index)) = some n) : n.isFinite = true := by
  obtain ⟨index, -, h⟩ := Option.bind_eq_some_iff.mp h
  cases h
  rfl

theorem isFinite_of_literal {value : Option (Literal Flag)} {n : Node}
    (hvalue : ∀ v, value = some v → v.isFinite = true)
    (h : (value.bind fun v => some (literal v)) = some n) : n.isFinite = true := by
  obtain ⟨v, hv, h⟩ := Option.bind_eq_some_iff.mp h
  cases h
  exact hvalue v hv

theorem isFinite_of_call {op : Option Operator} {operands : Option (List Node)} {n : Node}
    (type : Option (Option SqlType))
    (hoperands : ∀ ns, operands = some ns → areFinite ns = true)
    (h : (op.bind fun op => operands.bind fun ns => type.bind fun type =>
      some (call op ns type)) = some n) : n.isFinite = true := by
  obtain ⟨op, -, h⟩ := Option.bind_eq_some_iff.mp h
  obtain ⟨ns, hns, h⟩ := Option.bind_eq_some_iff.mp h
  obtain ⟨type, -, h⟩ := Option.bind_eq_some_iff.mp h
  cases h
  exact hoperands ns hns

theorem isFinite_of_obj {place : Json.Place} {fields : Json.Fields} {n : Node}
    (hoperands : ∀ ns, operandsOfFields? .inner fields = some ns → areFinite ns = true)
    (h : ofJson? place (.obj fields) = some n) : n.isFinite = true := by
  rw [ofJson?] at h
  obtain ⟨j, -, h⟩ := Option.bind_eq_some_iff.mp h
  obtain ⟨tag, -, h⟩ := Option.bind_eq_some_iff.mp h
  split at h
  · obtain ⟨index, -, h⟩ := Option.bind_eq_some_iff.mp h
    exact isFinite_of_inputRef h
  split at h
  · exact isFinite_of_literal (fun v hv => Literal.isFinite_of_ofJson? hv) h
  split at h
  · obtain ⟨op, -, h⟩ := Option.bind_eq_some_iff.mp h
    exact isFinite_of_call _ hoperands h
  · cases h

theorem isFinite_of_arr {place : Json.Place} {items : List Json} {n : Node}
    (hoperands : ∀ j ∈ items, ∀ ns, operandsOfJson? .inner j = some ns → areFinite ns = true)
    (h : ofJson? place (.arr items) = some n) : n.isFinite = true := by
  -- Only arrays of two to four items read as anything.
  match items with
  | [tag, index] =>
    rw [ofJson?] at h
    obtain ⟨tag, -, h⟩ := Option.bind_eq_some_iff.mp h
    split at h
    · exact isFinite_of_inputRef h
    · cases h
  | [tag, first, second] =>
    rw [ofJson?] at h
    obtain ⟨tag, -, h⟩ := Option.bind_eq_some_iff.mp h
    split at h
    · exact isFinite_of_literal (fun v hv => Literal.isFinite_of_ofJson? hv) h
    split at h
    · exact isFinite_of_call (some none) (hoperands second (by simp)) h
    · cases h
  | [tag, op, operands, type] =>
    rw [ofJson?] at h
    obtain ⟨tag, -, h⟩ := Option.bind_eq_some_iff.mp h
    split at h
    · exact isFinite_of_call _ (hoperands operands (by simp)) h
    · cases h
  | [] => cases h
  | [_] => cases h
  | _ :: _ :: _ :: _ :: _ :: _ => cases h

theorem readsFinite (j : Json) : ReadsFinite j := by
  induction j using Json.tree_induction with
  | null => exact ⟨nofun, nofun⟩
  | bool b => exact ⟨nofun, nofun⟩
  | int n => exact ⟨nofun, nofun⟩
  | real d => exact ⟨nofun, nofun⟩
  | str s => exact ⟨nofun, nofun⟩
  | arr items ih =>
    constructor
    · intro place n h
      exact isFinite_of_arr (fun j hj => (ih j hj).2 .inner) h
    · intro place ns h
      rw [operandsOfJson?, ofJsons?_eq_mapM] at h
      rw [areFinite_eq_all]
      exact Json.all_of_mapM_read (fun j hj => (ih j hj).1 place) h
  | obj fields ih =>
    refine ⟨fun place n h => isFinite_of_obj (fun ns hns => ?_) h, nofun⟩
    rw [operandsOfFields?_eq_bind] at hns
    obtain ⟨operands, hoperands, hns⟩ := Option.bind_eq_some_iff.mp hns
    exact (ih ("operands", operands) (Json.mem_of_lookup hoperands)).2 .inner ns hns

/-- Written row expressions reload: exactly if all their doubles are finite, and then as themselves,
flags of one name in different enumerations included. Whatever has been read, from however unusual
a spelling, is such a row expression. -/
theorem node_json_round_trip (place : Json.Place) :
    (∀ n : Node, n.isFinite = true → ofJson? place n.toJson = some n) ∧
      (∀ n : Node, n.isFinite = false → ofJson? place n.toJson = none) ∧
      ∀ (j : Json) (n : Node), ofJson? place j = some n →
        n.isFinite = true ∧ ofJson? place n.toJson = some n := by
  have hfinite : ∀ n : Node, n.isFinite = true → ofJson? place n.toJson = some n := by
    intro n hn
    rw [ofJson?_toJson, if_pos hn]
  refine ⟨hfinite, ?_, ?_⟩
  · intro n hn
    rw [ofJson?_toJson, hn]
    rfl
  · intro j n h
    have hn : n.isFinite = true := (readsFinite j).1 place n h
    exact ⟨hn, hfinite n hn⟩

/-- Two flags named `NULL` are told apart again, an infinity inside a call is not read back, and a
call whose type is spelled `null` is written without one. -/
theorem node_json_round_trip_flags_and_null_type :
    ofJson? .outer (call .jsonQuery [literal (.symbol (.queryFallback .null)),
        literal (.symbol (.valueFallback .null))] (some .bigInt)).toJson =
      some (call .jsonQuery [literal (.symbol (.queryFallback .null)),
        literal (.symbol (.valueFallback .null))] (some .bigInt)) ∧
    ofJson? .outer (call .not [literal (.double ⟨0x7FF0000000000000⟩)] none).toJson = none ∧
    ofJson? .outer (.obj [("node", .str "call"), ("op", .str "PLUS"), ("operands", .arr []),
        ("return_type", .null)]) = some (call .plus [] none) ∧
    ofJson? .outer (call .plus [] none).toJson = some (call .plus [] none) := by
  have hnull : ofJson? .outer (.obj [("node", .str "call"), ("op", .str "PLUS"),
      ("operands", .arr []), ("return_type", .null)]) = some (call .plus [] none) := by
    rfl
  exact ⟨(node_json_round_trip .outer).1 _ (by decide),
    (node_json_round_trip .outer).2.1 _ (by decide), hnull,
    ((node_json_round_trip .outer).2.2 _ _ hnull).2⟩

end RowPlan.Node
