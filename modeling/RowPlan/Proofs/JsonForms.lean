import RowPlan.Json.Literal

/-! Reading back what has been written, for everything inside a tree that is no tree itself:
numbers, names, symbols, flags and literals. Reading inverts writing, up to the doubles without a
number form, which are written as `null` and then read as nothing. -/
namespace RowPlan

namespace Json

@[elab_as_elim]
theorem tree_induction {motive : Json → Prop} (null : motive .null)
    (bool : ∀ b, motive (.bool b)) (int : ∀ n, motive (.int n))
    (real : ∀ d, motive (.real d)) (str : ∀ s, motive (.str s))
    (arr : ∀ items, (∀ j ∈ items, motive j) → motive (.arr items))
    (obj : ∀ fields, (∀ field ∈ fields, motive field.2) → motive (.obj fields))
    (j : Json) : motive j := by
  -- The recursor proves a claim each for items, for fields and for a single field besides.
  refine @Json.rec motive (fun items => ∀ j ∈ items, motive j)
    (fun fields => ∀ field ∈ fields, motive field.2) (fun field => motive field.2)
    null bool int real str arr obj nofun ?_ nofun ?_ ?_ j
  · intro j items hj hitems
    exact List.forall_mem_cons.mpr ⟨hj, hitems⟩
  · intro field fields hfield hfields
    exact List.forall_mem_cons.mpr ⟨hfield, hfields⟩
  · intro name j hj
    exact hj

theorem uint64?_int_toNat (n : UInt64) : (int n.toNat).uint64? = some n := by
  have hlt : n.toNat < 2 ^ 64 := n.toNat_lt
  have hrange : (0 : Int) ≤ n.toNat ∧ (n.toNat : Int) < 2 ^ 64 := by omega
  rw [uint64?, if_pos hrange, Int.toNat_natCast, UInt64.ofNat_toNat]

theorem int64?_int_toInt (n : Int64) : (int n.toInt).int64? = some n := by
  have hrange : -2 ^ 63 ≤ n.toInt ∧ n.toInt < 2 ^ 63 := ⟨n.le_toInt, n.toInt_lt⟩
  rw [int64?, if_pos hrange, Int64.ofInt_toInt]

theorem double?_ofDouble (d : Double) :
    (ofDouble d).double? = if d.isFinite then some d else none := by
  rw [ofDouble]
  cases h : d.isFinite with
  | true => simp only [if_true, double?, h]
  | false => rfl

theorem isFinite_of_double? {j : Json} {d : Double} (h : j.double? = some d) :
    d.isFinite = true := by
  cases j with
  | int n =>
    rw [double?] at h
    split at h
    · case isTrue hn =>
      cases h
      exact hn
    · cases h
  | real x =>
    rw [double?] at h
    split at h
    · case isTrue hx =>
      cases h
      exact hx
    · cases h
  | _ => cases h

section
variable {α : Type} {read : Json → Option α} {write : α → Json} {p : α → Bool}

/-- If `p` tells which values are read back, then a list is read back if `p` holds throughout. -/
theorem mapM_read_map_write {as : List α}
    (h : ∀ a ∈ as, read (write a) = if p a then some a else none) :
    (as.map write).mapM read = if as.all p then some as else none := by
  induction as with
  | nil => rfl
  | cons a as ih =>
    obtain ⟨ha, has⟩ := List.forall_mem_cons.mp h
    rw [List.map_cons, List.mapM_cons, ha, ih has, List.all_cons]
    cases p a with
    | false => rfl
    | true =>
      cases as.all p with
      | false => rfl
      | true => rfl

theorem all_of_mapM_read {items : List Json} {as : List α}
    (hread : ∀ j ∈ items, ∀ a, read j = some a → p a = true) (h : items.mapM read = some as) :
    as.all p = true := by
  induction items generalizing as with
  | nil =>
    cases h
    rfl
  | cons j items ih =>
    obtain ⟨hj, hitems⟩ := List.forall_mem_cons.mp hread
    rw [List.mapM_cons] at h
    obtain ⟨a, ha, h⟩ := Option.bind_eq_some_iff.mp h
    obtain ⟨rest, hrest, h⟩ := Option.bind_eq_some_iff.mp h
    cases h
    rw [List.all_cons, hj a ha, ih hitems hrest]
    rfl

end

theorem mem_of_lookup {fields : Fields} {name : String} {j : Json}
    (h : fields.lookup name = some j) : (name, j) ∈ fields := by
  obtain ⟨before, after, rfl, -⟩ := List.lookup_eq_some_iff.mp h
  exact List.mem_append_right before List.mem_cons_self

end Json

theorem SqlType.ofJson?_toJson (place : Json.Place) (t : SqlType) :
    ofJson? place t.toJson = some t := t.ofTag?_tag

theorem BuiltIn.ofJson?_toJson (place : Json.Place) (f : BuiltIn) :
    ofJson? place f.toJson = some f := f.ofTag?_tag

theorem Operator.ofJson?_toJson (place : Json.Place) (op : Operator) :
    ofJson? place op.toJson = some op := op.ofTag?_tag

theorem Symbol.ofTag?_enumeration_tag (s : Symbol) : ofTag? s.enumeration s.tag = some s := by
  cases s with
  | wrapper w => exact congrArg (Option.map wrapper) w.ofTag?_tag
  | queryFallback b => exact congrArg (Option.map queryFallback) b.ofTag?_tag
  | valueFallback b => exact congrArg (Option.map valueFallback) b.ofTag?_tag
  | existsFallback b => exact congrArg (Option.map existsFallback) b.ofTag?_tag

theorem Symbol.ofJson?_toJson (place : Json.Place) (s : Symbol) :
    ofJson? place s.toJson = some s := s.ofTag?_enumeration_tag

theorem Flag.ofName?_enumeration_name (f : Flag) : ofName? f.enumeration f.name = some f := by
  cases f with
  | wrapper w => exact congrArg (Option.map wrapper) w.ofName?_name
  | queryFallback b => exact congrArg (Option.map queryFallback) b.ofName?_name
  | valueFallback b => exact congrArg (Option.map valueFallback) b.ofName?_name
  | existsFallback b => exact congrArg (Option.map existsFallback) b.ofName?_name
  | clause c => exact congrArg (Option.map clause) c.ofName?_name

theorem Flag.ofJson?_toJson (place : Json.Place) (f : Flag) :
    ofJson? place f.toJson = some f := f.ofName?_enumeration_name

namespace Literal
variable {σ : Type}

/-- The sixth kind has a name of its own, and reading its values inverts writing them. -/
structure Sixth.Lawful (c : Sixth σ) : Prop where
  fresh : ∀ kind ∈ ["null", "boolean", "integer", "double", "string"], c.kind ≠ kind
  ofJson?_toJson : ∀ place s, c.ofJson? place (c.toJson s) = some s

theorem Sixth.symbol_lawful : symbol.Lawful := ⟨by decide, Symbol.ofJson?_toJson⟩

theorem Sixth.flag_lawful : flag.Lawful := ⟨by decide, Flag.ofJson?_toJson⟩

/-- Not a NaN or an infinity. -/
def isFinite : Literal σ → Bool
  | double d => d.isFinite
  | _ => true

variable {c : Sixth σ}

theorem ofValue?_sixth (hc : c.Lawful) (place : Json.Place) (value : Json) :
    ofValue? c place c.kind value = (c.ofJson? place value).map symbol := by
  have hboolean := hc.fresh "boolean" (by decide)
  have hinteger := hc.fresh "integer" (by decide)
  have hdouble := hc.fresh "double" (by decide)
  have hstring := hc.fresh "string" (by decide)
  rw [ofValue?, if_neg hboolean, if_neg hinteger, if_neg hdouble, if_neg hstring, if_pos rfl]

theorem ofKind?_sixth (hc : c.Lawful) (place : Json.Place) (value : Option Json) :
    ofKind? c place c.kind value = value.bind fun j => (c.ofJson? place j).map symbol := by
  have hnull := hc.fresh "null" (by decide)
  have hread : ofValue? c place c.kind = fun j => (c.ofJson? place j).map symbol :=
    funext (ofValue?_sixth hc place)
  unfold ofKind?
  rw [if_neg hnull, hread]

/-- Only the two fields of the literal are read, wherever they stand among other fields. -/
theorem ofJson?_obj (hc : c.Lawful) (place : Json.Place) (v : Literal σ) {fields : Json.Fields}
    (hkind : fields.lookup "kind" = (v.toFields c).lookup "kind")
    (hvalue : fields.lookup "value" = (v.toFields c).lookup "value") :
    ofJson? c place (.obj fields) = if v.isFinite then some v else none := by
  rw [ofJson?, Json.tagged?, hkind, hvalue]
  cases v with
  | null => rfl
  | boolean b => rfl
  | integer n =>
    change (Json.int n.toInt).int64?.map integer = some (integer n)
    rw [Json.int64?_int_toInt]
    rfl
  | double d =>
    change (Json.ofDouble d).double?.map double = if d.isFinite then some (double d) else none
    rw [Json.double?_ofDouble]
    cases d.isFinite with
    | true => rfl
    | false => rfl
  | string s => rfl
  | symbol s =>
    change ofKind? c place c.kind (some (c.toJson s)) = some (symbol s)
    rw [ofKind?_sixth hc, Option.bind_some, hc.ofJson?_toJson]
    rfl

theorem isFinite_of_ofValue? {place : Json.Place} {kind : String} {value : Json} {v : Literal σ}
    (h : ofValue? c place kind value = some v) : v.isFinite = true := by
  unfold ofValue? at h
  split at h
  · obtain ⟨b, -, rfl⟩ := Option.map_eq_some_iff.mp h
    rfl
  split at h
  · obtain ⟨n, -, rfl⟩ := Option.map_eq_some_iff.mp h
    rfl
  split at h
  · obtain ⟨d, hd, rfl⟩ := Option.map_eq_some_iff.mp h
    exact Json.isFinite_of_double? hd
  split at h
  · obtain ⟨s, -, rfl⟩ := Option.map_eq_some_iff.mp h
    rfl
  split at h
  · obtain ⟨s, -, rfl⟩ := Option.map_eq_some_iff.mp h
    rfl
  · cases h

/-- No JSON value reads as a literal that has no number form. -/
theorem isFinite_of_ofJson? {place : Json.Place} {j : Json} {v : Literal σ}
    (h : ofJson? c place j = some v) : v.isFinite = true := by
  obtain ⟨⟨kind, value⟩, -, h⟩ := Option.bind_eq_some_iff.mp h
  change ofKind? c place kind value = some v at h
  unfold ofKind? at h
  split at h
  · split at h
    · cases h
      rfl
    · cases h
      rfl
    · cases h
  · obtain ⟨j, -, hj⟩ := Option.bind_eq_some_iff.mp h
    exact isFinite_of_ofValue? hj

end Literal

end RowPlan
