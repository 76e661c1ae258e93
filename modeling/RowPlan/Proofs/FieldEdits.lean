import Mathlib.Logic.Relation
import RowPlan.Proofs.ExprJson
import RowPlan.Proofs.Lists
import RowPlan.Proofs.NodeJson

/-! Edits of JSON objects that reading does not notice. An object is read through the fields of its
form and no others, and its tags tell which these are, wherever they stand. So fields may change
places, and fields of other names may be added with any values, at all levels at once. -/
namespace RowPlan

namespace Json

/-- The forms of tagged objects. -/
inductive Form where
  | symbol
  | flag
  | literal
  | expr
  | node

/-- How the value of a field is read: as it stands, as an object of a form, or as an array of
expressions or of row expressions. -/
inductive Slot where
  | plain
  | object (form : Form)
  | args
  | operands

namespace Form

/-- The value beside a kind. That of the sixth kind is an object itself. -/
def valueSlot (sixth : String) (form : Form) (kind : Option Json) : Slot :=
  if kind.bind (name? .inner) = some sixth then .object form else .plain

/-- The fields of an expression with the given tag. -/
def exprMembers (tag : String) : List (String × Slot) :=
  if tag = "field_ref" then [("name", .plain), ("index", .plain)]
  else if tag = "literal" then [("value", .object literal)]
  else if tag = "type_literal" then [("data_type", .plain)]
  else if tag = "call" then [("function", .plain), ("args", .args)]
  else []

/-- The fields of a row expression with the given tag. A constant has those of its literal. -/
def nodeMembers (kind : Option Json) (tag : String) : List (String × Slot) :=
  if tag = "input_ref" then [("index", .plain)]
  else if tag = "literal" then [("kind", .plain), ("value", valueSlot "flag" flag kind)]
  else if tag = "call" then [("op", .plain), ("operands", .operands), ("return_type", .plain)]
  else []

/-- The fields that an object of a form reads, and how. Which these are depends on its tags. -/
def members (fields : Fields) : Form → List (String × Slot)
  | symbol => [("symbol", .plain), ("value", .plain)]
  | flag => [("flag", .plain), ("value", .plain)]
  | literal => [("kind", .plain), ("value", valueSlot "symbol" symbol (fields.lookup "kind"))]
  | expr =>
    ("type", .plain) :: ((fields.lookup "type").bind (tag? .inner Expr.tags)).elim [] exprMembers
  | node =>
    ("node", .plain) :: ((fields.lookup "node").bind (tag? .inner Node.tags)).elim []
      (nodeMembers (fields.lookup "kind"))

/-- How a field of an object is read, if it is. -/
def slot? (form : Form) (fields : Fields) (name : String) : Option Slot :=
  (form.members fields).lookup name

end Form

/-- One edit of a value that is read in the given way: in one object, wherever it stands inside. -/
inductive Edit : Slot → Json → Json → Prop where
  /-- Fields change places, of which none that is read stands there twice. -/
  | reorder {form : Form} {fields fields' : Fields} (h : fields.Perm fields')
    (hd : fields.Pairwise fun x y => form.slot? fields x.1 = none ∨ x.1 ≠ y.1) :
    Edit (.object form) (.obj fields) (.obj fields')
  /-- A field that is not read is added, anywhere and with any value. -/
  | insert {form : Form} {before after : Fields} {name : String}
    (h : form.slot? (before ++ after) name = none) (j : Json) :
    Edit (.object form) (.obj (before ++ after)) (.obj (before ++ (name, j) :: after))
  /-- The value of a field that is not read becomes any other. -/
  | unread {form : Form} {before after : Fields} {name : String} {j : Json}
    (h : form.slot? (before ++ (name, j) :: after) name = none) (j' : Json) :
    Edit (.object form) (.obj (before ++ (name, j) :: after)) (.obj (before ++ (name, j') :: after))
  | field {form : Form} {before after : Fields} {name : String} {j j' : Json} {slot : Slot}
    (h : form.slot? (before ++ (name, j) :: after) name = some slot) (hj : Edit slot j j') :
    Edit (.object form) (.obj (before ++ (name, j) :: after)) (.obj (before ++ (name, j') :: after))
  | arg (before after : List Json) {j j' : Json} (hj : Edit (.object .expr) j j') :
    Edit .args (.arr (before ++ j :: after)) (.arr (before ++ j' :: after))
  | operand (before after : List Json) {j j' : Json} (hj : Edit (.object .node) j j') :
    Edit .operands (.arr (before ++ j :: after)) (.arr (before ++ j' :: after))

/-- Any number of edits of an object, one after the other. -/
def Edited (form : Form) : Json → Json → Prop := Relation.ReflTransGen (Edit (.object form))

/-- What is read from both in the same way is the same. -/
def Slot.Alike : Slot → Json → Json → Prop
  | plain, j, j' => j = j'
  | object .symbol, j, j' => ∀ place, Symbol.ofJson? place j = Symbol.ofJson? place j'
  | object .flag, j, j' => ∀ place, Flag.ofJson? place j = Flag.ofJson? place j'
  | object .literal, j, j' =>
    ∀ place, Literal.ofJson? .symbol place j = Literal.ofJson? .symbol place j'
  | object .expr, j, j' => ∀ place, Expr.ofJson? place j = Expr.ofJson? place j'
  | object .node, j, j' => ∀ place, Node.ofJson? place j = Node.ofJson? place j'
  | args, j, j' => ∀ place, Expr.argsOfJson? place j = Expr.argsOfJson? place j'
  | operands, j, j' => ∀ place, Node.operandsOfJson? place j = Node.operandsOfJson? place j'

theorem Slot.alike_refl (slot : Slot) (j : Json) : slot.Alike j j := by
  cases slot with
  | plain => rfl
  | object form => cases form <;> exact fun place => rfl
  | args => exact fun place => rfl
  | operands => exact fun place => rfl

/-- The fields that an object of the form reads are alike in both. -/
def Form.Agree (form : Form) (fields fields' : Fields) : Prop :=
  ∀ name slot, form.slot? fields name = some slot →
    Option.Rel slot.Alike (fields.lookup name) (fields'.lookup name)

section
variable {form : Form} {fields fields' : Fields}

theorem Form.Agree.bind_eq {α : Type} (h : form.Agree fields fields') {name : String} {slot : Slot}
    (hslot : form.slot? fields name = some slot) {read : Json → Option α}
    (hread : ∀ j j', slot.Alike j j' → read j = read j') :
    (fields.lookup name).bind read = (fields'.lookup name).bind read := by
  have hname := h name slot hslot
  generalize fields.lookup name = value at hname ⊢
  generalize fields'.lookup name = value' at hname ⊢
  cases hname with
  | none => rfl
  | some hj => exact hread _ _ hj

theorem Form.Agree.lookup_eq (h : form.Agree fields fields') {name : String}
    (hslot : form.slot? fields name = some .plain) :
    fields.lookup name = fields'.lookup name := by
  have hbind : (fields.lookup name).bind some = (fields'.lookup name).bind some :=
    h.bind_eq hslot fun j j' hj => congrArg some hj
  rwa [Option.bind_fun_some, Option.bind_fun_some] at hbind

theorem name?_inner {place : Place} {j : Json} {s : String} (h : j.name? place = some s) :
    j.name? .inner = some s := by
  cases place with
  | inner => exact h
  | outer =>
    unfold name? at h ⊢
    split at h
    · exact h
    · exact h
    · cases h
    · cases h

theorem tag?_inner {place : Place} {tags : List String} {j : Json} {s : String}
    (h : j.tag? place tags = some s) : j.tag? .inner tags = some s := by
  cases place with
  | inner => exact h
  | outer =>
    unfold tag? at h ⊢
    split at h
    · exact h
    · cases h
    · cases h

/-- The fields of an expression besides its tag, which may be spelled as its place allows. -/
theorem Form.slot?_expr {place : Place} {tag : String}
    (htag : (fields.lookup "type").bind (tag? place Expr.tags) = some tag) {name : String}
    (hname : name ≠ "type") : expr.slot? fields name = (exprMembers tag).lookup name := by
  obtain ⟨j, hj, htag⟩ := Option.bind_eq_some_iff.mp htag
  have hother : (name == "type") = false := beq_false_of_ne hname
  rw [slot?, members, List.lookup_cons, hother, hj, Option.bind_some, tag?_inner htag]
  rfl

theorem Form.slot?_node {place : Place} {tag : String}
    (htag : (fields.lookup "node").bind (tag? place Node.tags) = some tag) {name : String}
    (hname : name ≠ "node") :
    node.slot? fields name = (nodeMembers (fields.lookup "kind") tag).lookup name := by
  obtain ⟨j, hj, htag⟩ := Option.bind_eq_some_iff.mp htag
  have hother : (name == "node") = false := beq_false_of_ne hname
  rw [slot?, members, List.lookup_cons, hother, hj, Option.bind_some, tag?_inner htag]
  rfl

end

end Json

section
variable {fields fields' : Json.Fields}

theorem Symbol.ofJson?_eq_of_agree (h : Json.Form.symbol.Agree fields fields')
    (place : Json.Place) : ofJson? place (.obj fields) = ofJson? place (.obj fields') := by
  have hsymbol : fields.lookup "symbol" = fields'.lookup "symbol" := h.lookup_eq rfl
  have hvalue : fields.lookup "value" = fields'.lookup "value" := h.lookup_eq rfl
  rw [ofJson?, ofJson?, Json.tagged?, Json.tagged?, hsymbol, hvalue]

theorem Flag.ofJson?_eq_of_agree (h : Json.Form.flag.Agree fields fields') (place : Json.Place) :
    ofJson? place (.obj fields) = ofJson? place (.obj fields') := by
  have hflag : fields.lookup "flag" = fields'.lookup "flag" := h.lookup_eq rfl
  have hvalue : fields.lookup "value" = fields'.lookup "value" := h.lookup_eq rfl
  rw [ofJson?, ofJson?, Json.tagged?, Json.tagged?, hflag, hvalue]

/-- Only a value of the sixth kind may differ, and then in what its own form does not read. -/
theorem Literal.ofJson?_eq_of_alike {σ : Type} {c : Sixth σ} (hc : c.Lawful) {form : Json.Form}
    (hform : ∀ j j', (Json.Slot.object form).Alike j j' →
      ∀ place, c.ofJson? place j = c.ofJson? place j')
    (hkind : fields.lookup "kind" = fields'.lookup "kind")
    (hvalue : Option.Rel (Json.Form.valueSlot c.kind form (fields.lookup "kind")).Alike
      (fields.lookup "value") (fields'.lookup "value")) (place : Json.Place) :
    ofJson? c place (.obj fields) = ofJson? c place (.obj fields') := by
  rw [ofJson?, ofJson?, Json.tagged?, Json.tagged?, ← hkind]
  -- Without a kind that can be read, nothing is read. Beside any kind but the sixth the values are
  -- the same.
  generalize fields.lookup "value" = value at hvalue ⊢
  generalize fields'.lookup "value" = value' at hvalue ⊢
  cases hk : fields.lookup "kind" with
  | none => rfl
  | some k =>
    cases hname : k.name? place with
    | none => simp [hname]
    | some kind =>
      have hinner : (fields.lookup "kind").bind (Json.name? .inner) = some kind := by
        rw [hk, Option.bind_some, Json.name?_inner hname]
      simp only [Option.bind_eq_bind, Option.bind_some, hname, Option.pure_def]
      rw [Json.Form.valueSlot, hinner] at hvalue
      cases hvalue with
      | none => rfl
      | @some j j' hj =>
        by_cases hsixth : kind = c.kind
        · rw [if_pos (congrArg some hsixth)] at hj
          rw [hsixth, ofKind?_sixth hc, ofKind?_sixth hc, Option.bind_some, Option.bind_some,
            hform j j' hj]
        · rw [if_neg fun heq => hsixth (Option.some.inj heq)] at hj
          obtain rfl : j = j' := hj
          rfl

theorem Expr.ofJson?_eq_of_agree (h : Json.Form.expr.Agree fields fields') (place : Json.Place) :
    ofJson? place (.obj fields) = ofJson? place (.obj fields') := by
  have htype : (fields.lookup "type").bind (Json.tag? place tags) =
      (fields'.lookup "type").bind (Json.tag? place tags) :=
    congrArg (Option.bind · _) (h.lookup_eq rfl)
  -- The tag is the same in both, and it decides which other fields are read.
  by_cases htags : ∃ tag ∈ tags, (fields.lookup "type").bind (Json.tag? place tags) = some tag
  · obtain ⟨tag, hmem, htag⟩ := htags
    have htag' := htype.symm.trans htag
    have hslot {name : String} (hname : name ≠ "type") :
        Json.Form.expr.slot? fields name = (Json.Form.exprMembers tag).lookup name :=
      Json.Form.slot?_expr htag hname
    simp only [tags, List.mem_cons, List.not_mem_nil, or_false] at hmem
    rcases hmem with rfl | rfl | rfl | rfl
    · have hname : fields.lookup "name" = fields'.lookup "name" :=
        h.lookup_eq (hslot (by decide))
      have hindex : fields.lookup "index" = fields'.lookup "index" :=
        h.lookup_eq (hslot (by decide))
      rw [ofJson?_field_ref htag, ofJson?_field_ref htag', hname, hindex]
    · have hslot' : Json.Form.expr.slot? fields "value" = some (.object .literal) :=
        hslot (by decide)
      have hvalue : (fields.lookup "value").bind (Literal.ofJson? .symbol .inner) =
          (fields'.lookup "value").bind (Literal.ofJson? .symbol .inner) :=
        h.bind_eq hslot' fun j j' hj => hj .inner
      rw [ofJson?_literal htag, ofJson?_literal htag', hvalue]
    · have htype : fields.lookup "data_type" = fields'.lookup "data_type" :=
        h.lookup_eq (hslot (by decide))
      rw [ofJson?_type_literal htag, ofJson?_type_literal htag', htype]
    · have hfunction : fields.lookup "function" = fields'.lookup "function" :=
        h.lookup_eq (hslot (by decide))
      have hslot' : Json.Form.expr.slot? fields "args" = some .args := hslot (by decide)
      have hargs : (fields.lookup "args").bind (argsOfJson? .inner) =
          (fields'.lookup "args").bind (argsOfJson? .inner) :=
        h.bind_eq hslot' fun j j' hj => hj .inner
      rw [ofJson?_call htag, ofJson?_call htag', hfunction, hargs]
  · have hnone : ∀ tag ∈ tags, (fields.lookup "type").bind (Json.tag? place tags) ≠ some tag :=
      fun tag hmem htag => htags ⟨tag, hmem, htag⟩
    rw [ofJson?_eq_none hnone, ofJson?_eq_none (htype ▸ hnone)]

theorem Node.ofJson?_eq_of_agree (h : Json.Form.node.Agree fields fields') (place : Json.Place) :
    ofJson? place (.obj fields) = ofJson? place (.obj fields') := by
  have htags : (fields.lookup "node").bind (Json.tag? place tags) =
      (fields'.lookup "node").bind (Json.tag? place tags) :=
    congrArg (Option.bind · _) (h.lookup_eq rfl)
  by_cases hread : ∃ tag ∈ tags, (fields.lookup "node").bind (Json.tag? place tags) = some tag
  · obtain ⟨tag, hmem, htag⟩ := hread
    have htag' := htags.symm.trans htag
    have hslot {name : String} (hname : name ≠ "node") : Json.Form.node.slot? fields name =
        (Json.Form.nodeMembers (fields.lookup "kind") tag).lookup name :=
      Json.Form.slot?_node htag hname
    simp only [tags, List.mem_cons, List.not_mem_nil, or_false] at hmem
    rcases hmem with rfl | rfl | rfl
    · have hindex : fields.lookup "index" = fields'.lookup "index" :=
        h.lookup_eq (hslot (by decide))
      rw [ofJson?_input_ref htag, ofJson?_input_ref htag', hindex]
    · -- The constant is read from the same object, through fields of its own.
      have hkind : fields.lookup "kind" = fields'.lookup "kind" :=
        h.lookup_eq (hslot (by decide))
      have hvalue : Option.Rel
          (Json.Form.valueSlot "flag" .flag (fields.lookup "kind")).Alike
          (fields.lookup "value") (fields'.lookup "value") :=
        h "value" _ (hslot (by decide))
      have hflag : ∀ j j', (Json.Slot.object .flag).Alike j j' → ∀ place,
          Literal.Sixth.flag.ofJson? place j = Literal.Sixth.flag.ofJson? place j' :=
        fun j j' hj => hj
      have hliteral : Literal.ofJson? .flag .inner (.obj fields) =
          Literal.ofJson? .flag .inner (.obj fields') :=
        Literal.ofJson?_eq_of_alike Literal.Sixth.flag_lawful hflag hkind hvalue .inner
      rw [ofJson?_literal htag, ofJson?_literal htag', hliteral]
    · have hop : fields.lookup "op" = fields'.lookup "op" := h.lookup_eq (hslot (by decide))
      have htype : fields.lookup "return_type" = fields'.lookup "return_type" :=
        h.lookup_eq (hslot (by decide))
      have hslot' : Json.Form.node.slot? fields "operands" = some .operands := hslot (by decide)
      have hoperands : (fields.lookup "operands").bind (operandsOfJson? .inner) =
          (fields'.lookup "operands").bind (operandsOfJson? .inner) :=
        h.bind_eq hslot' fun j j' hj => hj .inner
      rw [ofJson?_call htag, ofJson?_call htag', hop, htype, hoperands]
  · have hnone : ∀ tag ∈ tags, (fields.lookup "node").bind (Json.tag? place tags) ≠ some tag :=
      fun tag hmem htag => hread ⟨tag, hmem, htag⟩
    rw [ofJson?_eq_none hnone, ofJson?_eq_none (htags ▸ hnone)]

end

namespace Json
variable {form : Form}

/-- What is read of an object is read from the fields of its form alone. -/
theorem Form.Agree.alike {fields fields' : Fields} (h : form.Agree fields fields') :
    (Slot.object form).Alike (.obj fields) (.obj fields') := by
  cases form with
  | symbol => exact Symbol.ofJson?_eq_of_agree h
  | flag => exact Flag.ofJson?_eq_of_agree h
  | literal =>
    have hkind : fields.lookup "kind" = fields'.lookup "kind" := h.lookup_eq rfl
    have hsymbol : ∀ j j', (Slot.object .symbol).Alike j j' → ∀ place,
        Literal.Sixth.symbol.ofJson? place j = Literal.Sixth.symbol.ofJson? place j' :=
      fun j j' hj => hj
    exact Literal.ofJson?_eq_of_alike Literal.Sixth.symbol_lawful hsymbol hkind (h "value" _ rfl)
  | expr => exact Expr.ofJson?_eq_of_agree h
  | node => exact Node.ofJson?_eq_of_agree h

/-- A field is found wherever it stands, if it stands there only once. -/
theorem lookup_eq_of_perm {fields fields' : Fields} {name : String} (h : fields.Perm fields')
    (hd : fields.Pairwise fun x y => x.1 = name → x.1 ≠ y.1) :
    fields.lookup name = fields'.lookup name := by
  rw [List.lookup_eq_findSome?, List.lookup_eq_findSome?]
  refine findSome?_eq_of_perm h (hd.imp ?_)
  intro x y hxy
  by_cases hx : x.1 = name
  · have hy : name ≠ y.1 := hx ▸ hxy hx
    exact Or.inr (if_neg (by simp [hy]))
  · exact Or.inl (if_neg (by simp [Ne.symm hx]))

/-- Only the field whose value is replaced has another value, and that only if it stands nowhere
earlier. -/
theorem lookup_replace {r : Json → Json → Prop} (hr : ∀ k, r k k) {before after : Fields}
    {name other : String} {j j' : Json} (h : other = name → r j j') :
    Option.Rel r ((before ++ (name, j) :: after).lookup other)
      ((before ++ (name, j') :: after).lookup other) := by
  rw [List.lookup_append, List.lookup_append, List.lookup_cons, List.lookup_cons]
  cases before.lookup other with
  | some k => exact .some (hr k)
  | none =>
    by_cases hname : other = name
    · have hfound : (other == name) = true := beq_iff_eq.mpr hname
      rw [hfound]
      exact .some (h hname)
    · have hother : (other == name) = false := beq_false_of_ne hname
      rw [hother]
      cases after.lookup other with
      | none => exact .none
      | some k => exact .some (hr k)

theorem lookup_insert {before after : Fields} {name other : String} (h : other ≠ name) (j : Json) :
    (before ++ (name, j) :: after).lookup other = (before ++ after).lookup other := by
  have hother : (other == name) = false := beq_false_of_ne h
  rw [List.lookup_append, List.lookup_append, List.lookup_cons, hother]

/-- Of the value at one place, only what is read there plays a part. -/
theorem mapM_replace {α : Type} {read : Json → Option α} (before after : List Json) {j j' : Json}
    (h : read j = read j') :
    (before ++ j :: after).mapM read = (before ++ j' :: after).mapM read := by
  rw [List.mapM_append, List.mapM_append, List.mapM_cons, List.mapM_cons, h]

theorem option_rel_of_eq {r : Json → Json → Prop} (hr : ∀ k, r k k) {value value' : Option Json}
    (h : value = value') : Option.Rel r value value' := by
  subst h
  cases value with
  | none => exact .none
  | some k => exact .some (hr k)

/-- One edit changes nothing that is read. -/
theorem Edit.alike {slot : Slot} {j j' : Json} (h : Edit slot j j') : slot.Alike j j' := by
  -- By induction on where the edited object stands. In an object, all fields that it reads have to
  -- be alike; in an array, the one item.
  induction h with
  | reorder h hd =>
    refine Form.Agree.alike fun name slot hslot => ?_
    -- A field that is read stands there once, so it is found wherever it has gone.
    refine option_rel_of_eq slot.alike_refl (lookup_eq_of_perm h (hd.imp fun hxy hx => ?_))
    rcases hxy with hnone | hne
    · rw [hx, hslot] at hnone
      cases hnone
    · exact hne
  | @insert form before after name h j =>
    refine Form.Agree.alike fun other slot hslot => ?_
    have hother : other ≠ name := by
      rintro rfl
      rw [h] at hslot
      cases hslot
    exact option_rel_of_eq slot.alike_refl (lookup_insert hother j).symm
  | @unread form before after name j h j' =>
    refine Form.Agree.alike fun other slot hslot => lookup_replace slot.alike_refl ?_
    rintro rfl
    rw [h] at hslot
    cases hslot
  | @field form before after name j j' slot h _ ih =>
    refine Form.Agree.alike fun other slot' hslot => lookup_replace slot'.alike_refl ?_
    rintro rfl
    rw [h] at hslot
    cases hslot
    exact ih
  | arg before after _ ih =>
    intro place
    rw [Expr.argsOfJson?, Expr.argsOfJson?, Expr.ofJsons?_eq_mapM, Expr.ofJsons?_eq_mapM]
    exact mapM_replace before after (ih place)
  | operand before after _ ih =>
    intro place
    rw [Node.operandsOfJson?, Node.operandsOfJson?, Node.ofJsons?_eq_mapM, Node.ofJsons?_eq_mapM]
    exact mapM_replace before after (ih place)

theorem Edited.read_eq {α : Type} {read : Json → α}
    (hread : ∀ j j', (Slot.object form).Alike j j' → read j = read j') {j j' : Json}
    (h : Edited form j j') : read j' = read j := by
  induction h with
  | refl => rfl
  | tail _ hedit ih => exact (hread _ _ hedit.alike).symm.trans ih

/-- Edits of the objects of an expression, or of a row expression, leave it the same: in whatever
order and at whatever depth fields are moved and fields of other names are added. -/
theorem ofJson?_eq_of_edited (place : Place) :
    (∀ j j', Edited .expr j j' → Expr.ofJson? place j' = Expr.ofJson? place j) ∧
      ∀ j j', Edited .node j j' → Node.ofJson? place j' = Node.ofJson? place j := by
  have hexpr : ∀ j j', (Slot.object .expr).Alike j j' →
      Expr.ofJson? place j = Expr.ofJson? place j' := fun j j' hj => hj place
  have hnode : ∀ j j', (Slot.object .node).Alike j j' →
      Node.ofJson? place j = Node.ofJson? place j' := fun j j' hj => hj place
  exact ⟨fun j j' h => h.read_eq hexpr, fun j j' h => h.read_eq hnode⟩

/-- A symbol under a call gets a field besides its own, and all tags come last, that of its literal
behind a field which fields have. A constant gets a field which calls have. -/
theorem ofJson?_eq_of_edited_symbol_and_constant :
    Expr.ofJson? .outer (.obj [
        ("args", .arr [.obj [
          ("value", .obj [
            ("value", .obj [("note", .bool true), ("symbol", .str "JsonQueryWrapper"),
              ("value", .str "CONDITIONAL_ARRAY")]),
            ("kind", .str "symbol")]),
          ("name", .int 7), ("type", .str "literal")]]),
        ("function", .str "NOT"), ("type", .str "call")]) =
      some (.call .not [.literal (.symbol (.wrapper .conditionalArray))]) ∧
    Node.ofJson? .outer (.obj [("kind", .str "boolean"), ("operands", .null),
        ("value", .bool true), ("node", .str "literal")]) = some (.literal (.boolean true)) := by
  have hsymbol : Edit (.object .symbol)
      (.obj [("symbol", .str "JsonQueryWrapper"), ("value", .str "CONDITIONAL_ARRAY")])
      (.obj [("note", .bool true), ("symbol", .str "JsonQueryWrapper"),
        ("value", .str "CONDITIONAL_ARRAY")]) :=
    @Edit.insert .symbol [] _ "note" rfl (.bool true)
  have harg (l l' : Json) (h : Edit (.object .expr) l l') : Edit (.object .expr)
      (.obj [("type", .str "call"), ("function", .str "NOT"), ("args", .arr [l])])
      (.obj [("type", .str "call"), ("function", .str "NOT"), ("args", .arr [l'])]) :=
    @Edit.field .expr [("type", .str "call"), ("function", .str "NOT")] [] "args" _ _ .args rfl
      (.arg [] [] h)
  have hvalue (v v' : Json) (h : Edit (.object .literal) v v') : Edit (.object .expr)
      (.obj [("type", .str "literal"), ("value", v)])
      (.obj [("type", .str "literal"), ("value", v')]) :=
    @Edit.field .expr [("type", .str "literal")] [] "value" _ _ (.object .literal) rfl h
  -- From the inside out: the symbol gains a field, then the fields of each object change places.
  have hkind := (Relation.ReflTransGen.single (harg _ _ (hvalue _ _
    (@Edit.field .literal [("kind", .str "symbol")] [] "value" _ _ (.object .symbol) rfl
      hsymbol)))).tail (harg _ _ (hvalue _ _ (.reorder (.swap _ _ []) (by decide))))
  have htype := (hkind.tail (harg _ _ (.reorder (.swap _ _ []) (by decide)))).tail
    (harg _ _ (@Edit.insert .expr [_] [_] "name" rfl (.int 7)))
  have hcall := htype.tail (.reorder (List.reverse_perm _).symm (by decide))
  have hconstant := (Relation.ReflTransGen.single (@Edit.reorder .node
    [("node", .str "literal"), ("kind", .str "boolean"), ("value", .bool true)] _
    (@List.perm_append_comm _ [_] _) (by decide))).tail
      (@Edit.insert .node [_] [_, _] "operands" rfl .null)
  exact ⟨(ofJson?_eq_of_edited .outer).1 _ _ hcall,
    (ofJson?_eq_of_edited .outer).2 _ _ hconstant⟩

end Json

end RowPlan
