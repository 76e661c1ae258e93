import RowPlan.Proofs.DoubleText
import RowPlan.Proofs.Trees

/-! What the texts of a row expression can tell about it. Flags of different enumerations share
names and all NaNs have one text, so its outline has names in the place of the flags and one NaN in
the place of all. The digest does not tell the types of calls either. -/
namespace RowPlan

/-- A row expression with flags given by their names. -/
inductive Outline where
  | column (index : UInt64)
  | constant (value : Literal String)
  | call (op : Operator) (operands : List Outline) (type : Option SqlType)

/-- A constant with its flag, if it is one, given by name, and one NaN in the place of all. -/
def Literal.plain : Literal Flag → Literal String
  | null => null
  | boolean b => boolean b
  | integer n => integer n
  | double d => double d.unifyNaN
  | string s => string s
  | symbol f => symbol f.name

namespace Node

mutual

def outline : Node → Outline
  | inputRef index => .column index
  | literal value => .constant value.plain
  | call op operands type => .call op (outlines operands) type

def outlines : List Node → List Outline
  | [] => []
  | n :: ns => outline n :: outlines ns

end

mutual

/-- The row expression without the types of its calls. -/
def untyped : Node → Node
  | inputRef index => inputRef index
  | literal value => literal value
  | call op operands _ => call op (untypedAll operands) none

def untypedAll : List Node → List Node
  | [] => []
  | n :: ns => untyped n :: untypedAll ns

end

theorem outlines_eq_map (ns : List Node) : outlines ns = ns.map outline := by
  induction ns with
  | nil => rfl
  | cons n ns ih => rw [outlines, ih, List.map_cons]

theorem untypedAll_eq_map (ns : List Node) : untypedAll ns = ns.map untyped := by
  induction ns with
  | nil => rfl
  | cons n ns ih => rw [untypedAll, ih, List.map_cons]

theorem outline_call (op : Operator) (operands : List Node) (type : Option SqlType) :
    (call op operands type).outline = .call op (operands.map outline) type := by
  rw [outline, outlines_eq_map]

theorem outline_untyped_call (op : Operator) (operands : List Node) (type : Option SqlType) :
    (call op operands type).untyped.outline =
      .call op (operands.map (fun n => n.untyped.outline)) none := by
  rw [untyped, outline_call, untypedAll_eq_map, List.map_map]
  rfl

theorem IsLeaf.untyped {n : Node} (h : n.IsLeaf) : n.untyped = n := by
  cases n with
  | inputRef index => rfl
  | literal value => rfl
  | call op operands type => exact h.elim

theorem isLeaf_or_eq_call (n : Node) :
    n.IsLeaf ∨ ∃ op operands type, n = call op operands type := by
  cases n with
  | inputRef index => exact Or.inl trivial
  | literal value => exact Or.inl trivial
  | call op operands type => exact Or.inr ⟨op, operands, type, rfl⟩

theorem IsLeaf.outline_ne_call {n : Node} (h : n.IsLeaf) (op : Operator) (operands : List Outline)
    (type : Option SqlType) : n.outline ≠ .call op operands type := by
  cases n with
  | inputRef index => exact nofun
  | literal value => exact nofun
  | call op operands type => exact h.elim

end Node

/-- Where lists agree under one function, they agree under any that it determines on their members. -/
theorem map_eq_map_of_map_eq {ι α β : Type} {f : ι → α} {g : ι → β} {xs ys : List ι}
    (h : ∀ x ∈ xs, ∀ y ∈ ys, f x = f y → g x = g y) (hmap : xs.map f = ys.map f) :
    xs.map g = ys.map g := by
  induction xs generalizing ys with
  | nil =>
    cases ys with
    | nil => rfl
    | cons y ys => cases hmap
  | cons x xs ih =>
    cases ys with
    | nil => cases hmap
    | cons y ys =>
      obtain ⟨hhead, htail⟩ := List.cons.inj hmap
      have hxy := h x List.mem_cons_self y List.mem_cons_self hhead
      have hrest := ih (fun a ha b hb =>
        h a (List.mem_cons_of_mem _ ha) b (List.mem_cons_of_mem _ hb)) htail
      rw [List.map_cons, List.map_cons, hxy, hrest]

theorem Literal.digest_eq_of_plain_eq {v w : Literal Flag} (h : v.plain = w.plain) :
    v.digest = w.digest := by
  cases v <;> cases w <;> simp only [plain, reduceCtorEq] at h
  case null.null => rfl
  case boolean.boolean => rw [Literal.boolean.inj h]
  case integer.integer => rw [Literal.integer.inj h]
  case double.double => exact Double.text_eq_text_iff.mpr (Literal.double.inj h)
  case string.string => rw [Literal.string.inj h]
  case symbol.symbol => simp only [digest, Literal.symbol.inj h]

theorem Node.IsLeaf.text_eq_of_outline_eq {n m : Node} (hn : n.IsLeaf) (hm : m.IsLeaf)
    (h : n.outline = m.outline) : n.text = m.text := by
  cases n with
  | inputRef index =>
    cases m with
    | inputRef index' => rw [Outline.column.inj h]
    | literal value' => cases h
    | call op operands type => exact hm.elim
  | literal value =>
    cases m with
    | inputRef index' => cases h
    | literal value' =>
      rw [text, text]
      exact Literal.digest_eq_of_plain_eq (Outline.constant.inj h)
    | call op operands type => exact hm.elim
  | call op operands type => exact hn.elim

end RowPlan
