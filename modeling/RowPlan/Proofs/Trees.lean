import RowPlan.Expr
import RowPlan.Node

/-! Induction over expressions and row expressions, where a call may use the claim for every one of
its arguments or operands, and the height of a row expression. -/
namespace RowPlan

@[elab_as_elim]
theorem Expr.tree_induction {motive : Expr → Prop}
    (field : ∀ name index, motive (.field name index))
    (literal : ∀ value, motive (.literal value))
    (type : ∀ t, motive (.type t))
    (call : ∀ function args, (∀ e ∈ args, motive e) → motive (.call function args))
    (e : Expr) : motive e := by
  -- The recursor proves two claims at once; of an argument list, that all of its members have it.
  refine @Expr.rec motive (fun es => ∀ e ∈ es, motive e) field literal type call ?_ ?_ e
  · intro e he
    exact absurd he List.not_mem_nil
  · intro e es he hes d hd
    rcases List.mem_cons.mp hd with rfl | hd
    · exact he
    · exact hes d hd

namespace Node

/-- The row expressions that are no calls. -/
def IsLeaf : Node → Prop
  | call _ _ _ => False
  | _ => True

@[elab_as_elim]
theorem tree_induction {motive : Node → Prop}
    (leaf : ∀ n : Node, n.IsLeaf → motive n)
    (call : ∀ op operands type, (∀ n ∈ operands, motive n) → motive (.call op operands type))
    (n : Node) : motive n := by
  refine @Node.rec motive (fun ns => ∀ n ∈ ns, motive n) (fun index => leaf _ trivial)
    (fun value => leaf _ trivial) call ?_ ?_ n
  · intro n hn
    exact absurd hn List.not_mem_nil
  · intro n ns hn hns m hm
    rcases List.mem_cons.mp hm with rfl | hm
    · exact hn
    · exact hns m hm

mutual

/-- A leaf has height 0, a call one more than its highest operand. -/
def height : Node → Nat
  | inputRef _ => 0
  | literal _ => 0
  | call _ operands _ => maxHeight operands + 1

def maxHeight : List Node → Nat
  | [] => 0
  | n :: ns => max (height n) (maxHeight ns)

end

theorem maxHeight_le_iff (ns : List Node) (h : Nat) :
    maxHeight ns ≤ h ↔ ∀ n ∈ ns, n.height ≤ h := by
  induction ns with
  | nil => simp [maxHeight]
  | cons n ns ih =>
    rw [maxHeight, Nat.max_le, ih, List.forall_mem_cons]

theorem height_of_isFlag {n : Node} (h : n.isFlag = true) : n.height = 0 := by
  cases n with
  | inputRef index => rfl
  | literal value => rfl
  | call op operands type => exact absurd h Bool.false_ne_true

theorem add_height_call_le_iff (depth limit : Nat) (op : Operator) (operands : List Node)
    (type : Option SqlType) :
    depth + (call op operands type).height ≤ limit ↔
      depth + 1 ≤ limit ∧ ∀ n ∈ operands, depth + 1 + n.height ≤ limit := by
  have hmax : depth + (call op operands type).height ≤ limit ↔
      depth + 1 ≤ limit ∧ maxHeight operands ≤ limit - (depth + 1) := by
    rw [height]
    omega
  rw [hmax, maxHeight_le_iff]
  apply and_congr_right
  intro hd
  apply forall₂_congr
  intro n hn
  omega

end Node

end RowPlan
