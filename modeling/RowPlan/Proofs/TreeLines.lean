import RowPlan.Proofs.Postorder
import RowPlan.Proofs.TreePrint

/-! The tree print, line by line. Unless a string holds a newline, the lines that the text is cut
into at its newlines are those of the row expressions inside, in preorder, and the print of a call
contains the prints of its operands, moved to the right. -/
namespace RowPlan

/-- A text of ended lines is cut into these lines, with nothing behind the last newline. -/
theorem splitOn_flatMap_lines {lines : List (List Char)} (h : ∀ line ∈ lines, '\n' ∉ line) :
    (lines.flatMap fun line => line ++ ['\n']).splitOn '\n' = lines ++ [[]] := by
  induction lines with
  | nil => rfl
  | cons line lines ih =>
    obtain ⟨hline, hlines⟩ := List.forall_mem_cons.mp h
    rw [List.flatMap_cons, List.append_assoc, List.singleton_append,
      List.splitOn_append_cons_self_of_not_mem hline, ih hlines, List.cons_append]

/-- Two spaces in front of each line of a text whose lines are all ended. -/
def moveRight (text : List Char) : List Char :=
  (text.splitOn '\n').dropLast.flatMap fun line => ' ' :: ' ' :: (line ++ ['\n'])

theorem Literal.mem_of_mem_escape {c : Char} (hc : c ≠ '\'') {s : List Char} (h : c ∈ escape s) :
    c ∈ s := by
  obtain ⟨d, hd, hcd⟩ := List.mem_flatMap.mp h
  by_cases hquote : d = '\''
  · rw [if_pos hquote] at hcd
    exact absurd (by simpa using hcd) hc
  · rw [if_neg hquote, List.mem_singleton] at hcd
    rw [hcd]
    exact hd

namespace Node

/-- What a line says of a row expression: the digest of a leaf; of a call its operator, and its type
if it has one. -/
def label : Node → List Char
  | call op _ none => op.name.toList
  | call op _ (some t) => op.name.toList ++ " : ".toList ++ t.name.toList
  | n => n.digest.toList

mutual

/-- The row expressions inside a row expression that stands at a depth, each with its own depth. It
comes first itself, and then come its operands from left to right. -/
def preorder (depth : ℕ) : Node → List (ℕ × Node)
  | inputRef index => [(depth, inputRef index)]
  | literal value => [(depth, literal value)]
  | call op operands type => (depth, call op operands type) :: preorderAll (depth + 1) operands

def preorderAll (depth : ℕ) : List Node → List (ℕ × Node)
  | [] => []
  | n :: ns => preorder depth n ++ preorderAll depth ns

end

/-- No string inside holds a newline. -/
def StringsOnOneLine (n : Node) : Prop :=
  ∀ s : String, literal (.string s) ∈ n.postorder → '\n' ∉ s.toList

theorem preorderAll_eq_flatMap (depth : ℕ) (ns : List Node) :
    preorderAll depth ns = ns.flatMap (preorder depth) := by
  induction ns with
  | nil => rfl
  | cons n ns ih => rw [preorderAll, ih, List.flatMap_cons]

theorem preorder_call (depth : ℕ) (op : Operator) (operands : List Node) (type : Option SqlType) :
    (call op operands type).preorder depth =
      (depth, call op operands type) :: operands.flatMap (preorder (depth + 1)) := by
  rw [preorder, preorderAll_eq_flatMap]

theorem label_call (op : Operator) (operands : List Node) (type : Option SqlType) :
    (call op operands type).label = header op type := by
  cases type <;> rfl

namespace IsLeaf
variable {n : Node} (h : n.IsLeaf)
include h

theorem label_eq : n.label = n.text := by
  cases n with
  | inputRef index => exact String.toList_ofList
  | literal value => exact String.toList_ofList
  | call op operands type => exact h.elim

theorem preorder_eq (depth : ℕ) : n.preorder depth = [(depth, n)] := by
  cases n with
  | inputRef index => rfl
  | literal value => rfl
  | call op operands type => exact h.elim

theorem postorder_eq : n.postorder = [n] := by
  cases n with
  | inputRef index => rfl
  | literal value => rfl
  | call op operands type => exact h.elim

theorem newline_not_mem_text (hn : n.StringsOnOneLine) : '\n' ∉ n.text := by
  rw [h.text_eq, List.mem_append]
  rintro (hword | htail)
  · exact absurd (isWordChar_of_mem_leafWord hword) (by decide)
  · -- Only a string or the name of a flag can stand behind the word.
    cases n with
    | inputRef index => exact absurd htail List.not_mem_nil
    | call op operands type => exact h.elim
    | literal value =>
      cases value with
      | string s =>
        have hs : '\n' ∈ Literal.escape s.toList := by
          simpa [leafTail, Literal.tail] using htail
        exact hn s List.mem_cons_self (Literal.mem_of_mem_escape (by decide) hs)
      | symbol f =>
        have hf : '\n' ∈ f.name.toList := by simpa [leafTail, Literal.tail] using htail
        exact absurd (f.isWordChar_of_mem_name '\n' hf) (by decide)
      | _ => exact absurd htail List.not_mem_nil

end IsLeaf

theorem newline_not_mem_header (op : Operator) (type : Option SqlType) : '\n' ∉ header op type :=
  fun h => absurd (isWordChar_of_mem_header op type '\n' h) (by decide)

theorem newline_not_mem_indented {line : List Char} (h : '\n' ∉ line) (indent : ℕ) :
    '\n' ∉ indented indent line := by
  rw [indented, List.mem_append]
  rintro (hspace | hline)
  · exact absurd (List.eq_of_mem_replicate hspace) (by decide)
  · exact h hline

theorem StringsOnOneLine.operand {op : Operator} {operands : List Node} {type : Option SqlType}
    (h : (call op operands type).StringsOnOneLine) {n : Node} (hn : n ∈ operands) :
    n.StringsOnOneLine := by
  intro s hs
  apply h s
  rw [postorder_call]
  exact List.mem_append_left _ (List.mem_flatMap.mpr ⟨n, hn, hs⟩)

/-- The only newlines are those at the ends of lines. -/
theorem newline_not_mem_lines {n : Node} (h : n.StringsOnOneLine) (indent : ℕ) :
    ∀ line ∈ n.lines indent, '\n' ∉ line := by
  induction n using tree_induction generalizing indent with
  | leaf n hn =>
    rw [hn.lines_eq, List.forall_mem_singleton]
    exact newline_not_mem_indented (hn.newline_not_mem_text h) indent
  | call op operands type ih =>
    rw [lines_call, List.forall_mem_cons, List.forall_mem_flatMap]
    refine ⟨newline_not_mem_indented (newline_not_mem_header op type) indent, ?_⟩
    intro n hn
    exact ih n hn (h.operand hn) (indent + 2)

/-- The lines are those of the row expressions inside, in preorder, each moved to the right by two
spaces for its depth. -/
theorem lines_eq_map_preorder (n : Node) (depth : ℕ) :
    n.lines (2 * depth) =
      (n.preorder depth).map fun x => List.replicate (2 * x.1) ' ' ++ x.2.label := by
  -- Operands stand one level further down, so this is proved for all depths at once.
  induction n using tree_induction generalizing depth with
  | leaf n hn => rw [hn.lines_eq, hn.preorder_eq, List.map_singleton, hn.label_eq, indented]
  | call op operands type ih =>
    have hoperands : operands.flatMap (lines (2 * depth + 2)) =
        operands.flatMap fun n => (n.preorder (depth + 1)).map fun x =>
          List.replicate (2 * x.1) ' ' ++ x.2.label := by
      apply List.flatMap_congr
      intro n hn
      exact ih n hn (depth + 1)
    rw [lines_call, hoperands, preorder_call, List.map_cons, List.map_flatMap, label_call, indented]

/-- Every row expression inside has its place in either order. -/
theorem perm_preorder (n : Node) (depth : ℕ) :
    ((n.preorder depth).map Prod.snd).Perm n.postorder := by
  induction n using tree_induction generalizing depth with
  | leaf n hn =>
    rw [hn.preorder_eq, hn.postorder_eq]
    exact List.Perm.refl [n]
  | call op operands type ih =>
    have hoperands : (operands.flatMap fun n => (n.preorder (depth + 1)).map Prod.snd).Perm
        (operands.flatMap postorder) := List.Perm.flatMap_left operands fun n hn => ih n hn _
    rw [preorder_call, List.map_cons, List.map_flatMap, postorder_call]
    exact (hoperands.cons _).trans (List.perm_append_singleton _ _).symm

/-- Further down the same lines stand further to the right. -/
theorem lines_add_two (n : Node) (indent : ℕ) :
    n.lines (indent + 2) = (n.lines indent).map fun line => ' ' :: ' ' :: line := by
  induction n using tree_induction generalizing indent with
  | leaf n hn =>
    rw [hn.lines_eq, hn.lines_eq]
    rfl
  | call op operands type ih =>
    rw [lines_call, lines_call, List.map_cons, List.map_flatMap]
    congr 1
    apply List.flatMap_congr
    intro n hn
    exact ih n hn (indent + 2)

theorem splitOn_treeText {n : Node} (h : n.StringsOnOneLine) :
    n.treeText.splitOn '\n' = n.lines 0 ++ [[]] :=
  splitOn_flatMap_lines (newline_not_mem_lines h 0)

/-- The lines of an operand are its own print, moved to the right. -/
theorem block_two {n : Node} (h : n.StringsOnOneLine) : n.block 2 = moveRight n.treeText := by
  rw [moveRight, splitOn_treeText h, List.dropLast_concat, block, lines_add_two n 0,
    List.flatMap_map]
  rfl

/-- Where no string holds a newline, the tree print has one line for every row expression inside, in
preorder, that tells its depth and its label. The print of a call is its line, with the prints of
its operands behind it, each line of them moved to the right by two spaces. -/
theorem tree_eq_preorder {n : Node} (h : n.StringsOnOneLine) :
    n.tree.toList.splitOn '\n' =
        ((n.preorder 0).map fun x => List.replicate (2 * x.1) ' ' ++ x.2.label) ++ [[]] ∧
      ((n.preorder 0).map Prod.snd).Perm n.postorder ∧
      ∀ op operands type, n = call op operands type →
        n.tree.toList =
          n.label ++ '\n' :: operands.flatMap fun m => moveRight m.tree.toList := by
  have htext (m : Node) : m.tree.toList = m.treeText := String.toList_ofList
  refine ⟨?_, n.perm_preorder 0, ?_⟩
  · rw [htext, splitOn_treeText h, ← lines_eq_map_preorder n 0]
  · rintro op operands type rfl
    have hoperands : blocks 2 operands = operands.flatMap fun m => moveRight m.tree.toList := by
      apply List.flatMap_congr
      intro m hm
      rw [htext, block_two (h.operand hm)]
    calc (call op operands type).tree.toList
        = (call op operands type).block 0 := htext _
      _ = header op type ++ '\n' :: blocks 2 operands := block_call 0 op operands type
      _ = (call op operands type).label ++ '\n' :: operands.flatMap fun m =>
            moveRight m.tree.toList := by rw [hoperands, label_call]

/-- A doubled quote does not count, and neither does the depth of the operands behind. -/
theorem tree_eq_preorder_typed_call :
    let upper : Node := .call .upper [.literal (.string "it's")] none
    let empty : Node := .literal (.symbol (.clause .empty))
    let n : Node := .call .jsonValue [upper, empty] (some .bigInt)
    n.StringsOnOneLine ∧
      n.tree.toList.splitOn '\n' = ["JSON_VALUE : BIGINT".toList, "  UPPER".toList,
        "    'it''s'".toList, "  FLAG(EMPTY)".toList, []] ∧
      ((n.preorder 0).map Prod.snd).Perm n.postorder ∧
      n.tree.toList = "JSON_VALUE : BIGINT".toList ++
        '\n' :: [upper, empty].flatMap fun m => moveRight m.tree.toList := by
  intro upper empty n
  have h : n.StringsOnOneLine := by
    intro s hs
    have hs : s = "it's" := by simpa [n, upper, empty, postorder, postorderAll] using hs
    rw [hs]
    decide
  obtain ⟨hlines, hperm, hcall⟩ := tree_eq_preorder h
  exact ⟨h, hlines.trans rfl, hperm, hcall _ _ _ rfl⟩

end Node

end RowPlan
