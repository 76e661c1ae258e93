import RowPlan.Proofs.Leaves

/-! The tree print of a row expression tells its outline. A string can hold newlines and spaces that
look like lines of the print, but the text of a leaf shows where it ends; from there on the spaces
tell how far the operands of a call go. -/
namespace RowPlan.Node

/-- The lines of a node with their ends. -/
def block (indent : ℕ) (n : Node) : List Char := (n.lines indent).flatMap fun line => line ++ ['\n']

/-- The lines of the operands of a call, one operand after the other. -/
def blocks (indent : ℕ) (ns : List Node) : List Char := ns.flatMap (block indent)

theorem linesOfAll_eq_flatMap (indent : ℕ) (ns : List Node) :
    linesOfAll indent ns = ns.flatMap (lines indent) := by
  induction ns with
  | nil => rfl
  | cons n ns ih => rw [linesOfAll, ih, List.flatMap_cons]

theorem IsLeaf.lines_eq {n : Node} (h : n.IsLeaf) (indent : ℕ) :
    n.lines indent = [indented indent n.text] := by
  cases n with
  | inputRef index => rfl
  | literal value => rfl
  | call op operands type => exact h.elim

theorem lines_call (indent : ℕ) (op : Operator) (operands : List Node) (type : Option SqlType) :
    (call op operands type).lines indent =
      indented indent (header op type) :: operands.flatMap (lines (indent + 2)) := by
  rw [lines, linesOfAll_eq_flatMap]

theorem IsLeaf.block_eq {n : Node} (h : n.IsLeaf) (indent : ℕ) :
    n.block indent = List.replicate indent ' ' ++ (n.text ++ ['\n']) := by
  rw [block, h.lines_eq, List.flatMap_singleton, indented, List.append_assoc]

theorem block_call (indent : ℕ) (op : Operator) (operands : List Node) (type : Option SqlType) :
    (call op operands type).block indent =
      List.replicate indent ' ' ++ (header op type ++ '\n' :: blocks (indent + 2) operands) := by
  rw [block, lines_call, List.flatMap_cons, List.flatMap_assoc, indented, List.append_assoc,
    List.append_assoc]
  rfl

theorem IsLeaf.block_append {n : Node} (h : n.IsLeaf) (indent : ℕ) (r : List Char) :
    n.block indent ++ r = List.replicate indent ' ' ++ (n.text ++ '\n' :: r) := by
  simp only [h.block_eq, List.append_assoc, List.singleton_append]

theorem block_call_append (indent : ℕ) (op : Operator) (operands : List Node)
    (type : Option SqlType) (r : List Char) :
    (call op operands type).block indent ++ r = List.replicate indent ' ' ++
      (header op type ++ '\n' :: (blocks (indent + 2) operands ++ r)) := by
  simp only [block_call, List.append_assoc, List.cons_append]

/-- A block starts with its indentation and no further space. -/
theorem exists_block_eq (indent : ℕ) (n : Node) :
    ∃ c r, n.block indent = List.replicate indent ' ' ++ c :: r ∧ c ≠ ' ' := by
  have hline : ∃ c r, n.block indent = List.replicate indent ' ' ++ c :: r ∧ c ∉ [' ', ')'] := by
    rcases n.isLeaf_or_eq_call with hn | ⟨op, operands, type, rfl⟩
    · obtain ⟨c, r, hcons, hc⟩ := hn.exists_text_eq_cons
      exact ⟨c, r ++ ['\n'], by rw [hn.block_eq, hcons, List.cons_append], hc⟩
    · obtain ⟨c, r, hcons, hc⟩ := exists_header_eq_cons op type
      exact ⟨c, r ++ '\n' :: blocks (indent + 2) operands,
        by rw [block_call, hcons, List.cons_append], hc⟩
  obtain ⟨c, r, hblock, hc⟩ := hline
  exact ⟨c, r, hblock, List.ne_of_not_mem_cons hc⟩

/-- The text starts with fewer spaces, so no block of that indentation does. -/
def LessIndented (indent : ℕ) (r : List Char) : Prop :=
  ¬ List.replicate indent ' ' <+: r

theorem lessIndented_nil (indent : ℕ) : LessIndented (indent + 1) [] := by
  intro h
  exact absurd (List.prefix_nil.mp h) (by simp)

theorem LessIndented.mono {k l : ℕ} (hkl : k ≤ l) {r : List Char} (h : LessIndented k r) :
    LessIndented l r := by
  intro hl
  have hkl' : List.replicate k ' ' <+: List.replicate l ' ' := by
    rw [← Nat.add_sub_of_le hkl, List.replicate_add]
    exact List.prefix_append _ _
  exact h (hkl'.trans hl)

theorem lessIndented_block_append (indent : ℕ) (n : Node) (r : List Char) :
    LessIndented (indent + 2) (n.block indent ++ r) := by
  obtain ⟨c, t, hblock, hc⟩ := n.exists_block_eq indent
  rw [LessIndented, hblock, List.append_assoc, List.replicate_add, List.prefix_append_right_inj]
  intro h
  exact hc (List.cons_prefix_cons.mp h).1.symm

theorem LessIndented.ne_block_append {indent : ℕ} {r : List Char} (h : LessIndented indent r)
    (n : Node) (s : List Char) : r ≠ n.block indent ++ s := by
  obtain ⟨c, t, hblock, -⟩ := n.exists_block_eq indent
  rintro rfl
  rw [hblock, List.append_assoc] at h
  exact h (List.prefix_append _ _)

/-- Another block that starts like this one is that of the same row expression, as far as texts
tell. -/
def BlockReadable (n : Node) : Prop :=
  ∀ (m : Node) (indent : ℕ) (r s : List Char), LessIndented (indent + 2) r →
    LessIndented (indent + 2) s → n.block indent ++ r = m.block indent ++ s →
      n.outline = m.outline ∧ r = s

theorem blocks_append_inj {ns ms : List Node} {indent : ℕ} {r s : List Char}
    (hns : ∀ n ∈ ns, n.BlockReadable) (hr : LessIndented indent r) (hs : LessIndented indent s)
    (h : blocks indent ns ++ r = blocks indent ms ++ s) :
    ns.map outline = ms.map outline ∧ r = s := by
  -- After an operand come the lines of the next one, indented as far, or what follows the call.
  have hmore : ∀ (ns : List Node) (r : List Char), LessIndented indent r →
      LessIndented (indent + 2) (blocks indent ns ++ r) := by
    intro ns r hr
    cases ns with
    | nil => exact hr.mono (by omega)
    | cons n ns =>
      rw [blocks, List.flatMap_cons, List.append_assoc]
      exact lessIndented_block_append indent n _
  induction ns generalizing ms with
  | nil =>
    cases ms with
    | nil => exact ⟨rfl, h⟩
    | cons m ms =>
      rw [blocks, blocks, List.flatMap_cons, List.append_assoc] at h
      exact absurd h (hr.ne_block_append m _)
  | cons n ns ih =>
    cases ms with
    | nil =>
      rw [blocks, blocks, List.flatMap_cons, List.append_assoc] at h
      exact absurd h.symm (hs.ne_block_append n _)
    | cons m ms =>
      rw [blocks, blocks, List.flatMap_cons, List.flatMap_cons, List.append_assoc,
        List.append_assoc] at h
      have htail : ∀ k ∈ ns, k.BlockReadable := fun k hk => hns k (List.mem_cons_of_mem _ hk)
      obtain ⟨hnm, hrest⟩ :=
        hns n List.mem_cons_self m indent _ _ (hmore ns r hr) (hmore ms s hs) h
      obtain ⟨hnsms, hrs⟩ := ih htail hrest
      rw [List.map_cons, List.map_cons, hnm, hnsms]
      exact ⟨rfl, hrs⟩

theorem block_ne_of_isLeaf {n : Node} {indent : ℕ} {r s : List Char} (hn : n.IsLeaf)
    (op : Operator) (operands : List Node) (type : Option SqlType) :
    n.block indent ++ r ≠ (call op operands type).block indent ++ s := by
  rw [hn.block_append, block_call_append]
  intro h
  exact hn.text_append_ne_header (ended_cons (by decide) _) (stops_cons rfl _) op type
    (List.append_cancel_left h)

theorem blockReadable (n : Node) : n.BlockReadable := by
  induction n using tree_induction with
  | leaf n hn =>
    intro m indent r s _ _ h
    rcases m.isLeaf_or_eq_call with hm | ⟨op, operands, type, rfl⟩
    · rw [hn.block_append, hm.block_append] at h
      obtain ⟨houtline, hrest⟩ := hn.text_append_inj hm (ended_cons (by decide) r)
        (ended_cons (by decide) s) (List.append_cancel_left h)
      exact ⟨houtline, (List.cons.inj hrest).2⟩
    · exact absurd h (block_ne_of_isLeaf hn op operands type)
  | call op operands type ih =>
    intro m indent r s hr hs h
    rcases m.isLeaf_or_eq_call with hm | ⟨op', operands', type', rfl⟩
    · exact absurd h.symm (block_ne_of_isLeaf hm op operands type)
    · rw [block_call_append, block_call_append] at h
      obtain ⟨hheader, hrest⟩ := Stops.append_inj (isWordChar_of_mem_header op type)
        (isWordChar_of_mem_header op' type') (stops_cons rfl _) (stops_cons rfl _)
        (List.append_cancel_left h)
      obtain ⟨hop, htype⟩ := header_inj hheader
      -- What follows the call is indented by less than its operands.
      have hafter : blocks (indent + 2) operands ++ r = blocks (indent + 2) operands' ++ s :=
        (List.cons.inj hrest).2
      obtain ⟨hoperands, hrs⟩ := blocks_append_inj ih hr hs hafter
      rw [outline_call, outline_call, hop, htype, hoperands]
      exact ⟨rfl, hrs⟩

theorem blocks_eq_flatten (indent : ℕ) (ns : List Node) :
    blocks indent ns = (ns.map (block indent)).flatten :=
  List.flatMap_def

theorem block_eq_of_outline_eq (n : Node) :
    ∀ (m : Node), n.outline = m.outline → ∀ indent, n.block indent = m.block indent := by
  induction n using tree_induction with
  | leaf n hn =>
    intro m h indent
    rcases m.isLeaf_or_eq_call with hm | ⟨op, operands, type, rfl⟩
    · rw [hn.block_eq, hm.block_eq, hn.text_eq_of_outline_eq hm h]
    · rw [outline_call] at h
      exact absurd h (hn.outline_ne_call _ _ _)
  | call op operands type ih =>
    intro m h indent
    rw [outline_call] at h
    rcases m.isLeaf_or_eq_call with hm | ⟨op', operands', type', rfl⟩
    · exact absurd h.symm (hm.outline_ne_call _ _ _)
    · rw [outline_call] at h
      obtain ⟨hop, hoperands, htype⟩ := Outline.call.inj h
      have hblocks : operands.map (block (indent + 2)) = operands'.map (block (indent + 2)) :=
        map_eq_map_of_map_eq (fun n hn m _ hnm => ih n hn m hnm (indent + 2)) hoperands
      rw [block_call, block_call, hop, htype, blocks_eq_flatten, blocks_eq_flatten, hblocks]

/-- Row expressions have one tree print exactly if they agree up to flags of one name and up to
NaNs. -/
theorem tree_eq_tree_iff {n m : Node} : n.tree = m.tree ↔ n.outline = m.outline := by
  rw [tree, tree, String.ofList_inj]
  constructor
  · intro h
    have happend : n.block 0 ++ [] = m.block 0 ++ [] := by
      rw [List.append_nil, List.append_nil]
      exact h
    exact (n.blockReadable m 0 [] [] (lessIndented_nil 1) (lessIndented_nil 1) happend).1
  · intro h
    exact n.block_eq_of_outline_eq m h 0

/-- A line inside a string may look like that of another operand. -/
example :
    (call .upper [literal (.string "a\n  $0")] none).tree = "UPPER\n  'a\n  $0'\n" ∧
      (call .upper [literal (.string "a"), inputRef 0] none).tree = "UPPER\n  'a'\n  $0\n" := by
  decide

end RowPlan.Node
