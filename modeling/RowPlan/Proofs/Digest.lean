import RowPlan.Proofs.Leaves

/-! The digest of a row expression tells its outline, but for the types of calls: what stands after
the text of an operand shows where that text ends. -/
namespace RowPlan.Node

/-- The operands in a digest, with the parenthesis that closes them. -/
def operandsText (ns : List Node) : List Char := [',', ' '].intercalate (texts ns) ++ [')']

/-- What follows the first operand, given the others. -/
def moreText : List Node → List Char
  | [] => [')']
  | n :: ns => ',' :: ' ' :: operandsText (n :: ns)

theorem text_call (op : Operator) (operands : List Node) (type : Option SqlType) :
    (call op operands type).text = header op none ++ '(' :: operandsText operands := by
  rw [text, operandsText, List.append_assoc]
  rfl

theorem operandsText_cons (n : Node) (ns : List Node) :
    operandsText (n :: ns) = n.text ++ moreText ns := by
  cases ns with
  | nil =>
    rw [operandsText, texts, texts, List.intercalate_singleton]
    rfl
  | cons m ms =>
    rw [moreText, operandsText, operandsText, texts, texts, List.intercalate_cons_cons,
      List.append_assoc, List.append_assoc]
    rfl

theorem ended_moreText_append (ns : List Node) (r : List Char) : Ended (moreText ns ++ r) := by
  cases ns with
  | nil => exact ended_cons (by decide) _
  | cons n ns => exact ended_cons (by decide) _

theorem exists_text_eq_cons (n : Node) : ∃ c r, n.text = c :: r ∧ c ∉ [' ', ')'] := by
  rcases n.isLeaf_or_eq_call with hn | ⟨op, operands, type, rfl⟩
  · exact hn.exists_text_eq_cons
  · obtain ⟨c, r, hcons, hc⟩ := exists_header_eq_cons op none
    exact ⟨c, r ++ '(' :: operandsText operands, by rw [text_call, hcons]; rfl, hc⟩

/-- A text that starts like this one is that of the same row expression, as far as texts tell. -/
def Readable (n : Node) : Prop :=
  ∀ (m : Node) (r s : List Char), Ended r → Ended s → n.text ++ r = m.text ++ s →
    n.untyped.outline = m.untyped.outline ∧ r = s

/-- A call without operands is closed where another one has its first. -/
theorem operandsText_nil_append_ne (n : Node) (ns : List Node) (r s : List Char) :
    operandsText [] ++ r ≠ operandsText (n :: ns) ++ s := by
  obtain ⟨c, t, hcons, hc⟩ := n.exists_text_eq_cons
  rw [operandsText_cons, hcons]
  intro h
  have hclose : ')' = c := (List.cons.inj h).1
  rw [← hclose] at hc
  exact hc (by decide)

theorem operandsText_append_inj {ns ms : List Node} {r s : List Char} (hns : ∀ n ∈ ns, n.Readable)
    (h : operandsText ns ++ r = operandsText ms ++ s) :
    ns.map (fun n => n.untyped.outline) = ms.map (fun n => n.untyped.outline) ∧ r = s := by
  induction ns generalizing ms with
  | nil =>
    cases ms with
    | nil => exact ⟨rfl, (List.cons.inj h).2⟩
    | cons m ms => exact absurd h (operandsText_nil_append_ne m ms r s)
  | cons n ns ih =>
    cases ms with
    | nil => exact absurd h.symm (operandsText_nil_append_ne n ns s r)
    | cons m ms =>
      rw [operandsText_cons, operandsText_cons, List.append_assoc, List.append_assoc] at h
      obtain ⟨hnm, hmore⟩ := hns n List.mem_cons_self m _ _ (ended_moreText_append ns r)
        (ended_moreText_append ms s) h
      have htail : ∀ k ∈ ns, k.Readable := fun k hk => hns k (List.mem_cons_of_mem _ hk)
      -- The next character, a comma or the parenthesis, tells whether there are more operands.
      have hrest : ns.map (fun n => n.untyped.outline) = ms.map (fun n => n.untyped.outline) ∧
          r = s := by
        cases ns with
        | nil =>
          cases ms with
          | nil => exact ⟨rfl, (List.cons.inj hmore).2⟩
          | cons m' ms => exact absurd (List.cons.inj hmore).1 (by decide)
        | cons n' ns =>
          cases ms with
          | nil => exact absurd (List.cons.inj hmore).1 (by decide)
          | cons m' ms =>
            have hspace := (List.cons.inj hmore).2
            exact ih htail (List.cons.inj hspace).2
      rw [List.map_cons, List.map_cons, hnm, hrest.1]
      exact ⟨rfl, hrest.2⟩

theorem text_ne_of_isLeaf {n : Node} {r s : List Char} (hn : n.IsLeaf) (hr : Ended r)
    (op : Operator) (operands : List Node) (type : Option SqlType) :
    n.text ++ r ≠ (call op operands type).text ++ s := by
  rw [text_call, List.append_assoc]
  exact hn.text_append_ne_header hr (stops_cons rfl _) op none

theorem readable (n : Node) : n.Readable := by
  -- By induction on the one tree, for every other one and whatever stands behind the two texts.
  induction n using tree_induction with
  | leaf n hn =>
    intro m r s hr hs h
    rcases m.isLeaf_or_eq_call with hm | ⟨op, operands, type, rfl⟩
    · rw [hn.untyped, hm.untyped]
      exact hn.text_append_inj hm hr hs h
    · exact absurd h (text_ne_of_isLeaf hn hr op operands type)
  | call op operands type ih =>
    intro m r s hr hs h
    rcases m.isLeaf_or_eq_call with hm | ⟨op', operands', type', rfl⟩
    · exact absurd h.symm (text_ne_of_isLeaf hm hs op operands type)
    · rw [text_call, text_call, List.append_assoc, List.append_assoc] at h
      obtain ⟨hheader, hrest⟩ := Stops.append_inj (isWordChar_of_mem_header op none)
        (isWordChar_of_mem_header op' none) (stops_cons rfl _) (stops_cons rfl _) h
      have hafter : operandsText operands ++ r = operandsText operands' ++ s :=
        (List.cons.inj hrest).2
      obtain ⟨hoperands, hrs⟩ := operandsText_append_inj ih hafter
      rw [outline_untyped_call, outline_untyped_call, (header_inj hheader).1, hoperands]
      exact ⟨rfl, hrs⟩

theorem texts_eq_map (ns : List Node) : texts ns = ns.map text := by
  induction ns with
  | nil => rfl
  | cons n ns ih => rw [texts, ih, List.map_cons]

theorem text_eq_of_outline_eq (n : Node) :
    ∀ m : Node, n.untyped.outline = m.untyped.outline → n.text = m.text := by
  induction n using tree_induction with
  | leaf n hn =>
    intro m h
    rcases m.isLeaf_or_eq_call with hm | ⟨op, operands, type, rfl⟩
    · rw [hn.untyped, hm.untyped] at h
      exact hn.text_eq_of_outline_eq hm h
    · rw [hn.untyped, outline_untyped_call] at h
      exact absurd h (hn.outline_ne_call _ _ _)
  | call op operands type ih =>
    intro m h
    rw [outline_untyped_call] at h
    rcases m.isLeaf_or_eq_call with hm | ⟨op', operands', type', rfl⟩
    · rw [hm.untyped] at h
      exact absurd h.symm (hm.outline_ne_call _ _ _)
    · rw [outline_untyped_call] at h
      obtain ⟨hop, hoperands, -⟩ := Outline.call.inj h
      rw [text_call, text_call, operandsText, operandsText, texts_eq_map, texts_eq_map, hop,
        map_eq_map_of_map_eq (fun n hn m _ hnm => ih n hn m hnm) hoperands]

/-- Row expressions have one digest exactly if they agree up to the types of calls, up to flags of
one name and up to NaNs. -/
theorem digest_eq_digest_iff {n m : Node} :
    n.digest = m.digest ↔ n.untyped.outline = m.untyped.outline := by
  rw [digest, digest, String.ofList_inj]
  constructor
  · intro h
    have happend : n.text ++ [] = m.text ++ [] := by rw [h]
    exact (n.readable m [] [] ended_nil ended_nil happend).1
  · exact n.text_eq_of_outline_eq m

/-- The quotes keep what is inside a string from passing for the end of an operand. -/
example :
    (call .concat [literal (.string "a', 'b")] none).digest = "||('a'', ''b')" ∧
      (call .concat [literal (.string "a"), literal (.string "b")] none).digest =
        "||('a', 'b')" := by
  decide

end RowPlan.Node
