import Mathlib.Data.List.Basic

/-! Facts about lists that serve several parts of the theory: elements at a place of a list, and
searches whose answer does not depend on the order. -/
namespace RowPlan
variable {α β : Type}

/-- An element of two lists joined is in one of them. -/
theorem append_eq_append_cons {xs ys before after : List α} {x : α}
    (h : xs ++ ys = before ++ x :: after) :
    (∃ rest, xs = before ++ x :: rest) ∨
      ∃ rest, before = xs ++ rest ∧ ys = rest ++ x :: after := by
  rcases List.append_eq_append_iff.mp h with ⟨rest, hbefore, hys⟩ | ⟨rest, hxs, hx⟩
  · exact Or.inr ⟨rest, hbefore, hys⟩
  · cases rest with
    | nil => exact Or.inr ⟨[], by rw [hxs, List.append_nil, List.append_nil], hx.symm⟩
    | cons y rest =>
      obtain ⟨rfl, -⟩ := List.cons.inj hx
      exact Or.inl ⟨rest, hxs⟩

/-- An element stands at some position of a list, between what is in front of that and what is
behind. -/
theorem exists_position {before after xs : List α} {x : α} (h : before ++ x :: after = xs) :
    ∃ i, xs[i]? = some x ∧ xs.take i = before ∧ xs.drop (i + 1) = after := by
  subst h
  refine ⟨before.length, ?_, List.take_left, ?_⟩
  · rw [List.getElem?_append_right (Nat.le_refl _), Nat.sub_self]
    rfl
  · rw [List.drop_append, List.drop_eq_nil_of_le (Nat.le_succ _), Nat.add_sub_cancel_left]
    rfl

/-- At most one member is claimed, so the order of the members plays no part. -/
theorem findSome?_eq_of_perm {g : α → Option β} {xs ys : List α} (h : xs.Perm ys)
    (hd : xs.Pairwise fun a b => g a = none ∨ g b = none) : xs.findSome? g = ys.findSome? g := by
  induction h with
  | nil => rfl
  | cons x h ih =>
    rw [List.findSome?_cons, List.findSome?_cons, ih (List.pairwise_cons.mp hd).2]
  | swap x y xs =>
    have hxy : g y = none ∨ g x = none := (List.pairwise_cons.mp hd).1 x List.mem_cons_self
    simp only [List.findSome?_cons]
    rcases hxy with hnone | hnone
    · rw [hnone]
    · rw [hnone]
  | trans h h' ih ih' => exact (ih hd).trans (ih' ((h.pairwise_iff Or.symm).mp hd))

end RowPlan
