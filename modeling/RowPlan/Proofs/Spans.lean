/-! Texts made of characters of one class, in front of a text that starts with none of that class:
where the first part ends can be told from the whole. -/
namespace RowPlan

/-- The members of a given text can be checked one by one. Of the characters altogether there are
finitely many as well, but too many for that. -/
theorem forall_mem_of_all {p : Char → Prop} [DecidablePred p] {l : List Char}
    (h : l.all (fun c => decide (p c)) = true) : ∀ c ∈ l, p c :=
  fun c hc => of_decide_eq_true (List.all_eq_true.mp h c hc)

/-- A text that starts with no character of the class, possibly because it is empty. -/
def Stops (p : Char → Bool) (r : List Char) : Prop := ∀ c ∈ r.head?, p c = false

theorem stops_nil (p : Char → Bool) : Stops p [] := nofun

theorem stops_cons {p : Char → Bool} {c : Char} (h : p c = false) (r : List Char) :
    Stops p (c :: r) := by
  intro d hd
  obtain rfl := Option.some.inj hd
  exact h

theorem Stops.mono {p q : Char → Bool} (h : ∀ c, p c = false → q c = false) {r : List Char}
    (hr : Stops p r) : Stops q r :=
  fun c hc => h c (hr c hc)

theorem Stops.takeWhile_append {p : Char → Bool} {u r : List Char} (hu : ∀ c ∈ u, p c = true)
    (hr : Stops p r) : (u ++ r).takeWhile p = u := by
  rw [List.takeWhile_append_of_pos hu]
  cases r with
  | nil => exact List.append_nil u
  | cons c r =>
    have hc : ¬ p c = true := by simp [hr c rfl]
    rw [List.takeWhile_cons_of_neg hc, List.append_nil]

/-- The first parts of equal texts are equal, and so are the rests. -/
theorem Stops.append_inj {p : Char → Bool} {u v r s : List Char} (hu : ∀ c ∈ u, p c = true)
    (hv : ∀ c ∈ v, p c = true) (hr : Stops p r) (hs : Stops p s) (h : u ++ r = v ++ s) :
    u = v ∧ r = s := by
  have huv : u = v := by
    rw [← hr.takeWhile_append hu, h, hs.takeWhile_append hv]
  subst huv
  exact ⟨rfl, List.append_cancel_left h⟩

end RowPlan
