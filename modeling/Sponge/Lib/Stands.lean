import Mathlib.Data.List.Basic

variable {α : Type}

/-- The list `xs` stands in `tape` at position `q`. -/
def Stands (xs tape : List α) (q : Nat) : Prop :=
  ∀ t x, xs[t]? = some x → tape[q + t]? = some x

namespace Stands

variable {xs ys tape : List α} {q : Nat}

theorem nil (tape : List α) (q : Nat) : Stands [] tape q := by
  intro t x h
  simp at h

/-- What stands on the tape stays there when the tape grows. -/
theorem grow (h : Stands xs tape q) (ys : List α) : Stands xs (tape ++ ys) q := by
  intro t x hx
  have hget := h t x hx
  rw [List.getElem?_append_left (List.getElem?_eq_some_iff.mp hget).1, hget]

/-- What is added stands at the old end. -/
theorem last (tape xs : List α) : Stands xs (tape ++ xs) tape.length := by
  intro t x hx
  rw [List.getElem?_append_right (by omega), Nat.add_sub_cancel_left, hx]

theorem end_le (h : Stands xs tape q) (hne : xs ≠ []) : q + xs.length ≤ tape.length := by
  have hpos := List.length_pos_iff.mpr hne
  have hget := h (xs.length - 1) _ (List.getElem?_eq_getElem (by omega))
  have := (List.getElem?_eq_some_iff.mp hget).1
  omega

end Stands
