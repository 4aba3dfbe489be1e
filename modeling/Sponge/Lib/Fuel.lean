import Mathlib.Logic.Basic

/-- What comes of a computation that is given fuel: it returns, it throws, or, without a
result, the fuel is used up. -/
abbrev Fuelled (ε α : Type) := ExceptT ε Option α

namespace Fuelled

variable {ε α β : Type}

def outOfFuel : Fuelled ε α := ExceptT.mk none

/-- With enough fuel the computation returns, and more does not change what it returns. -/
def Ends (f : Nat → Fuelled ε α) (a : α) : Prop := ∃ bound, ∀ fuel, bound ≤ fuel → f fuel = pure a

theorem ends_pure (a : α) : Ends (fun _ => (pure a : Fuelled ε α)) a := ⟨0, fun _ _ => rfl⟩

/-- The rule for one turn of a loop, or one level of a recursion. -/
theorem Ends.turn {f g : Nat → Fuelled ε α} {a : α} (h : Ends g a)
    (hf : ∀ fuel, f (fuel + 1) = g fuel) : Ends f a := by
  obtain ⟨bound, hg⟩ := h
  refine ⟨bound + 1, fun fuel hle => ?_⟩
  cases fuel with
  | zero => exact absurd hle (Nat.not_succ_le_zero bound)
  | succ fuel => rw [hf, hg fuel (Nat.le_of_succ_le_succ hle)]

/-- The rule for two computations after one another. -/
theorem Ends.bind {f : Nat → Fuelled ε α} {g : Nat → α → Fuelled ε β} {a : α} {b : β}
    (h : Ends f a) (hg : Ends (fun fuel => g fuel a) b) :
    Ends (fun fuel => f fuel >>= g fuel) b := by
  obtain ⟨bound, hf⟩ := h
  obtain ⟨bound', hg⟩ := hg
  refine ⟨max bound bound', fun fuel hle => ?_⟩
  change f fuel >>= g fuel = pure b
  rw [hf fuel (Nat.le_trans (Nat.le_max_left ..) hle), pure_bind]
  exact hg fuel (Nat.le_trans (Nat.le_max_right ..) hle)

end Fuelled
