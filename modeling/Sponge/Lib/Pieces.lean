import Mathlib.Data.List.Basic
import Sponge.Lib.Outcome

/-! A string that is held in pieces, from which bytes are taken off at the front. -/

namespace Pieces

variable {ε σ α β : Type}

/-- Take `n` off the front: whole pieces go, and of the last one a part. How long a piece is,
how it is shortened and what becomes of one that goes may depend on a state. -/
def removeFront (len : σ → α → Nat) (cut : σ → α → Nat → Outcome ε (σ × α) Unit) (pop : σ → α → σ)
    (short : ε) : σ → List α → Nat → Outcome ε (σ × List α) Unit
  | s, as, 0 => .done (s, as) ()
  | s, [], _ + 1 => .fail (s, []) short
  | s, a :: as, n + 1 =>
    if n + 1 < len s a then
      let o := cut s a (n + 1)
      ⟨o.result, (o.state.1, o.state.2 :: as)⟩
    else removeFront len cut pop short (pop s a) as (n + 1 - len s a)

/-- What the pieces have to keep to: `text` is what a piece holds, and `I` what is so of the
state and the pieces that are left. -/
structure Sound (len : σ → α → Nat) (cut : σ → α → Nat → Outcome ε (σ × α) Unit) (pop : σ → α → σ)
    (text : σ → α → List β) (I : σ → List α → Prop) : Prop where
  length : ∀ s a as, I s (a :: as) → len s a = (text s a).length
  shorten : ∀ s a as n, I s (a :: as) → n < len s a → ∃ s' a', cut s a n = .done (s', a') () ∧
    I s' (a' :: as) ∧ text s' a' = (text s a).drop n ∧ ∀ b ∈ as, text s' b = text s b
  discard : ∀ s a as, I s (a :: as) → I (pop s a) as ∧ ∀ b ∈ as, text (pop s a) b = text s b

variable {len : σ → α → Nat} {cut : σ → α → Nat → Outcome ε (σ × α) Unit} {pop : σ → α → σ}
  {text : σ → α → List β} {I : σ → List α → Prop} {short : ε}

/-- Just the first `n` of what the pieces hold are taken off, if there are so many. -/
theorem Sound.remove_front (hs : Sound len cut pop text I) {s : σ} {as : List α} (h : I s as)
    (n : Nat) :
    (n ≤ (as.flatMap (text s)).length ∧ ∃ s' as',
      removeFront len cut pop short s as n = .done (s', as') () ∧ I s' as' ∧
        as'.flatMap (text s') = (as.flatMap (text s)).drop n) ∨
    ((as.flatMap (text s)).length < n ∧ ∃ s',
      removeFront len cut pop short s as n = .fail (s', []) short ∧ I s' []) := by
  induction as generalizing s n with
  | nil =>
    cases n with
    | zero => exact .inl ⟨Nat.le_refl _, s, [], rfl, h, rfl⟩
    | succ n => exact .inr ⟨Nat.succ_pos n, s, rfl, h⟩
  | cons a as ih =>
    cases n with
    | zero => exact .inl ⟨Nat.zero_le _, s, a :: as, rfl, h, rfl⟩
    | succ n =>
      have hlen := hs.length s a as h
      rw [removeFront]
      split
      · rename_i hlt
        obtain ⟨s', a', hcut, hI, htext, hrest⟩ := hs.shorten s a as (n + 1) h hlt
        have hsame : as.flatMap (text s') = as.flatMap (text s) := List.flatMap_congr hrest
        refine .inl ⟨?_, s', a' :: as, ?_, hI, ?_⟩
        · rw [List.flatMap_cons, List.length_append]
          omega
        · rw [hcut]
          rfl
        · rw [List.flatMap_cons, List.flatMap_cons, htext, hsame,
            List.drop_append_of_le_length (by omega)]
      · rename_i hge
        obtain ⟨hI, hrest⟩ := hs.discard s a as h
        have hsame : as.flatMap (text (pop s a)) = as.flatMap (text s) := List.flatMap_congr hrest
        have hdrop : (text s a ++ as.flatMap (text s)).drop (n + 1) =
            (as.flatMap (text s)).drop (n + 1 - len s a) := by
          rw [hlen, List.drop_append, List.drop_of_length_le (by omega), List.nil_append]
        rw [List.flatMap_cons, List.length_append, hdrop]
        rcases ih hI (n + 1 - len s a) with ⟨hle, s', as', hrun, hI', htext⟩ | ⟨hlt, s', hrun, hI'⟩
        · rw [hsame] at hle htext
          exact .inl ⟨by omega, s', as', hrun, hI', htext⟩
        · rw [hsame] at hlt
          exact .inr ⟨by omega, s', hrun, hI'⟩

end Pieces
