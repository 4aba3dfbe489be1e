import Mathlib.Algebra.BigOperators.Group.List.Basic
import Mathlib.Algebra.Order.Ring.Nat
import Mathlib.Data.Finset.Basic
import Mathlib.Data.Nat.Find
import Mathlib.Order.Interval.Finset.Nat

/-- How far a set of positions reaches without a gap: the greatest `L ≤ n` with
all of `[0, L)` in the set. -/
def coveredLength (n : Nat) (C : Finset Nat) : Nat := Nat.findGreatest (fun L => ∀ p < L, p ∈ C) n

theorem covered_length_eq {n L : Nat} {C : Finset Nat} (hn : L ≤ n) (hc : ∀ p < L, p ∈ C)
    (hstop : L < n → L ∉ C) : coveredLength n C = L := by
  refine Nat.findGreatest_eq_iff.mpr ⟨hn, fun _ => hc, ?_⟩
  intro k hk hkn hall
  exact hstop (by omega) (hall L hk)

/-- Numbers that lie in stretches are no more than the stretches are long
together. -/
theorem card_le_of_stretches {α : Type} (lo len : α → Nat) {es : List α} {S : Finset Nat}
    (h : ∀ i ∈ S, ∃ e ∈ es, lo e ≤ i ∧ i < lo e + len e) : S.card ≤ (es.map len).sum := by
  induction es generalizing S with
  | nil =>
    have hS : S = ∅ := by
      refine Finset.eq_empty_of_forall_notMem fun i hi => ?_
      obtain ⟨e, he, -⟩ := h i hi
      simp at he
    simp [hS]
  | cons e es ih =>
    -- the numbers in the first stretch, and the others
    have hhead : (S.filter (fun i => lo e ≤ i ∧ i < lo e + len e)).card ≤ len e := by
      have hsub : S.filter (fun i => lo e ≤ i ∧ i < lo e + len e) ⊆ Finset.Ico (lo e) (lo e + len e) := by
        intro i hi
        exact Finset.mem_Ico.mpr (Finset.mem_filter.mp hi).2
      simpa using Finset.card_le_card hsub
    have htail : (S.filter (fun i => ¬ (lo e ≤ i ∧ i < lo e + len e))).card ≤ (es.map len).sum := by
      refine ih fun i hi => ?_
      obtain ⟨hi, hout⟩ := Finset.mem_filter.mp hi
      obtain ⟨d, hd, hin⟩ := h i hi
      rcases List.mem_cons.mp hd with rfl | hd
      · exact absurd hin hout
      · exact ⟨d, hd, hin⟩
    have hsplit := Finset.card_filter_add_card_filter_not (s := S)
      (fun i => lo e ≤ i ∧ i < lo e + len e)
    rw [List.map_cons, List.sum_cons]
    omega

/-- Stretches one behind the other between two numbers are no longer together than these
are apart. -/
theorem sum_le_of_stretches {α : Type} (lo len : α → Nat) {es : List α} {a b : Nat}
    (hp : es.Pairwise (fun d e => lo d + len d ≤ lo e)) (hlo : ∀ e ∈ es, a ≤ lo e)
    (hhi : ∀ e ∈ es, lo e + len e ≤ b) (hab : a ≤ b) : a + (es.map len).sum ≤ b := by
  induction es generalizing a with
  | nil => simpa using hab
  | cons d es ih =>
    obtain ⟨hd, ht⟩ := List.pairwise_cons.mp hp
    have hrest := ih (a := lo d + len d) ht hd (fun e he => hhi e (List.mem_cons_of_mem _ he))
      (hhi d List.mem_cons_self)
    have hfirst := hlo d List.mem_cons_self
    rw [List.map_cons, List.sum_cons]
    omega

/-- A number that lies in one of some stretches, each behind the one before, lies in
exactly one. -/
theorem length_filter_of_stretches {α : Type} (lo len : α → Nat) {es : List α} {i : Nat}
    (hp : es.Pairwise (fun d e => lo d + len d ≤ lo e))
    (h : ∃ e ∈ es, lo e ≤ i ∧ i < lo e + len e) :
    (es.filter (fun e => lo e ≤ i ∧ i < lo e + len e)).length = 1 := by
  induction es with
  | nil =>
    obtain ⟨e, he, -⟩ := h
    cases he
  | cons d es ih =>
    obtain ⟨hd, ht⟩ := List.pairwise_cons.mp hp
    by_cases hin : lo d ≤ i ∧ i < lo d + len d
    · have hnone : es.filter (fun e => lo e ≤ i ∧ i < lo e + len e) = [] := by
        refine List.filter_eq_nil_iff.mpr fun e he => ?_
        have := hd e he
        simp only [decide_eq_true_eq]
        omega
      rw [List.filter_cons_of_pos (by simpa using hin), hnone, List.length_singleton]
    · obtain ⟨e, he, hi⟩ := h
      rw [List.filter_cons_of_neg (by simpa using hin)]
      rcases List.mem_cons.mp he with rfl | he
      · exact absurd hi hin
      · exact ih ht ⟨e, he, hi⟩
