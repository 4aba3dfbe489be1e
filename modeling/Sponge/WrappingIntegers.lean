import Sponge.Lib.Word

namespace Sponge

open Word64

/-- A 32-bit number relative to an initial sequence number. -/
structure WrappingInt32 where
  rawValue : UInt32
  deriving DecidableEq, Repr

/-- The point a number of steps past another; the count is taken modulo 2^32. -/
def WrappingInt32.plus (a : WrappingInt32) (b : Nat) : WrappingInt32 :=
  ⟨a.rawValue + UInt32.ofNat b⟩

/-- The point a number of steps before another. -/
def WrappingInt32.minus (a : WrappingInt32) (b : Nat) : WrappingInt32 :=
  ⟨a.rawValue - UInt32.ofNat b⟩

/-- From an absolute sequence number to a relative one. -/
def wrap (n : Nat) (isn : WrappingInt32) : WrappingInt32 := isn.plus n

/-- The search loop of `unwrap`: `value k` is the candidate of the `k`-th turn,
and the loop stops at the first one that is no closer to the checkpoint. -/
def unwrapLoop (value : Nat → Nat) (checkpoint : Nat) : Nat → Nat → Nat → Nat
  | 0, _, _ => 0
  | turns + 1, k, minDiff =>
    let diff := if value k > checkpoint then value k - checkpoint else checkpoint - value k
    if minDiff > diff then unwrapLoop value checkpoint turns (k + 1) diff
    else sub (value k) (2 ^ 32)

/-- How many turns that loop takes. -/
def unwrapTurns (value : Nat → Nat) (checkpoint : Nat) : Nat → Nat → Nat → Nat
  | 0, _, _ => 0
  | turns + 1, k, minDiff =>
    let diff := if value k > checkpoint then value k - checkpoint else checkpoint - value k
    if minDiff > diff then unwrapTurns value checkpoint turns (k + 1) diff + 1 else 1

/-- The candidate `k` laps ahead: `k * 2^32 + n - isn`, with one lap more when `n`
is the smaller number. -/
def unwrapValue (n isn : WrappingInt32) (k : Nat) : Nat :=
  if n.rawValue.toNat ≥ isn.rawValue.toNat then
    sub (add (k * 2 ^ 32) n.rawValue.toNat) isn.rawValue.toNat
  else sub (add (add (k * 2 ^ 32) (2 ^ 32)) n.rawValue.toNat) isn.rawValue.toNat

/-- Where the search starts, one lap early. -/
def initK (checkpoint : Nat) : Nat :=
  if checkpoint / 2 ^ 32 > 0 then checkpoint / 2 ^ 32 - 1 else 0

/-- From a relative sequence number to the absolute one near the checkpoint. -/
def unwrap (n isn : WrappingInt32) (checkpoint : Nat) : Nat :=
  unwrapLoop (unwrapValue n isn) checkpoint (2 ^ 64 - 1 - initK checkpoint) (initK checkpoint)
    (2 ^ 64 - 1)

theorem unwrap_lt (n isn : WrappingInt32) (checkpoint : Nat) :
    unwrap n isn checkpoint < 2 ^ 64 := by
  have hloop : ∀ value turns k minDiff,
      unwrapLoop value checkpoint turns k minDiff < 2 ^ 64 := by
    intro value turns
    induction turns with
    | zero => simp [unwrapLoop]
    | succ turns ih =>
      intro k minDiff
      rw [unwrapLoop]
      generalize (if value k > checkpoint then value k - checkpoint else checkpoint - value k) = diff
      split
      · exact ih _ _
      · exact Nat.mod_lt _ (Nat.two_pow_pos 64)
  exact hloop _ _ _ _

theorem wrap_zero (isn : WrappingInt32) : wrap 0 isn = isn := by
  simp [wrap, WrappingInt32.plus]

theorem wrap_plus (n k : Nat) (isn : WrappingInt32) : (wrap n isn).plus k = wrap (n + k) isn := by
  simp [wrap, WrappingInt32.plus, UInt32.add_assoc]

/-- Every relative number is less than one lap ahead. -/
theorem exists_wrap (n isn : WrappingInt32) : ∃ a < 2 ^ 32, n = wrap a isn := by
  refine ⟨(n.rawValue - isn.rawValue).toNat, UInt32.toNat_lt _, ?_⟩
  rw [wrap, WrappingInt32.plus, UInt32.ofNat_toNat, UInt32.add_comm, UInt32.sub_add_cancel]

/-- The candidates are those with the same remainder, taken in 64 bits. -/
theorem unwrap_value_wrap (a k : Nat) (isn : WrappingInt32) :
    unwrapValue (wrap a isn) isn k = (k * 2 ^ 32 + a % 2 ^ 32) % 2 ^ 64 := by
  have hraw : (wrap a isn).rawValue.toNat = (isn.rawValue.toNat + a) % 2 ^ 32 := by
    simp [wrap, WrappingInt32.plus, UInt32.toNat_add]
  have hisn := isn.rawValue.toNat_lt
  unfold unwrapValue sub add
  rw [hraw]
  split <;> omega

/-- How far a candidate is from the checkpoint. -/
def gap (checkpoint v : Nat) : Nat := if v > checkpoint then v - checkpoint else checkpoint - v

/-- The candidates come closer to the checkpoint turn by turn, and the one `j` turns on
is the last to do so. -/
structure Approaches (value : Nat → Nat) (checkpoint k j : Nat) : Prop where
  closer : ∀ i, k ≤ i → i < k + j → gap checkpoint (value (i + 1)) < gap checkpoint (value i)
  last : gap checkpoint (value (k + j)) ≤ gap checkpoint (value (k + j + 1))

section Loop

variable {value : Nat → Nat} {checkpoint j k minDiff : Nat}

theorem Approaches.next (h : Approaches value checkpoint k (j + 1)) :
    Approaches value checkpoint (k + 1) j :=
  ⟨fun i hi hlt => h.closer i (by omega) (by omega), by rw [Nat.add_right_comm k 1 j]; exact h.last⟩

/-- The loop stops one turn after the closest candidate, -/
theorem unwrap_loop_closest (turns : Nat) (h : Approaches value checkpoint k j)
    (hmin : gap checkpoint (value k) < minDiff) :
    unwrapLoop value checkpoint (turns + j + 2) k minDiff = sub (value (k + j + 1)) (2 ^ 32) := by
  induction j generalizing k minDiff with
  | zero =>
    have hnot : ¬ gap checkpoint (value k) > gap checkpoint (value (k + 1)) :=
      Nat.not_lt.mpr h.last
    simp only [gap] at hmin hnot
    simp only [unwrapLoop, hmin, hnot, Nat.add_zero, gt_iff_lt, ↓reduceIte]
  | succ j ih =>
    have hnext := ih h.next (h.closer k (Nat.le_refl _) (by omega))
    simp only [gap] at hmin
    rw [Nat.add_right_comm k 1 j] at hnext
    rw [show turns + (j + 1) + 2 = turns + j + 2 + 1 by omega, unwrapLoop]
    simp only [gt_iff_lt, hmin, ↓reduceIte]
    exact hnext

/-- and it has taken that many turns. -/
theorem unwrap_turns_closest (turns : Nat) (h : Approaches value checkpoint k j)
    (hmin : gap checkpoint (value k) < minDiff) :
    unwrapTurns value checkpoint (turns + j + 2) k minDiff = j + 2 := by
  induction j generalizing k minDiff with
  | zero =>
    have hnot : ¬ gap checkpoint (value k) > gap checkpoint (value (k + 1)) :=
      Nat.not_lt.mpr h.last
    simp only [gap] at hmin hnot
    simp only [unwrapTurns, hmin, hnot, gt_iff_lt, ↓reduceIte]
  | succ j ih =>
    have hnext := ih h.next (h.closer k (Nat.le_refl _) (by omega))
    simp only [gap] at hmin
    rw [show turns + (j + 1) + 2 = turns + j + 2 + 1 by omega, unwrapTurns]
    simp only [gt_iff_lt, hmin, ↓reduceIte]
    rw [← gap, hnext]

end Loop

/-- The number is at most half a lap from the checkpoint, or there is none on the other
side of it: at the bottom and at the top of the 64-bit numbers. -/
structure InLap (checkpoint v : Nat) : Prop where
  below : checkpoint ≤ v + 2 ^ 31 ∨ 2 ^ 64 ≤ v + 2 ^ 32
  above : v < checkpoint + 2 ^ 31 ∨ v < 2 ^ 32

theorem init_k_bounds (checkpoint : Nat) :
    (initK checkpoint = 0 ∨ (initK checkpoint + 1) * 2 ^ 32 ≤ checkpoint) ∧
      checkpoint < initK checkpoint * 2 ^ 32 + 2 ^ 33 := by
  unfold initK
  split <;> omega

theorem InLap.approaches {v checkpoint : Nat} (h : InLap checkpoint v) (isn : WrappingInt32)
    (hv : v < 2 ^ 64) (hc : checkpoint < 2 ^ 64) :
    ∃ j ≤ 2, initK checkpoint + j = v / 2 ^ 32 ∧
      Approaches (unwrapValue (wrap v isn) isn) checkpoint (initK checkpoint) j ∧
      gap checkpoint (unwrapValue (wrap v isn) isn (initK checkpoint)) < 2 ^ 64 - 1 := by
  obtain ⟨hlo, hhi⟩ := h
  obtain ⟨hk, hkc⟩ := init_k_bounds checkpoint
  generalize initK checkpoint = k at hk hkc ⊢
  have hkv : k ≤ v / 2 ^ 32 := by omega
  obtain ⟨j, hj⟩ := Nat.exists_eq_add_of_le hkv
  have hval : ∀ i ≤ k + j, unwrapValue (wrap v isn) isn i = i * 2 ^ 32 + v % 2 ^ 32 := by
    intro i hi
    rw [unwrap_value_wrap]
    omega
  refine ⟨j, by omega, hj.symm, ⟨?_, ?_⟩, ?_⟩
  · intro i hi hlt
    rw [hval i (by omega), hval (i + 1) (by omega)]
    unfold gap
    split <;> split <;> omega
  · -- the candidate behind the number may wrap round to the start
    rw [hval _ (Nat.le_refl _), unwrap_value_wrap]
    unfold gap
    split <;> split <;> omega
  · rw [hval k (by omega)]
    unfold gap
    split <;> omega

theorem InLap.unwrap_eq {v checkpoint : Nat} (h : InLap checkpoint v) (isn : WrappingInt32)
    (hv : v < 2 ^ 64) (hc : checkpoint < 2 ^ 64) :
    unwrap (wrap v isn) isn checkpoint = v := by
  obtain ⟨j, hj, hkj, happ, hstart⟩ := h.approaches isn hv hc
  obtain ⟨turns, hturns⟩ : ∃ t, 2 ^ 64 - 1 - initK checkpoint = t + j + 2 :=
    ⟨2 ^ 64 - 1 - initK checkpoint - j - 2, by omega⟩
  have hloop := unwrap_loop_closest turns happ hstart
  rw [← hturns, hkj, unwrap_value_wrap] at hloop
  refine hloop.trans ?_
  unfold sub
  omega

/-- How many turns the search of `unwrap` takes. -/
def unwrapCount (n isn : WrappingInt32) (checkpoint : Nat) : Nat :=
  unwrapTurns (unwrapValue n isn) checkpoint (2 ^ 64 - 1 - initK checkpoint) (initK checkpoint)
    (2 ^ 64 - 1)

theorem InLap.count_le {v checkpoint : Nat} (h : InLap checkpoint v) (isn : WrappingInt32)
    (hv : v < 2 ^ 64) (hc : checkpoint < 2 ^ 64) :
    unwrapCount (wrap v isn) isn checkpoint ≤ 4 := by
  obtain ⟨j, hj, hkj, happ, hstart⟩ := h.approaches isn hv hc
  obtain ⟨turns, hturns⟩ : ∃ t, 2 ^ 64 - 1 - initK checkpoint = t + j + 2 :=
    ⟨2 ^ 64 - 1 - initK checkpoint - j - 2, by omega⟩
  rw [unwrapCount, hturns, unwrap_turns_closest turns happ hstart]
  omega

/-- Numbers a whole number of laps apart have the same relative number, and no others. -/
theorem wrap_eq_wrap {u v : Nat} {isn : WrappingInt32} :
    wrap u isn = wrap v isn ↔ u % 2 ^ 32 = v % 2 ^ 32 := by
  simp only [wrap, WrappingInt32.plus, WrappingInt32.mk.injEq, UInt32.add_right_inj]
  rw [← UInt32.toNat_inj, UInt32.toNat_ofNat', UInt32.toNat_ofNat']

/-- Some number with a given relative number is in the lap. -/
theorem exists_in_lap (n isn : WrappingInt32) {checkpoint : Nat} (hc : checkpoint < 2 ^ 64) :
    ∃ v < 2 ^ 64, n = wrap v isn ∧ InLap checkpoint v := by
  obtain ⟨a, ha, rfl⟩ := exists_wrap n isn
  have hlap : ∀ k, wrap a isn = wrap (k * 2 ^ 32 + a) isn := fun k => wrap_eq_wrap.mpr (by omega)
  -- the lap of the checkpoint, unless the one before it or the one after it is nearer
  by_cases hdown : checkpoint % 2 ^ 32 + 2 ^ 31 ≤ a ∧ 2 ^ 32 ≤ checkpoint
  · exact ⟨_, by omega, hlap (checkpoint / 2 ^ 32 - 1), by constructor <;> omega⟩
  by_cases hup : a + 2 ^ 31 < checkpoint % 2 ^ 32 ∧ checkpoint + 2 ^ 32 < 2 ^ 64
  · exact ⟨_, by omega, hlap (checkpoint / 2 ^ 32 + 1), by constructor <;> omega⟩
  · exact ⟨_, by omega, hlap (checkpoint / 2 ^ 32), by constructor <;> omega⟩

/-- With less than one lap on both sides the result is the number itself, or the
one a lap later if the checkpoint is more than half a lap ahead. -/
theorem unwrap_wrap {a checkpoint : Nat} (isn : WrappingInt32) (ha : a < 2 ^ 32)
    (hc : checkpoint < 2 ^ 32) :
    unwrap (wrap a isn) isn checkpoint = if checkpoint ≤ a + 2 ^ 31 then a else a + 2 ^ 32 := by
  split
  · exact InLap.unwrap_eq ⟨.inl ‹_›, .inr ha⟩ isn (by omega) (by omega)
  · rw [show wrap a isn = wrap (a + 2 ^ 32) isn from wrap_eq_wrap.mpr (by omega)]
    exact InLap.unwrap_eq ⟨.inl (by omega), .inl (by omega)⟩ isn (by omega) (by omega)

/-- A number less than half a lap from the checkpoint comes back, wherever the two
are among the 64-bit numbers. -/
theorem unwrap_near {a checkpoint : Nat} (isn : WrappingInt32) (ha : a < 2 ^ 64)
    (hc : checkpoint < 2 ^ 64) (hlo : checkpoint < a + 2 ^ 31) (hhi : a < checkpoint + 2 ^ 31) :
    unwrap (wrap a isn) isn checkpoint = a :=
  InLap.unwrap_eq ⟨.inl (Nat.le_of_lt hlo), .inl hhi⟩ isn ha hc

/-- Of the 64-bit numbers with a relative number, the one that is nearest to the
checkpoint, and of two that are as near the smaller. -/
def Nearest (n isn : WrappingInt32) (checkpoint : Nat) (v : UInt64) : Prop :=
  wrap v.toNat isn = n ∧ ∀ u : UInt64, wrap u.toNat isn = n →
    gap checkpoint v.toNat < gap checkpoint u.toNat ∨
      gap checkpoint v.toNat = gap checkpoint u.toNat ∧ v ≤ u

theorem Nearest.unique {n isn : WrappingInt32} {checkpoint : Nat} {u v : UInt64}
    (hu : Nearest n isn checkpoint u) (hv : Nearest n isn checkpoint v) : u = v := by
  have huv := hu.2 v hv.1
  have hvu := hv.2 u hu.1
  rw [UInt64.le_iff_toNat_le] at huv hvu
  exact UInt64.toNat_inj.mp (by omega)

theorem InLap.nearest {checkpoint : Nat} {v : UInt64} (h : InLap checkpoint v.toNat)
    (isn : WrappingInt32) (hc : checkpoint < 2 ^ 64) :
    Nearest (wrap v.toNat isn) isn checkpoint v := by
  refine ⟨rfl, fun u hu => ?_⟩
  have hmod := wrap_eq_wrap.mp hu
  have hu := u.toNat_lt
  have hv := v.toNat_lt
  obtain ⟨hlo, hhi⟩ := h
  rw [UInt64.le_iff_toNat_le]
  unfold gap
  split <;> split <;> omega

theorem unwrap_nearest (n isn : WrappingInt32) {checkpoint : Nat} (hc : checkpoint < 2 ^ 64) :
    ∃ v : UInt64, unwrap n isn checkpoint = v.toNat ∧ Nearest n isn checkpoint v := by
  obtain ⟨v, hv, rfl, hlap⟩ := exists_in_lap n isn hc
  have hto : (UInt64.ofNat v).toNat = v := UInt64.toNat_ofNat_of_lt' hv
  refine ⟨UInt64.ofNat v, ?_, ?_⟩
  · rw [hlap.unwrap_eq isn hv hc, hto]
  · have hnear := InLap.nearest (v := UInt64.ofNat v) (hto.symm ▸ hlap) isn hc
    rwa [hto] at hnear

/-- What `unwrap` finds is the nearest number, in four turns at most, so that a number
less than half a lap from the checkpoint is found again. -/
theorem unwrap_finds_nearest (n isn : WrappingInt32) (checkpoint : UInt64) :
    (∃ v : UInt64, unwrap n isn checkpoint.toNat = v.toNat ∧ Nearest n isn checkpoint.toNat v) ∧
      unwrapCount n isn checkpoint.toNat ≤ 4 ∧
      ∀ v : UInt64, gap checkpoint.toNat v.toNat < 2 ^ 31 →
        unwrap (wrap v.toNat isn) isn checkpoint.toNat = v.toNat := by
  have hc := checkpoint.toNat_lt
  refine ⟨unwrap_nearest n isn hc, ?_, ?_⟩
  · obtain ⟨v, hv, rfl, hlap⟩ := exists_in_lap n isn hc
    exact hlap.count_le isn hv hc
  · intro v hgap
    unfold gap at hgap
    refine unwrap_near isn v.toNat_lt hc ?_ ?_
    · split at hgap <;> omega
    · split at hgap <;> omega

end Sponge
