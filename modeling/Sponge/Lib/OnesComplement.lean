import Mathlib.Algebra.Order.Ring.Nat

namespace OnesComplement

/-- The sum of the 16-bit words of a string, the first byte of each pair on top. A last
byte without a partner is the upper half of its word. -/
def wordSum : List UInt8 → Nat
  | [] => 0
  | [a] => a.toNat * 256
  | a :: b :: rest => a.toNat * 256 + b.toNat + wordSum rest

/-- A sum brought down to 16 bits, each carry added in again. Only zero itself comes to
zero. -/
def fold (n : Nat) : Nat := if n = 0 then 0 else (n - 1) % 65535 + 1

/-- The complement of the folded sum. -/
def checksum (n : Nat) : Nat := 65535 - fold n

theorem fold_le (n : Nat) : fold n ≤ 65535 := by
  unfold fold
  split <;> omega

theorem fold_of_le {n : Nat} (h : n ≤ 65535) : fold n = n := by
  unfold fold
  split <;> omega

/-- One round of carries does not change what the sum comes to. -/
theorem fold_carry (n : Nat) : fold (n / 65536 + n % 65536) = fold n := by
  unfold fold
  split <;> split <;> omega

theorem checksum_eq_zero_iff (n : Nat) : checksum n = 0 ↔ n ≠ 0 ∧ n % 65535 = 0 := by
  unfold checksum fold
  split <;> omega

/-- A sum becomes right when its checksum is added to it. -/
theorem checksum_add_checksum (n : Nat) : checksum (n + checksum n) = 0 := by
  have hle : fold n ≤ n := by
    unfold fold
    split <;> omega
  have hmod : fold n % 65535 = n % 65535 := by
    unfold fold
    split <;> omega
  have hmax := fold_le n
  rw [checksum_eq_zero_iff]
  unfold checksum
  omega

/-- A string of whole words can be summed apart. -/
theorem word_sum_append {as : List UInt8} (bs : List UInt8) (k : Nat) (h : as.length = 2 * k) :
    wordSum (as ++ bs) = wordSum as + wordSum bs := by
  fun_induction wordSum as generalizing k with
  | case1 => simp
  | case2 a =>
    simp only [List.length_singleton] at h
    omega
  | case3 a b rest ih =>
    simp only [List.length_cons] at h
    simp only [List.cons_append, wordSum, ih (k - 1) (by omega)]
    omega

theorem word_sum_le (bs : List UInt8) : wordSum bs ≤ 65535 * ((bs.length + 1) / 2) := by
  fun_induction wordSum bs with
  | case1 => simp
  | case2 a =>
    have := a.toNat_lt
    simp only [List.length_singleton]
    omega
  | case3 a b rest ih =>
    have := a.toNat_lt
    have := b.toNat_lt
    simp only [List.length_cons]
    omega

/-- What a byte counts for in the sum: the first of its pair is on top. -/
def weight (i : Nat) : Nat := if i % 2 = 0 then 256 else 1

/-- A changed byte changes the sum by its own change, times its weight. -/
theorem word_sum_modify (bs : List UInt8) (f : UInt8 → UInt8) {i : Nat} (hi : i < bs.length) :
    wordSum (bs.modify i f) + bs[i].toNat * weight i =
      wordSum bs + (f bs[i]).toNat * weight i := by
  fun_induction wordSum bs generalizing i with
  | case1 => exact absurd hi (Nat.not_lt_zero i)
  | case2 a =>
    obtain rfl : i = 0 := Nat.lt_one_iff.mp hi
    simp [wordSum, weight, Nat.add_comm]
  | case3 a b rest ih =>
    match i with
    | 0 =>
      simp [wordSum, weight]
      omega
    | 1 =>
      simp [wordSum, weight]
      omega
    | i + 2 =>
      have hrest : i < rest.length := by simpa using hi
      have hw : weight (i + 2) = weight i := by simp [weight]
      have hsum := ih hrest
      simp only [List.modify_succ_cons, wordSum, List.getElem_cons_succ, hw]
      omega

/-- A string with one of its bits the other way round; the lowest bit of a byte comes
first. -/
def flipBit (bs : List UInt8) (pos : Nat) : List UInt8 :=
  bs.modify (pos / 8) (· ^^^ (1 <<< UInt8.ofNat (pos % 8)))

theorem length_flip_bit (bs : List UInt8) (pos : Nat) : (flipBit bs pos).length = bs.length :=
  List.length_modify ..

theorem flip_byte (a : UInt8) {j : Nat} (hj : j < 8) :
    (a ^^^ (1 <<< UInt8.ofNat j)).toNat = a.toNat + 2 ^ j ∨
      (a ^^^ (1 <<< UInt8.ofNat j)).toNat + 2 ^ j = a.toNat := by
  have hall : ∀ (n : Fin 256) (j : Fin 8), n.val ^^^ 2 ^ j.val = n.val + 2 ^ j.val ∨
      (n.val ^^^ 2 ^ j.val) + 2 ^ j.val = n.val := by
    decide +kernel
  have hone : (1 <<< UInt8.ofNat j : UInt8).toNat = 2 ^ j := by
    revert j
    decide
  rw [UInt8.toNat_xor, hone]
  exact hall ⟨a.toNat, a.toNat_lt⟩ ⟨j, hj⟩

/-- A flipped bit moves the sum by a power of two that the checksum cannot miss. -/
theorem word_sum_flip_bit (bs : List UInt8) {pos : Nat} (h : pos < 8 * bs.length) :
    ∃ d, 0 < d ∧ d < 65535 ∧
      (wordSum (flipBit bs pos) = wordSum bs + d ∨ wordSum (flipBit bs pos) + d = wordSum bs) := by
  have hi : pos / 8 < bs.length := by omega
  have hj : pos % 8 < 8 := Nat.mod_lt _ (by decide)
  have hsum := word_sum_modify bs (· ^^^ (1 <<< UInt8.ofNat (pos % 8))) hi
  have hpow : 2 ^ (pos % 8) ≤ 2 ^ 7 := Nat.pow_le_pow_right (by decide) (by omega)
  have hpos : 0 < 2 ^ (pos % 8) := Nat.two_pow_pos _
  refine ⟨2 ^ (pos % 8) * weight (pos / 8), ?_, ?_, ?_⟩
  · unfold weight
    split <;> omega
  · unfold weight
    split <;> omega
  · have hbyte := flip_byte bs[pos / 8] hj
    unfold flipBit
    generalize 2 ^ (pos % 8) = d at *
    rcases hbyte with hup | hdown
    · left
      rw [hup, Nat.add_mul] at hsum
      omega
    · right
      rw [← hdown, Nat.add_mul] at hsum
      omega

theorem checksum_flip_bit {c : Nat} {bs : List UInt8} (h : checksum (c + wordSum bs) = 0)
    {pos : Nat} (hpos : pos < 8 * bs.length) : checksum (c + wordSum (flipBit bs pos)) ≠ 0 := by
  obtain ⟨d, hd, hlt, hsum⟩ := word_sum_flip_bit bs hpos
  rw [checksum_eq_zero_iff] at h
  rw [Ne, checksum_eq_zero_iff]
  omega

end OnesComplement
