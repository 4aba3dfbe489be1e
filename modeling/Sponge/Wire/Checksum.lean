import Sponge.Lib.OnesComplement
import Sponge.Wire.Parser

namespace Sponge

namespace InternetChecksum

open OnesComplement

/-- Bytes added in two calls are added as one string. -/
theorem add_append (c : InternetChecksum) (a b : Bytes) : c.add (a ++ b) = (c.add a).add b :=
  List.foldl_append

/-- From an even place on, the words of the string are added, in 32 bits. -/
theorem sum_add (sum : UInt32) (data : Bytes) :
    ((⟨sum, false⟩ : InternetChecksum).add data).sum = sum + UInt32.ofNat (wordSum data) := by
  fun_induction wordSum data generalizing sum with
  | case1 => simp [add]
  | case2 a =>
    rw [← UInt32.toNat_inj]
    simp [add, addByte, Nat.shiftLeft_eq]
  | case3 a b rest ih =>
    have hword : (⟨sum, false⟩ : InternetChecksum).add (a :: b :: rest) =
        (⟨sum + a.toUInt32 <<< 8 + b.toUInt32, false⟩ : InternetChecksum).add rest := rfl
    rw [hword, ih, ← UInt32.toNat_inj]
    simp [Nat.shiftLeft_eq]
    omega

theorem fold_to_nat (ret : UInt32) :
    (InternetChecksum.fold ret).toNat = OnesComplement.fold ret.toNat := by
  fun_induction InternetChecksum.fold ret with
  | case1 ret h ih =>
    have hlow : ret.toNat &&& 65535 = ret.toNat % 65536 := Nat.and_two_pow_sub_one_eq_mod _ 16
    have hlt := ret.toNat_lt
    rw [ih, ← fold_carry ret.toNat]
    simp only [UInt32.toNat_add, UInt32.toNat_shiftRight, UInt32.toNat_and, UInt32.reduceToNat,
      Nat.reduceMod, Nat.reducePow, Nat.shiftRight_eq_div_pow, hlow]
    rw [Nat.mod_eq_of_lt (by omega)]
  | case2 ret h =>
    rw [fold_of_le]
    simpa [UInt32.lt_iff_toNat_lt] using h

/-- The value is the checksum of the sum of the words, as long as this one has 32 bits. -/
theorem value_add {sum : UInt32} {data : Bytes} (h : sum.toNat + wordSum data < 2 ^ 32) :
    ((⟨sum, false⟩ : InternetChecksum).add data).value.toNat =
      checksum (sum.toNat + wordSum data) := by
  have hsum : (sum + UInt32.ofNat (wordSum data)).toNat = sum.toNat + wordSum data := by
    simp only [UInt32.toNat_add, UInt32.toNat_ofNat']
    omega
  have hfold := fold_le (sum.toNat + wordSum data)
  rw [value, sum_add, UInt16.toNat_not, UInt32.toNat_toUInt16, fold_to_nat, hsum, checksum,
    Nat.mod_eq_of_lt (by omega)]
  rfl

end InternetChecksum

end Sponge
