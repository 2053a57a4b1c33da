import Mathlib.Tactic.Ring
import Mathlib.Tactic.Positivity
import Bindery.Script

/-!
# Two's complement

The contract machine reads a byte string as an integer in two's complement, least significant byte
first. `signed_integerBytes` says that the bytes which a script pushes for an integer are read back
as that integer, whatever its sign and size.
-/

namespace Bindery

namespace Bytes

/-- The integer that a byte string stands for in two's complement; no bytes stand for zero. -/
def signed (b : Bytes) : Int :=
  if 2 * toNatLittle b < 256 ^ b.length then toNatLittle b
  else (toNatLittle b : Int) - 256 ^ b.length

theorem toNatLittle_littleEndian_emod (width : Nat) (n : Int) :
    (toNatLittle (littleEndian width (n % Nat.pow 256 width).toNat) : Int) = n % 256 ^ width := by
  have hpow : ((Nat.pow 256 width : Nat) : Int) = 256 ^ width := Nat.cast_pow 256 width
  have hpos : (0 : Int) < 256 ^ width := by positivity
  rw [toNatLittle_littleEndian, Int.natCast_emod, hpow,
    Int.toNat_of_nonneg (Int.emod_nonneg n hpos.ne'), Int.emod_emod_of_dvd n (dvd_refl _)]

/-- An integer that leaves room for its sign in `width` bytes is read back from them. -/
theorem signed_littleEndian (width : Nat) (n : Int) (hlow : -(256 ^ width : Int) ≤ 2 * n)
    (hhigh : 2 * n < 256 ^ width) :
    signed (littleEndian width (n % Nat.pow 256 width).toNat) = n := by
  have hread := toNatLittle_littleEndian_emod width n
  have hcast : ((256 ^ width : Nat) : Int) = 256 ^ width := Nat.cast_pow 256 width
  have hpos : (0 : Int) < 256 ^ width := by positivity
  unfold signed
  rw [length_littleEndian]
  by_cases hn : 0 ≤ n
  · have hvalue := hread.trans (Int.emod_eq_of_lt hn (by omega))
    rw [if_pos (by omega), hvalue]
  · have hmod : n % 256 ^ width = n + 256 ^ width := by
      rw [← Int.add_emod_right, Int.emod_eq_of_lt (by omega) (by omega)]
    have hvalue := hread.trans hmod
    rw [if_neg (by omega), hvalue]
    ring

end Bytes

namespace Script

theorem lt_two_pow_bitLength (n : Nat) : n < 2 ^ bitLength n := by
  unfold bitLength
  by_cases hn : n = 0
  · simp [hn]
  · rw [if_neg hn]
    exact Nat.lt_log2_self

/-- One byte more than the whole bytes of the magnitude leaves room for the sign. -/
theorem two_mul_natAbs_lt (n : Int) :
    2 * n.natAbs < 256 ^ (bitLength n.natAbs / 8 + 1) := by
  have hbits := lt_two_pow_bitLength n.natAbs
  calc
    2 * n.natAbs < 2 ^ (bitLength n.natAbs + 1) := by rw [pow_succ]; omega
    _ ≤ 2 ^ (8 * (bitLength n.natAbs / 8 + 1)) := Nat.pow_le_pow_right (by decide) (by omega)
    _ = 256 ^ (bitLength n.natAbs / 8 + 1) := by rw [pow_mul]; rfl

theorem signed_integerBytes (n : Int) : Bytes.signed (integerBytes n) = n := by
  have hroom := two_mul_natAbs_lt n
  have hcast : ((256 ^ (bitLength n.natAbs / 8 + 1) : Nat) : Int) =
      256 ^ (bitLength n.natAbs / 8 + 1) := Nat.cast_pow 256 _
  exact Bytes.signed_littleEndian _ n (by omega) (by omega)

end Script

end Bindery
