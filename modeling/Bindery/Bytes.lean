/-!
# Byte strings

Byte strings are lists of bytes. A number is written with a fixed count of bytes, least or most
significant first; what does not fit into that count is dropped, so reading back gives the number
modulo `256 ^ width`.
-/

namespace Bindery

abbrev Bytes := List UInt8

namespace Bytes

def littleEndian : (width n : Nat) → Bytes
  | 0, _ => []
  | width + 1, n => UInt8.ofNat n :: littleEndian width (n / 256)

def bigEndian (width n : Nat) : Bytes := (littleEndian width n).reverse

def toNatLittle : Bytes → Nat
  | [] => 0
  | b :: rest => b.toNat + 256 * toNatLittle rest

def toNatBig (b : Bytes) : Nat := toNatLittle b.reverse

@[simp] theorem length_littleEndian (width n : Nat) : (littleEndian width n).length = width := by
  induction width generalizing n with
  | zero => rfl
  | succ width ih => simp [littleEndian, ih]

@[simp] theorem length_bigEndian (width n : Nat) : (bigEndian width n).length = width := by
  simp [bigEndian]

theorem toNatLittle_littleEndian (width n : Nat) :
    toNatLittle (littleEndian width n) = n % Nat.pow 256 width := by
  induction width generalizing n with
  | zero => exact (Nat.mod_one n).symm
  | succ width ih =>
    have h : (UInt8.ofNat n).toNat = n % 256 := rfl
    have hp : Nat.pow 256 (width + 1) = 256 * Nat.pow 256 width := Nat.mul_comm _ _
    rw [littleEndian, toNatLittle, ih, h, hp, Nat.mod_mul]

theorem toNatBig_bigEndian (width n : Nat) :
    toNatBig (bigEndian width n) = n % Nat.pow 256 width := by
  simp [toNatBig, bigEndian, toNatLittle_littleEndian]

end Bytes

end Bindery
