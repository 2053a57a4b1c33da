import Bindery.Hex
import Mathlib.Algebra.Group.Nat.Defs

/-!
# Reading hexadecimal digits back

The digits that are written read back as what they were written for: as the bytes of a text, and as
the number of a run of digits. No text that is written for bytes starts with a marker, since the
second character of a marker is no digit.
-/

namespace Bindery.Hex

theorem digitValue?_digit {n : Nat} (h : n < 16) : digitValue? (digit n) = some n := by
  revert n
  decide

theorem isBlank_digit {n : Nat} (h : n < 16) : isBlank (digit n) = false := by
  revert n
  decide

theorem digit_ne_marker {n : Nat} (h : n < 16) : digit n ≠ 'x' ∧ digit n ≠ 'X' := by
  revert n
  decide

theorem readPairs_digitsOf (b : UInt8) (rest : List Char) :
    readPairs (digitsOf b ++ rest) = (readPairs rest).map (b :: ·) := by
  have hb := b.toNat_lt
  have hhigh : b.toNat / 16 < 16 := by omega
  have hlow : b.toNat % 16 < 16 := Nat.mod_lt _ (by decide)
  have hbyte : UInt8.ofNat (16 * (b.toNat / 16) + b.toNat % 16) = b := by
    rw [Nat.div_add_mod, UInt8.ofNat_toNat]
  simp only [digitsOf, List.cons_append, List.nil_append, readPairs, isBlank_digit hhigh,
    digitValue?_digit hhigh, digitValue?_digit hlow, Bool.false_eq_true, if_false,
    Option.bind_eq_bind, Option.bind_some, hbyte]
  cases readPairs rest <;> rfl

theorem readPairs_flatMap (bytes : Bytes) : readPairs (bytes.flatMap digitsOf) = some bytes := by
  induction bytes with
  | nil => rfl
  | cons b rest ih => rw [List.flatMap_cons, readPairs_digitsOf, ih, Option.map_some]

theorem dropMarkerChars_flatMap (bytes : Bytes) :
    dropMarkerChars (bytes.flatMap digitsOf) = bytes.flatMap digitsOf := by
  cases bytes with
  | nil => rfl
  | cons b rest =>
    have hne := digit_ne_marker (Nat.mod_lt b.toNat (show 0 < 16 by decide))
    simp only [List.flatMap_cons, digitsOf, List.cons_append, List.nil_append]
    unfold dropMarkerChars
    split
    · rename_i h
      exact absurd (List.cons.inj (List.cons.inj h).2).1 hne.1
    · rename_i h
      exact absurd (List.cons.inj (List.cons.inj h).2).1 hne.2
    · rfl

theorem decode?_encode (bytes : Bytes) : decode? (encode bytes) = some bytes := by
  rw [decode?, encode, String.toList_ofList, dropMarkerChars_flatMap, readPairs_flatMap]

def numberOf? (cs : List Char) : Option Nat :=
  cs.foldlM (fun n c => (digitValue? c).map (16 * n + ·)) 0

theorem numberOf?_digits (width n : Nat) : numberOf? (digits width n) = some (n % 16 ^ width) := by
  induction width generalizing n with
  | zero => simp [numberOf?, digits, Nat.mod_one]
  | succ width ih =>
    have hread := ih (n / 16)
    unfold numberOf? at hread ⊢
    rw [digits, List.foldlM_append, hread, Nat.pow_succ', Nat.mod_mul]
    simp [digitValue?_digit (Nat.mod_lt n (show 0 < 16 by decide)), Nat.add_comm]

@[simp] theorem length_digits (width n : Nat) : (digits width n).length = width := by
  induction width generalizing n with
  | zero => rfl
  | succ width ih => simp [digits, ih]

end Bindery.Hex
