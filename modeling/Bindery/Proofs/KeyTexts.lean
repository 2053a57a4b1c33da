import Bindery.Proofs.AddressText
import Bindery.Proofs.Conversion
import Bindery.Proofs.HexSpelling

/-!
# Texts of private keys

A private key is the number that its 32 bytes are read as, and that number gives all of the bytes
back. So a key has one byte string, which `IsKey` tells from the others, and it is read from every
text that spells those bytes; its own text is their digits in lowercase.
-/

namespace Bindery

namespace Bytes

theorem littleEndian_toNatLittle (b : Bytes) : littleEndian b.length (toNatLittle b) = b := by
  induction b with
  | nil => rfl
  | cons x b ih =>
    have hfirst : UInt8.ofNat (x.toNat + 256 * toNatLittle b) = x := by
      apply UInt8.toNat_inj.mp
      rw [UInt8.toNat_ofNat']
      have := x.toNat_lt
      omega
    have hrest : (x.toNat + 256 * toNatLittle b) / 256 = toNatLittle b := by
      have := x.toNat_lt
      omega
    rw [List.length_cons, toNatLittle, littleEndian, hfirst, hrest, ih]

/-- The bytes of a number are those that it was read from, zeros in front included. -/
theorem bigEndian_toNatBig (b : Bytes) : bigEndian b.length (toNatBig b) = b := by
  rw [bigEndian, toNatBig, ← List.length_reverse, littleEndian_toNatLittle, List.reverse_reverse]

theorem toNatBig_bigEndian_of_lt {width n : ℕ} (h : n < 256 ^ width) :
    toNatBig (bigEndian width n) = n :=
  (toNatBig_bigEndian width n).trans (Nat.mod_eq_of_lt h)

end Bytes

theorem P256.toNatBig_scalar (a : Scalar) : Bytes.toNatBig (Bytes.bigEndian 32 a.val) = a.val :=
  Bytes.toNatBig_bigEndian_of_lt (a.isLt.trans (by decide))

namespace Hex

def IsLowerDigit (c : Char) : Prop := '0' ≤ c ∧ c ≤ '9' ∨ 'a' ≤ c ∧ c ≤ 'f'

instance : DecidablePred IsLowerDigit := fun c =>
  inferInstanceAs (Decidable ('0' ≤ c ∧ c ≤ '9' ∨ 'a' ≤ c ∧ c ≤ 'f'))

theorem isLowerDigit_digit {n : Nat} (h : n < 16) : IsLowerDigit (digit n) := by
  revert n
  decide

theorem isLowerDigit_of_mem_encode {b : Bytes} {c : Char} (hc : c ∈ (encode b).toList) :
    IsLowerDigit c := by
  rw [encode, String.toList_ofList] at hc
  obtain ⟨x, -, hx⟩ := List.mem_flatMap.mp hc
  have hbyte := x.toNat_lt
  rcases List.mem_pair.mp hx with rfl | rfl
  · exact isLowerDigit_digit (by omega)
  · exact isLowerDigit_digit (by omega)

theorem length_encode (b : Bytes) : (encode b).length = 2 * b.length := by
  rw [encode, String.length_ofList, length_flatMap_digitsOf]

end Hex

namespace PrivateKey

open P256

structure IsKey (b : Bytes) : Prop where
  length : b.length = 32
  positive : 1 ≤ Bytes.toNatBig b
  inRange : Bytes.toNatBig b ≤ order - 1

theorem toBytes_of_val {k : PrivateKey} {b : Bytes} (hlength : b.length = 32)
    (h : k.scalar.val = Bytes.toNatBig b) : k.toBytes = b := by
  rw [toBytes, h, ← hlength, Bytes.bigEndian_toNatBig]

theorem toNatBig_toBytes (k : PrivateKey) : Bytes.toNatBig k.toBytes = k.scalar.val :=
  toNatBig_scalar k.scalar

theorem isKey_toBytes (k : PrivateKey) : IsKey k.toBytes := by
  have hpositive : k.scalar.val ≠ 0 := fun h => k.nonzero (Fin.ext h)
  refine ⟨Bytes.length_bigEndian _ _, ?_, ?_⟩
  · rw [toNatBig_toBytes]
    exact Nat.pos_of_ne_zero hpositive
  · rw [toNatBig_toBytes]
    exact Nat.le_pred_of_lt k.scalar.isLt

theorem toBytes_injective {k k' : PrivateKey} (h : k.toBytes = k'.toBytes) : k = k' := by
  have hvalue := congrArg Bytes.toNatBig h
  rw [toNatBig_toBytes, toNatBig_toBytes] at hvalue
  obtain ⟨scalar, hscalar⟩ := k
  obtain ⟨scalar', hscalar'⟩ := k'
  obtain rfl := Fin.ext hvalue
  rfl

theorem exists_ofBytes_eq {b : Bytes} (h : IsKey b) : ∃ k, ofBytes b = .ok k ∧ k.toBytes = b := by
  have hlt : Bytes.toNatBig b < order := Nat.lt_of_le_pred (by decide) h.inRange
  have hne : (⟨Bytes.toNatBig b, hlt⟩ : Scalar) ≠ 0 := fun hzero =>
    absurd (congrArg Fin.val hzero) (Nat.ne_of_gt h.positive)
  refine ⟨⟨⟨Bytes.toNatBig b, hlt⟩, hne⟩, ?_, toBytes_of_val h.length rfl⟩
  rw [ofBytes, if_pos h.length, dif_pos hlt, dif_pos hne]

theorem isKey_of_ofBytes {b : Bytes} {k : PrivateKey} (h : ofBytes b = .ok k) : IsKey b := by
  unfold ofBytes at h
  dsimp only at h
  split_ifs at h with hlength hlt hne
  refine ⟨hlength, ?_, Nat.le_pred_of_lt hlt⟩
  exact Nat.pos_of_ne_zero fun hzero => hne (Fin.ext hzero)

theorem ofBytes_eq_ok_iff {b : Bytes} {k : PrivateKey} :
    ofBytes b = .ok k ↔ IsKey b ∧ k.toBytes = b := by
  constructor
  · intro h
    have hkey := isKey_of_ofBytes h
    obtain ⟨k', hk', hbytes⟩ := exists_ofBytes_eq hkey
    rw [h] at hk'
    cases hk'
    exact ⟨hkey, hbytes⟩
  · rintro ⟨hkey, hbytes⟩
    obtain ⟨k', hk', hbytes'⟩ := exists_ofBytes_eq hkey
    rw [hk', toBytes_injective (hbytes'.trans hbytes.symm)]

theorem ofHex_text_eq_ok_iff {t : Text} {k : PrivateKey} :
    ofHex (.text t) = .ok k ↔ hexBytes (.text t) = .ok k.toBytes := by
  simp only [ofHex, bind_eq_ok, mapError_eq_ok, ofBytes_eq_ok_iff]
  constructor
  · rintro ⟨b, hb, -, rfl⟩
    exact hb
  · intro h
    exact ⟨_, h, k.isKey_toBytes, rfl⟩

theorem converts_ofHex (t : Text) : Converts (ofHex (.text t)) := by
  refine (converts_hexBytes rfl).bind fun b _ => ?_
  cases ofBytes b with
  | error e => exact converts_error _
  | ok k => exact onlyFails_ok k

theorem exists_ofHex_iff {t : Text} :
    (∃ k, ofHex (.text t) = .ok k) ↔ ∃ b, hexBytes (.text t) = .ok b ∧ IsKey b := by
  simp only [ofHex_text_eq_ok_iff]
  constructor
  · rintro ⟨k, h⟩
    exact ⟨_, h, k.isKey_toBytes⟩
  · rintro ⟨b, hb, hkey⟩
    obtain ⟨k, -, rfl⟩ := exists_ofBytes_eq hkey
    exact ⟨k, hb⟩

theorem exists_conversion_iff {t : Text} :
    (∃ cause, ofHex (.text t) = .error (.conversion cause)) ↔
      ∀ b, hexBytes (.text t) = .ok b → ¬ IsKey b := by
  constructor
  · rintro ⟨cause, hfailed⟩ b hb hkey
    obtain ⟨k, hok⟩ := exists_ofHex_iff.mpr ⟨b, hb, hkey⟩
    rw [hfailed] at hok
    cases hok
  · intro hnone
    cases hresult : ofHex (.text t) with
    | ok k =>
      obtain ⟨b, hb, hkey⟩ := exists_ofHex_iff.mp ⟨k, hresult⟩
      exact absurd hkey (hnone b hb)
    | error e =>
      obtain ⟨cause, rfl⟩ := converts_ofHex t e hresult
      exact ⟨cause, rfl⟩

theorem ofHex_encode (k : PrivateKey) : ofHex (.text (Hex.encode k.toBytes)) = .ok k := by
  rw [ofHex_text_eq_ok_iff, Address.hexBytes_text_eq_ok_iff]
  exact ⟨_, rfl, Hex.decode?_encode k.toBytes⟩

theorem eq_iff_of_ofHex {t t' : Text} {k k' : PrivateKey} (hk : ofHex (.text t) = .ok k)
    (hk' : ofHex (.text t') = .ok k') : k = k' ↔ hexBytes (.text t) = hexBytes (.text t') := by
  rw [ofHex_text_eq_ok_iff.mp hk, ofHex_text_eq_ok_iff.mp hk']
  constructor
  · rintro rfl
    rfl
  · intro h
    exact toBytes_injective (Except.ok.inj h)

/-- A text gives a key just when it gives the bytes of a number of that range, and is refused as
what cannot be converted otherwise. A key is written as the digits of its bytes, zeros in front
included, and read back from them; so two texts give the same key just when they give the same
bytes. -/
theorem ofHex_text_iff (t t' : Text) (k k' : PrivateKey) :
    ((∃ key, ofHex (.text t) = .ok key) ↔ ∃ b, hexBytes (.text t) = .ok b ∧ IsKey b) ∧
      ((∃ cause, ofHex (.text t) = .error (.conversion cause)) ↔
        ∀ b, hexBytes (.text t) = .ok b → ¬ IsKey b) ∧
      (∀ b, ofHex (.text t) = .ok k → hexBytes (.text t) = .ok b →
        Hex.encode k.toBytes = Hex.encode b) ∧
      ((Hex.encode k.toBytes).length = 64 ∧
        (∀ c ∈ (Hex.encode k.toBytes).toList, Hex.IsLowerDigit c) ∧
        ofHex (.text (Hex.encode k.toBytes)) = .ok k) ∧
      (ofHex (.text t) = .ok k → ofHex (.text t') = .ok k' →
        (k = k' ↔ hexBytes (.text t) = hexBytes (.text t'))) := by
  refine ⟨exists_ofHex_iff, exists_conversion_iff, fun b hk hb => ?_, ⟨?_, ?_, k.ofHex_encode⟩,
    eq_iff_of_ofHex⟩
  · rw [ofHex_text_eq_ok_iff, hb] at hk
    rw [Except.ok.inj hk]
  · rw [Hex.length_encode, k.isKey_toBytes.length]
  · exact fun c => Hex.isLowerDigit_of_mem_encode

end PrivateKey

end Bindery
