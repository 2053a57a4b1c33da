import Bindery.Proofs.CodePoints
import Bindery.Text.Encoding

/-!
# UTF-8

The writer of UTF-8 agrees with the encoding by which strings are represented, and what it writes is
read back: a character in each of the four widths, whatever follows it, and so a whole text.
-/

namespace Bindery.Text

theorem toNat_lt (c : Char) : c.toNat < 0x110000 := by
  have h := c.valid
  simp only [UInt32.isValidChar, Nat.isValidChar] at h
  change c.val.toNat < _
  omega

theorem encodeChar_eq (c : Char) : encodeChar c = String.utf8EncodeChar c := by
  have hc : c.toNat < 0x110000 := toNat_lt c
  have hv : c.val.toNat = c.toNat := rfl
  unfold encodeChar String.utf8EncodeChar
  rw [hv]
  generalize c.toNat = n at hc
  dsimp only
  by_cases hone : n < 0x80
  · rw [if_pos hone, if_pos (Nat.le_of_lt_succ hone)]
  · rw [if_neg hone, if_neg (show ¬ n ≤ 0x7f by omega)]
    by_cases htwo : n < 0x800
    · have hhead : n / 64 % 0x20 = n / 64 := Nat.mod_eq_of_lt (by omega)
      rw [if_pos htwo, if_pos (Nat.le_of_lt_succ htwo), hhead, Nat.add_comm 0xc0, Nat.add_comm 0x80]
    · rw [if_neg htwo, if_neg (show ¬ n ≤ 0x7ff by omega)]
      by_cases hthree : n < 0x10000
      · have hhead : n / 4096 % 0x10 = n / 4096 := Nat.mod_eq_of_lt (by omega)
        simp only [if_pos hthree, if_pos (Nat.le_of_lt_succ hthree), hhead, Nat.add_comm]
      · have hhead : n / 262144 % 0x08 = n / 262144 := Nat.mod_eq_of_lt (by omega)
        simp only [if_neg hthree, if_neg (show ¬ n ≤ 0xffff by omega), hhead, Nat.add_comm]

theorem encodeUtf8_eq (s : String) : encodeUtf8 s = s.toUTF8.data.toList := by
  have hbytes := congrArg (·.data.toList) (String.utf8Encode_toList (b := s))
  rw [String.toUTF8_eq_toByteArray, ← hbytes]
  unfold encodeUtf8 List.utf8Encode
  rw [List.toList_data_toByteArray, funext encodeChar_eq]

theorem toNat_lt_or_ge (c : Char) : c.toNat < 0xd800 ∨ 0xe000 ≤ c.toNat := by
  have h := c.valid
  simp only [UInt32.isValidChar, Nat.isValidChar] at h
  change c.val.toNat < _ ∨ _ ≤ c.val.toNat
  omega

theorem toNat_byte {n : Nat} (h : n < 256) : (UInt8.ofNat n).toNat = n := by
  rw [UInt8.toNat_ofNat']
  exact Nat.mod_eq_of_lt h

theorem byte_lt {n m : Nat} (hm : m < 256) (h : n < m) : UInt8.ofNat n < UInt8.ofNat m := by
  rwa [UInt8.lt_iff_toNat_lt, toNat_byte (Nat.lt_trans h hm), toNat_byte hm]

theorem not_byte_lt {n m : Nat} (hn : n < 256) (h : m ≤ n) :
    ¬ UInt8.ofNat n < UInt8.ofNat m := by
  rw [UInt8.lt_iff_toNat_lt, toNat_byte hn, toNat_byte (Nat.lt_of_le_of_lt h hn)]
  exact Nat.not_lt.mpr h

theorem byte_inj {n m : Nat} (hn : n < 256) (hm : m < 256) (h : UInt8.ofNat n = UInt8.ofNat m) :
    n = m := by
  rwa [← UInt8.toNat_inj, toNat_byte hn, toNat_byte hm] at h

theorem isContinuation_byte (n : Nat) : isContinuation (UInt8.ofNat (0x80 + n % 64)) := by
  have h : ∀ k < 64, isContinuation (UInt8.ofNat (0x80 + k)) := by decide
  exact h _ (Nat.mod_lt n (by decide))

theorem payload_byte (n : Nat) : payload (UInt8.ofNat (0x80 + n % 64)) = n % 64 := by
  have h : ∀ k < 64, payload (UInt8.ofNat (0x80 + k)) = k := by decide
  exact h _ (Nat.mod_lt n (by decide))

/-- A byte pair that the first byte rules out, as the reader tests for it. -/
theorem and_false_of {a b : UInt8} {p : Prop} [Decidable p] (h : a = b → ¬ p) :
    (a == b && decide p) = false := by
  simpa using h

section Reading

variable {surrogates : Bool} {pos n : Nat} {rest : Bytes}

theorem read_one (h : n < 0x80) :
    decodeUtf8From surrogates pos (UInt8.ofNat n :: rest) =
      (decodeUtf8From surrogates (pos + 1) rest).map (.char (Char.ofNat n) :: ·) := by
  have hone : UInt8.ofNat n < 0x80 := byte_lt (m := 0x80) (by decide) h
  rw [decodeUtf8From.eq_def]
  simp only [if_pos hone, toNat_byte (show n < 256 by omega)]

theorem read_two (hlow : ¬ n < 0x80) (hhigh : n < 0x800) :
    decodeUtf8From surrogates pos
        (UInt8.ofNat (0xc0 + n / 64) :: UInt8.ofNat (0x80 + n % 64) :: rest) =
      (decodeUtf8From surrogates (pos + 2) rest).map (.char (Char.ofNat n) :: ·) := by
  have hbyte : 0xc0 + n / 64 < 256 := by omega
  have hone : ¬ UInt8.ofNat (0xc0 + n / 64) < 0x80 := not_byte_lt (m := 0x80) hbyte (by omega)
  have hstart : ¬ UInt8.ofNat (0xc0 + n / 64) < 0xc2 := not_byte_lt (m := 0xc2) hbyte (by omega)
  have htwo : UInt8.ofNat (0xc0 + n / 64) < 0xe0 := byte_lt (m := 0xe0) (by decide) (by omega)
  have hvalue : (0xc0 + n / 64) % 32 * 64 + n % 64 = n := by omega
  rw [decodeUtf8From.eq_def]
  simp only [if_neg hone, if_neg hstart, if_pos htwo, isContinuation_byte, payload_byte,
    toNat_byte hbyte, hvalue, if_true]

/-- Three bytes are read back: they are no longer form of fewer bytes and no surrogate. -/
theorem read_three (hlow : ¬ n < 0x800) (hhigh : n < 0x10000) (hs : n < 0xd800 ∨ 0xe000 ≤ n) :
    decodeUtf8From surrogates pos
        (UInt8.ofNat (0xe0 + n / 4096) :: UInt8.ofNat (0x80 + n / 64 % 64) ::
          UInt8.ofNat (0x80 + n % 64) :: rest) =
      (decodeUtf8From surrogates (pos + 3) rest).map (.char (Char.ofNat n) :: ·) := by
  have hbyte : 0xe0 + n / 4096 < 256 := by omega
  have hone : ¬ UInt8.ofNat (0xe0 + n / 4096) < 0x80 := not_byte_lt (m := 0x80) hbyte (by omega)
  have hstart : ¬ UInt8.ofNat (0xe0 + n / 4096) < 0xc2 := not_byte_lt (m := 0xc2) hbyte (by omega)
  have htwo : ¬ UInt8.ofNat (0xe0 + n / 4096) < 0xe0 := not_byte_lt (m := 0xe0) hbyte (by omega)
  have hthree : UInt8.ofNat (0xe0 + n / 4096) < 0xf0 := byte_lt (m := 0xf0) (by decide) (by omega)
  have hshort : UInt8.ofNat (0xe0 + n / 4096) = 0xe0 →
      ¬ UInt8.ofNat (0x80 + n / 64 % 64) < 0xa0 := by
    intro h
    have hfirst := byte_inj (m := 0xe0) hbyte (by decide) h
    exact not_byte_lt (m := 0xa0) (by omega) (by omega)
  have hhalf : UInt8.ofNat (0xe0 + n / 4096) = 0xed →
      ¬ 0xa0 ≤ UInt8.ofNat (0x80 + n / 64 % 64) := by
    intro h
    have hfirst := byte_inj (m := 0xed) hbyte (by decide) h
    exact UInt8.not_le.mpr (byte_lt (m := 0xa0) (by decide) (by omega))
  have hvalue : (0xe0 + n / 4096) % 16 * 4096 + n / 64 % 64 * 64 + n % 64 = n := by omega
  have hpoint : CodePoint.ofNat n = .char (Char.ofNat n) :=
    if_neg (by simp only [CodePoint.isSurrogate, Bool.and_eq_true, decide_eq_true_eq]; omega)
  have hnotShort := and_false_of hshort
  have hnotHalf := and_false_of hhalf
  rw [decodeUtf8From.eq_def]
  simp only [if_neg hone, if_neg hstart, if_neg htwo, if_pos hthree, hnotShort, hnotHalf,
    isContinuation_byte, payload_byte, toNat_byte hbyte, hvalue, hpoint, Bool.not_true,
    Bool.or_false, Bool.false_and, Bool.false_eq_true, if_false]

/-- Four bytes are read back: they are no longer form of fewer bytes and not beyond the last
character. -/
theorem read_four (hlow : ¬ n < 0x10000) (hhigh : n < 0x110000) :
    decodeUtf8From surrogates pos
        (UInt8.ofNat (0xf0 + n / 262144) :: UInt8.ofNat (0x80 + n / 4096 % 64) ::
          UInt8.ofNat (0x80 + n / 64 % 64) :: UInt8.ofNat (0x80 + n % 64) :: rest) =
      (decodeUtf8From surrogates (pos + 4) rest).map (.char (Char.ofNat n) :: ·) := by
  have hbyte : 0xf0 + n / 262144 < 256 := by omega
  have hone : ¬ UInt8.ofNat (0xf0 + n / 262144) < 0x80 := not_byte_lt (m := 0x80) hbyte (by omega)
  have hstart : ¬ UInt8.ofNat (0xf0 + n / 262144) < 0xc2 := not_byte_lt (m := 0xc2) hbyte (by omega)
  have htwo : ¬ UInt8.ofNat (0xf0 + n / 262144) < 0xe0 := not_byte_lt (m := 0xe0) hbyte (by omega)
  have hthree : ¬ UInt8.ofNat (0xf0 + n / 262144) < 0xf0 := not_byte_lt (m := 0xf0) hbyte (by omega)
  have hfour : UInt8.ofNat (0xf0 + n / 262144) < 0xf5 := byte_lt (m := 0xf5) (by decide) (by omega)
  have hshort : UInt8.ofNat (0xf0 + n / 262144) = 0xf0 →
      ¬ UInt8.ofNat (0x80 + n / 4096 % 64) < 0x90 := by
    intro h
    have hfirst := byte_inj (m := 0xf0) hbyte (by decide) h
    exact not_byte_lt (m := 0x90) (by omega) (by omega)
  have hlarge : UInt8.ofNat (0xf0 + n / 262144) = 0xf4 →
      ¬ 0x90 ≤ UInt8.ofNat (0x80 + n / 4096 % 64) := by
    intro h
    have hfirst := byte_inj (m := 0xf4) hbyte (by decide) h
    exact UInt8.not_le.mpr (byte_lt (m := 0x90) (by decide) (by omega))
  have hvalue : (0xf0 + n / 262144) % 8 * 262144 + n / 4096 % 64 * 4096 + n / 64 % 64 * 64 +
      n % 64 = n := by omega
  have hnotShort := and_false_of hshort
  have hnotLarge := and_false_of hlarge
  rw [decodeUtf8From.eq_def]
  simp only [if_neg hone, if_neg hstart, if_neg htwo, if_neg hthree, if_pos hfour, hnotShort,
    hnotLarge, isContinuation_byte, payload_byte, toNat_byte hbyte, hvalue, Bool.not_true,
    Bool.or_false, Bool.false_eq_true, if_false]

end Reading

/-- A character that has been written is read back as itself, whatever follows. -/
theorem decodeUtf8From_encodeChar (surrogates : Bool) (pos : Nat) (c : Char) (rest : Bytes) :
    decodeUtf8From surrogates pos (encodeChar c ++ rest) =
      (decodeUtf8From surrogates (pos + (encodeChar c).length) rest).map (.char c :: ·) := by
  have hc : c.toNat < 0x110000 := toNat_lt c
  have hs := toNat_lt_or_ge c
  have hback : Char.ofNat c.toNat = c := Char.ofNat_toNat c
  unfold encodeChar
  generalize c.toNat = n at hc hs hback
  subst hback
  dsimp only
  by_cases hone : n < 0x80
  · rw [if_pos hone]
    exact read_one hone
  rw [if_neg hone]
  by_cases htwo : n < 0x800
  · rw [if_pos htwo]
    exact read_two hone htwo
  rw [if_neg htwo]
  by_cases hthree : n < 0x10000
  · rw [if_pos hthree]
    exact read_three htwo hthree hs
  · rw [if_neg hthree]
    exact read_four hthree hc

/-- A text that has been written is read back as itself. -/
theorem decodeUtf8From_flatMap (surrogates : Bool) (pos : Nat) (cs : List Char) :
    decodeUtf8From surrogates pos (cs.flatMap encodeChar) = .ok (cs.map .char) := by
  induction cs generalizing pos with
  | nil =>
    rw [List.flatMap_nil, decodeUtf8From.eq_def]
    rfl
  | cons c cs ih =>
    rw [List.flatMap_cons, decodeUtf8From_encodeChar, ih]
    rfl

theorem decodeUtf8?_encodeUtf8 (s : String) : decodeUtf8? (encodeUtf8 s) = some s := by
  rw [decodeUtf8?, encodeUtf8, decodeUtf8From_flatMap]
  change (ofPoints (s.toList.map .char)).whole? = some s
  rw [ofPoints_map_char, String.ofList_toList, whole?]

theorem encodeUtf8_injective {a b : String} (h : encodeUtf8 a = encodeUtf8 b) : a = b := by
  have hread := decodeUtf8?_encodeUtf8 a
  rw [h, decodeUtf8?_encodeUtf8] at hread
  exact (Option.some.inj hread).symm

end Bindery.Text
