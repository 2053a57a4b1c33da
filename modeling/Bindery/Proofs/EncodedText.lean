import Bindery.Proofs.Utf8

/-!
# Encoded text is read back

The writers of the encodings that a document can arrive in, and that the reader undoes each of them.
No encoding is named beside the bytes. With a byte-order mark in front, the mark tells it; without
one the first two characters do, if both are ASCII and none is NUL.
-/

namespace Bindery.Text

def utf16Units (c : Char) : List Nat :=
  if c.toNat < 0x10000 then [c.toNat]
  else [0xd800 + (c.toNat - 0x10000) / 0x400, 0xdc00 + (c.toNat - 0x10000) % 0x400]

def Codec.spell (codec : Codec) (c : Char) : Bytes :=
  match codec with
  | .utf8 => encodeChar c
  | .utf16LE => (utf16Units c).flatMap (Bytes.littleEndian 2)
  | .utf16BE => (utf16Units c).flatMap (Bytes.bigEndian 2)
  | .utf32LE => Bytes.littleEndian 4 c.toNat
  | .utf32BE => Bytes.bigEndian 4 c.toNat

def encode (codec : Codec) (cs : List Char) : Bytes := cs.flatMap codec.spell

def byteOrderMark : Char := '\ufeff'

section Units

theorem utf16Units_lt {c : Char} {u : Nat} (h : u ∈ utf16Units c) : u < 0x10000 := by
  have hc := toNat_lt c
  unfold utf16Units at h
  split at h <;> simp at h <;> omega

/-- A unit that is no surrogate stands for a character by itself. -/
theorem joinUnits16_cons {u : Nat} (h : u < 0xd800 ∨ 0xe000 ≤ u) (us : List Nat) :
    joinUnits16 (u :: us) = .char (Char.ofNat u) :: joinUnits16 us := by
  have hnot : ¬ CodePoint.isSurrogate u := by
    simp [CodePoint.isSurrogate]
    omega
  have hpoint : CodePoint.ofNat u = .char (Char.ofNat u) := if_neg hnot
  cases us with
  | nil => rw [joinUnits16, hpoint, joinUnits16]
  | cons v us => rw [joinUnits16, if_neg (by simp; omega), hpoint]

theorem joinUnits16_pair {n : Nat} (hlow : 0x10000 ≤ n) (hhigh : n < 0x110000) (us : List Nat) :
    joinUnits16 ((0xd800 + (n - 0x10000) / 0x400) :: (0xdc00 + (n - 0x10000) % 0x400) :: us) =
      .char (Char.ofNat n) :: joinUnits16 us := by
  have hvalue : 0x10000 + (0xd800 + (n - 0x10000) / 0x400 - 0xd800) * 0x400 +
      (0xdc00 + (n - 0x10000) % 0x400 - 0xdc00) = n := by omega
  rw [joinUnits16, if_pos (by simp; omega), hvalue]

theorem joinUnits16_flatMap (cs : List Char) :
    joinUnits16 (cs.flatMap utf16Units) = cs.map .char := by
  induction cs with
  | nil => rfl
  | cons c cs ih =>
    rw [List.flatMap_cons, utf16Units]
    by_cases hone : c.toNat < 0x10000
    · rw [if_pos hone, List.singleton_append, joinUnits16_cons (toNat_lt_or_ge c), ih,
        Char.ofNat_toNat, List.map_cons]
    · rw [if_neg hone, List.cons_append, List.singleton_append,
        joinUnits16_pair (Nat.not_lt.mp hone) (toNat_lt c), ih, Char.ofNat_toNat, List.map_cons]

/-- Units that are spelled in two bytes each are read back, without a byte left over. -/
theorem units16_flatMap {unit : UInt8 → UInt8 → Nat} {spell : Nat → Bytes}
    (hspell : ∀ n < 0x10000, ∃ a b, spell n = [a, b] ∧ unit a b = n) {us : List Nat}
    (h : ∀ u ∈ us, u < 0x10000) : units16 unit (us.flatMap spell) = (us, none) := by
  induction us with
  | nil => rfl
  | cons u us ih =>
    obtain ⟨hu, hus⟩ := List.forall_mem_cons.mp h
    obtain ⟨a, b, hab, hunit⟩ := hspell u hu
    rw [List.flatMap_cons, hab, List.cons_append, List.singleton_append, units16, ih hus, hunit]

theorem decodeUtf16From_flatMap {codec : Codec} {unit : UInt8 → UInt8 → Nat} {spell : Nat → Bytes}
    (hspell : ∀ n < 0x10000, ∃ a b, spell n = [a, b] ∧ unit a b = n) (pos : Nat) (cs : List Char) :
    decodeUtf16From codec unit pos (cs.flatMap fun c => (utf16Units c).flatMap spell) =
      .ok (cs.map .char) := by
  have hunits : ∀ u ∈ cs.flatMap utf16Units, u < 0x10000 := by
    intro u hu
    obtain ⟨c, -, hc⟩ := List.mem_flatMap.mp hu
    exact utf16Units_lt hc
  rw [← List.flatMap_assoc, decodeUtf16From, units16_flatMap hspell hunits]
  exact congrArg Except.ok (joinUnits16_flatMap cs)

theorem decodeUtf32From_flatMap {codec : Codec} {unit : UInt8 → UInt8 → UInt8 → UInt8 → Nat}
    {spell : Nat → Bytes}
    (hspell : ∀ n < 0x110000, ∃ a b c d, spell n = [a, b, c, d] ∧ unit a b c d = n) (pos : Nat)
    (cs : List Char) :
    decodeUtf32From codec unit pos (cs.flatMap fun c => spell c.toNat) =
      .ok (cs.map .char) := by
  induction cs generalizing pos with
  | nil => rfl
  | cons x cs ih =>
    obtain ⟨a, b, c, d, habcd, hunit⟩ := hspell x.toNat (toNat_lt x)
    rw [List.flatMap_cons, habcd]
    simp only [List.cons_append, List.nil_append]
    rw [decodeUtf32From, hunit, if_pos (toNat_lt x), ih, CodePoint.ofNat_toNat]
    rfl

end Units

theorem spell_littleEndian_two (n : Nat) (h : n < 0x10000) :
    ∃ a b, Bytes.littleEndian 2 n = [a, b] ∧ unit16LE a b = n := by
  refine ⟨_, _, rfl, ?_⟩
  simp only [unit16LE, UInt8.toNat_ofNat']
  omega

theorem spell_bigEndian_two (n : Nat) (h : n < 0x10000) :
    ∃ a b, Bytes.bigEndian 2 n = [a, b] ∧ unit16BE a b = n := by
  obtain ⟨a, b, hab, hunit⟩ := spell_littleEndian_two n h
  exact ⟨b, a, by rw [Bytes.bigEndian, hab]; rfl, hunit⟩

theorem spell_littleEndian_four (n : Nat) (h : n < 0x110000) :
    ∃ a b c d, Bytes.littleEndian 4 n = [a, b, c, d] ∧ unit32LE a b c d = n := by
  refine ⟨_, _, _, _, rfl, ?_⟩
  simp only [unit32LE, unit16LE, UInt8.toNat_ofNat']
  omega

theorem spell_bigEndian_four (n : Nat) (h : n < 0x110000) :
    ∃ a b c d, Bytes.bigEndian 4 n = [a, b, c, d] ∧ unit32BE a b c d = n := by
  obtain ⟨a, b, c, d, habcd, hunit⟩ := spell_littleEndian_four n h
  exact ⟨d, c, b, a, by rw [Bytes.bigEndian, habcd]; rfl, hunit⟩

/-- Each encoding is undone by its reader. -/
theorem decodeFrom_encode (codec : Codec) (pos : Nat) (cs : List Char) :
    decodeFrom codec pos (encode codec cs) = .ok (cs.map .char) := by
  cases codec with
  | utf8 => exact decodeUtf8From_flatMap true pos cs
  | utf16LE => exact decodeUtf16From_flatMap spell_littleEndian_two pos cs
  | utf16BE => exact decodeUtf16From_flatMap spell_bigEndian_two pos cs
  | utf32LE => exact decodeUtf32From_flatMap spell_littleEndian_four pos cs
  | utf32BE => exact decodeUtf32From_flatMap spell_bigEndian_four pos cs

def IsBasic (c : Char) : Prop := 0 < c.toNat ∧ c.toNat < 0x80

instance : DecidablePred IsBasic :=
  fun c => inferInstanceAs (Decidable (0 < c.toNat ∧ c.toNat < 0x80))

/-- A byte among the zeros that an encoding spells a character of ASCII with. -/
def Codec.padded (codec : Codec) (b : UInt8) : Bytes :=
  match codec with
  | .utf8 => [b]
  | .utf16LE => [b, 0]
  | .utf16BE => [0, b]
  | .utf32LE => [b, 0, 0, 0]
  | .utf32BE => [0, 0, 0, b]

theorem spell_basic {c : Char} (h : IsBasic c) :
    ∃ b : UInt8, b ≠ 0 ∧ b < 0x80 ∧ ∀ codec : Codec, codec.spell c = codec.padded b := by
  obtain ⟨hpos, hlt⟩ := h
  have hall : ∀ n < 0x80, 0 < n → UInt8.ofNat n ≠ 0 ∧ UInt8.ofNat n < 0x80 := by decide
  obtain ⟨hzero, hascii⟩ := hall c.toNat hlt hpos
  refine ⟨UInt8.ofNat c.toNat, hzero, hascii, fun codec => ?_⟩
  have hunits : utf16Units c = [c.toNat] := if_pos (by omega)
  have hdiv : c.toNat / 256 = 0 := by omega
  cases codec <;> simp [Codec.spell, Codec.padded, encodeChar, hlt, hunits, Bytes.bigEndian,
    Bytes.littleEndian, hdiv]

section Detection

variable {a b : UInt8} {rest : Bytes}

theorem ne_of_ascii {m : UInt8} (h : a < 0x80) (hm : 0x80 ≤ m) : a ≠ m := by
  rintro rfl
  exact UInt8.not_lt.mpr hm h

theorem detect_of_unmarked {data : Bytes} (h : ∀ m ∈ marks, ¬ m.1 <+: data) :
    detect data = ⟨detectUnmarked data, 0, 0⟩ := by
  have hnone : marks.find? (fun m => m.1.isPrefixOf data) = none :=
    List.find?_eq_none.mpr fun m hm hprefix => h m hm (List.isPrefixOf_iff_prefix.mp hprefix)
  rw [detect, hnone]

/-- A mark starts with zero or with a byte beyond ASCII. -/
theorem not_prefix_of_first (ha : a ≠ 0) (ha' : a < 0x80) :
    ∀ m ∈ marks, ¬ m.1 <+: a :: rest := by
  have hfirst : ∀ m ∈ marks, ∃ x xs, m.1 = x :: xs ∧ (x = 0 ∨ 0x80 ≤ x) := by
    simp only [marks, List.forall_mem_cons]
    exact ⟨⟨_, _, rfl, .inr (by decide)⟩, ⟨_, _, rfl, .inl rfl⟩, ⟨_, _, rfl, .inr (by decide)⟩,
      ⟨_, _, rfl, .inr (by decide)⟩, ⟨_, _, rfl, .inr (by decide)⟩, List.forall_mem_nil _⟩
  intro m hm hprefix
  obtain ⟨x, xs, hx, hor⟩ := hfirst m hm
  rw [hx] at hprefix
  obtain rfl := (List.cons_prefix_cons.mp hprefix).1
  rcases hor with rfl | hx
  · exact ha rfl
  · exact ne_of_ascii ha' hx rfl

/-- The mark that starts with zero goes on with another and a byte beyond ASCII. -/
theorem not_prefix_of_zero : ∀ m ∈ marks, ¬ m.1 <+: 0 :: b :: 0 :: rest := by
  simp only [marks, List.forall_mem_cons, List.cons_prefix_cons]
  exact ⟨fun h => absurd h.1 (by decide), fun h => absurd h.2.2.1 (by decide),
    fun h => absurd h.1 (by decide), fun h => absurd h.1 (by decide),
    fun h => absurd h.1 (by decide), List.forall_mem_nil _⟩

/-- Two bytes other than zero are the first characters in UTF-8. -/
theorem detectUnmarked_bytes (ha : a ≠ 0) (hb : b ≠ 0) :
    detectUnmarked (a :: b :: rest) = .utf8 := by
  cases rest with
  | nil => rw [detectUnmarked, if_neg ha, if_neg hb]
  | cons c rest =>
    cases rest with
    | nil => rfl
    | cons d rest => rw [detectUnmarked, if_neg ha, if_neg hb]

/-- The zeros beside two characters of ASCII tell the encoding. -/
theorem detectUnmarked_padded (codec : Codec) (ha : a ≠ 0) (hb : b ≠ 0) :
    detectUnmarked (codec.padded a ++ codec.padded b ++ rest) = codec := by
  have hfour (a b c d : UInt8) (rest : Bytes) : detectUnmarked (a :: b :: c :: d :: rest) =
      if a = 0 then if b = 0 then .utf32BE else .utf16BE
      else if b = 0 then if c = 0 ∧ d = 0 then .utf32LE else .utf16LE
      else .utf8 := rfl
  cases codec with
  | utf8 => exact detectUnmarked_bytes ha hb
  | utf16LE =>
    refine (hfour a 0 b 0 rest).trans ?_
    rw [if_neg ha, if_pos rfl, if_neg fun h => hb h.1]
  | utf16BE =>
    refine (hfour 0 a 0 b rest).trans ?_
    rw [if_pos rfl, if_neg ha]
  | utf32LE =>
    refine (hfour a 0 0 0 _).trans ?_
    rw [if_neg ha, if_pos rfl, if_pos ⟨rfl, rfl⟩]
  | utf32BE => rfl

/-- Two characters of ASCII look like no mark in any encoding. -/
theorem not_prefix_padded (codec : Codec) (ha : a ≠ 0) (ha' : a < 0x80) :
    ∀ m ∈ marks, ¬ m.1 <+: codec.padded a ++ codec.padded b ++ rest := by
  cases codec with
  | utf16BE => exact not_prefix_of_zero
  | utf32BE => exact not_prefix_of_zero
  | _ => exact not_prefix_of_first ha ha'

/-- A mark tells the encoding, if no NUL stands behind it. -/
theorem detect_mark (codec : Codec) (hb : b ≠ 0) :
    ∃ origin, detect (codec.spell byteOrderMark ++ codec.padded b ++ rest) =
      ⟨codec, (codec.spell byteOrderMark).length, origin⟩ := by
  cases codec with
  | utf16LE =>
    -- Followed by two zeros, the mark would be that of the four-byte encoding.
    have hlong : ¬ ([0xff, 0xfe, 0, 0] : Bytes).isPrefixOf (0xff :: 0xfe :: b :: 0 :: rest) := by
      intro h
      have hprefix := List.isPrefixOf_iff_prefix.mp h
      simp only [List.cons_prefix_cons] at hprefix
      exact hb hprefix.2.2.1.symm
    have hunits : detect (0xff :: 0xfe :: b :: 0 :: rest) = ⟨.utf16LE, 2, 2⟩ := by
      rw [detect, marks, List.find?_cons_of_neg (by exact hlong)]
      rfl
    exact ⟨2, hunits⟩
  | _ => exact ⟨_, rfl⟩

end Detection

/-- Without a mark, text that starts with two characters of ASCII is decoded as it was encoded. -/
theorem decode_encode (codec : Codec) {c d : Char} {cs : List Char} (hc : IsBasic c)
    (hd : IsBasic d) : decode (encode codec (c :: d :: cs)) = .ok ((c :: d :: cs).map .char) := by
  obtain ⟨a, ha, ha', hspell⟩ := spell_basic hc
  obtain ⟨b, hb, -, hspell'⟩ := spell_basic hd
  have hdetect : detect (encode codec (c :: d :: cs)) = ⟨codec, 0, 0⟩ := by
    rw [encode, List.flatMap_cons, List.flatMap_cons, hspell, hspell', ← List.append_assoc,
      detect_of_unmarked (not_prefix_padded codec ha ha'), detectUnmarked_padded codec ha hb]
  rw [decode, hdetect]
  exact decodeFrom_encode codec 0 _

/-- Behind a mark, text that does not start with NUL is decoded as it was encoded. -/
theorem decode_encode_mark (codec : Codec) {c : Char} {cs : List Char} (hc : IsBasic c) :
    decode (encode codec (byteOrderMark :: c :: cs)) = .ok ((c :: cs).map .char) := by
  obtain ⟨b, hb, -, hspell⟩ := spell_basic hc
  have hmark : encode codec (byteOrderMark :: c :: cs) =
      codec.spell byteOrderMark ++ encode codec (c :: cs) := List.flatMap_cons
  obtain ⟨origin, hdetect⟩ := @detect_mark b (encode codec cs) codec hb
  have hfirst : encode codec (c :: cs) = codec.padded b ++ encode codec cs := by
    rw [encode, List.flatMap_cons, hspell, encode]
  rw [List.append_assoc, ← hfirst, ← hmark] at hdetect
  rw [decode, hdetect, hmark]
  dsimp only
  rw [List.drop_left]
  exact decodeFrom_encode codec origin _

end Bindery.Text
