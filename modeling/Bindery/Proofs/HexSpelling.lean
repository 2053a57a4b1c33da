import Bindery.Proofs.ConcealedText

/-!
# The spellings of bytes in hexadecimal digits

The case of its digits does not matter where a text is read. A text that gives some bytes has two
digits for each of them, so it is longer than that just when it holds something else: a marker in
front or a blank. Otherwise it is the digits of the bytes up to their case.
-/

namespace Bindery.Hex

/-- Lowering changes nothing outside ASCII. -/
theorem apply_toLower {α : Type} {f : Char → α}
    (h : ∀ n < 0x80, f (Char.ofNat n).toLower = f (Char.ofNat n)) (c : Char) :
    f c.toLower = f c := by
  by_cases hc : c.toNat < 0x80
  · have hascii := h c.toNat hc
    rwa [Char.ofNat_toNat] at hascii
  · have hsame : c.toLower = c := by
      unfold Char.toLower
      rw [dif_neg]
      rintro ⟨-, hlast⟩
      exact hc (lt_of_le_of_lt (UInt32.le_iff_toNat_le.mp hlast) (by decide))
    rw [hsame]

theorem digitValue?_toLower (c : Char) : digitValue? c.toLower = digitValue? c :=
  apply_toLower (by decide) c

theorem isBlank_toLower (c : Char) : isBlank c.toLower = isBlank c :=
  apply_toLower (by decide) c

theorem readPairs_map_toLower (cs : List Char) :
    readPairs (cs.map Char.toLower) = readPairs cs := by
  induction cs using readPairs.induct with
  | case1 => rfl
  | case2 c hc => simp [readPairs, isBlank_toLower, hc]
  | case3 c hc => simp [readPairs, isBlank_toLower, hc]
  | case4 c d rest hc ih =>
    rw [List.map_cons, List.map_cons, readPairs, readPairs, isBlank_toLower, if_pos hc, if_pos hc,
      ← List.map_cons, ih]
  | case5 c d rest hc ih =>
    rw [List.map_cons, List.map_cons, readPairs, readPairs, isBlank_toLower, if_neg hc, if_neg hc,
      digitValue?_toLower, digitValue?_toLower, ih]

/-- A digit of either case is the lowercase digit of its value. -/
theorem toLower_of_digitValue? {c : Char} {n : Nat} (h : digitValue? c = some n) :
    n < 16 ∧ c.toLower = digit n := by
  have hascii : c.toNat < 0x80 := by
    unfold digitValue? at h
    simp only [Char.le_def, UInt32.le_iff_toNat_le] at h
    split at h
    · rename_i hrange
      exact lt_of_le_of_lt hrange.2 (by decide)
    split at h
    · rename_i hrange
      exact lt_of_le_of_lt hrange.2 (by decide)
    split at h
    · rename_i hrange
      exact lt_of_le_of_lt hrange.2 (by decide)
    · cases h
  have hall : ∀ m < 0x80, ∀ k ∈ digitValue? (Char.ofNat m),
      k < 16 ∧ (Char.ofNat m).toLower = digit k := by decide
  have hc := hall c.toNat hascii n
  rw [Char.ofNat_toNat] at hc
  exact hc h

theorem digitsOf_ofNat {high low : Nat} (hhigh : high < 16) (hlow : low < 16) :
    digitsOf (UInt8.ofNat (16 * high + low)) = [digit high, digit low] := by
  have hvalue : (UInt8.ofNat (16 * high + low)).toNat = 16 * high + low :=
    UInt8.toNat_ofNat_of_lt' (by change _ < 256; omega)
  rw [digitsOf, hvalue, Nat.mul_add_div (by decide), Nat.div_eq_of_lt hlow, Nat.add_zero,
    Nat.mul_add_mod, Nat.mod_eq_of_lt hlow]

/-- Without blanks nothing but digits is read. -/
theorem map_toLower_of_readPairs {cs : List Char} {b : Bytes} (h : readPairs cs = some b)
    (hblank : ∀ c ∈ cs, isBlank c = false) : cs.map Char.toLower = b.flatMap digitsOf := by
  induction cs using readPairs.induct generalizing b with
  | case1 =>
    cases h
    rfl
  | case2 c hc => simp [hblank c List.mem_cons_self] at hc
  | case3 c hc =>
    rw [readPairs, if_neg hc] at h
    cases h
  | case4 c d rest hc => simp [hblank c List.mem_cons_self] at hc
  | case5 c d rest hc ih =>
    rw [readPairs, if_neg hc] at h
    simp only [Option.bind_eq_bind, Option.bind_eq_some_iff, Option.pure_def, Option.some.injEq]
      at h
    obtain ⟨high, hhigh, low, hlow, tail, htail, rfl⟩ := h
    obtain ⟨hhigh, hc⟩ := toLower_of_digitValue? hhigh
    obtain ⟨hlow, hd⟩ := toLower_of_digitValue? hlow
    have hrest := ih htail fun e he =>
      hblank e (List.mem_cons_of_mem c (List.mem_cons_of_mem d he))
    rw [List.map_cons, List.map_cons, hc, hd, hrest, List.flatMap_cons, digitsOf_ofNat hhigh hlow]
    rfl

theorem length_flatMap_digitsOf (b : Bytes) : (b.flatMap digitsOf).length = 2 * b.length := by
  induction b with
  | nil => rfl
  | cons x b ih =>
    rw [List.flatMap_cons, List.length_append, ih, List.length_cons]
    change 2 + _ = _
    omega

theorem dropMarkerChars_cases (cs : List Char) :
    dropMarkerChars cs = cs ∨ ∃ x, (x = 'x' ∨ x = 'X') ∧ cs = '0' :: x :: dropMarkerChars cs := by
  unfold dropMarkerChars
  split
  · exact .inr ⟨'x', .inl rfl, rfl⟩
  · exact .inr ⟨'X', .inr rfl, rfl⟩
  · exact .inl rfl

theorem dropMarkerChars_of_map_toLower {cs : List Char} {b : Bytes}
    (h : cs.map Char.toLower = b.flatMap digitsOf) : dropMarkerChars cs = cs := by
  rcases dropMarkerChars_cases cs with hsame | ⟨x, hx, hcs⟩
  · exact hsame
  -- A lowered marker is one too, and the digits of bytes start with none.
  have hmarked : dropMarkerChars (cs.map Char.toLower) =
      (dropMarkerChars cs).map Char.toLower := by
    rw [hcs]
    rcases hx with rfl | rfl
    · rfl
    · rfl
  have hlength := congrArg List.length hcs
  rw [h, dropMarkerChars_flatMap, ← h] at hmarked
  have hshort := congrArg List.length hmarked
  rw [List.length_map, List.length_map] at hshort
  rw [List.length_cons, List.length_cons] at hlength
  omega

theorem toLower_eq_encode {s : String} {b : Bytes} :
    s.toLower = encode b ↔ s.toList.map Char.toLower = b.flatMap digitsOf := by
  have hlower : s.toLower.toList = s.toList.map Char.toLower := String.toList_map
  rw [← String.toList_inj, hlower, encode, String.toList_ofList]

/-- A text that is the digits of some bytes, in whatever case, gives the bytes. -/
theorem decode?_of_toLower {s : String} {b : Bytes} (h : s.toLower = encode b) :
    decode? s = some b := by
  have hchars := toLower_eq_encode.mp h
  rw [decode?, dropMarkerChars_of_map_toLower hchars, ← readPairs_map_toLower, hchars,
    readPairs_flatMap]

theorem length_of_toLower {s : String} {b : Bytes} (h : s.toLower = encode b) :
    s.length = 2 * b.length := by
  rw [← length_flatMap_digitsOf, ← toLower_eq_encode.mp h, List.length_map, String.length_toList]

/-- A text without a marker in front and without blanks. -/
structure Bare (s : String) : Prop where
  unmarked : dropMarker s = s
  solid : ∀ c ∈ s.toList, isBlank c = false

theorem Bare.dropMarkerChars_eq {s : String} (h : Bare s) :
    dropMarkerChars s.toList = s.toList := by
  have hchars := congrArg String.toList h.unmarked
  rwa [dropMarker, String.toList_ofList] at hchars

/-- A text that gives some bytes is their digits unless it holds something else. -/
theorem bare_iff_of_decode? {s : String} {b : Bytes} (h : decode? s = some b) :
    Bare s ↔ s.toLower = encode b := by
  constructor
  · intro hbare
    rw [decode?, hbare.dropMarkerChars_eq] at h
    exact toLower_eq_encode.mpr (map_toLower_of_readPairs h hbare.solid)
  · intro hlower
    have hchars := toLower_eq_encode.mp hlower
    refine ⟨?_, fun c hc => ?_⟩
    · rw [dropMarker, dropMarkerChars_of_map_toLower hchars, String.ofList_toList]
    · have hdigit : c.toLower ∈ b.flatMap digitsOf := by
        rw [← hchars]
        exact List.mem_map_of_mem hc
      obtain ⟨x, -, hx⟩ := List.mem_flatMap.mp hdigit
      have hbyte := x.toNat_lt
      rw [← isBlank_toLower]
      rcases List.mem_pair.mp hx with hx | hx
      · rw [hx, isBlank_digit (by omega)]
      · rw [hx, isBlank_digit (by omega)]

/-- Two characters for every byte leave no room for a marker or a blank. -/
theorem toLower_of_length {s : String} {b : Bytes} (h : decode? s = some b)
    (hlength : s.length = 2 * b.length) : s.toLower = encode b := by
  have hread : readPairs (dropMarkerChars s.toList) = some b := h
  have hcount := (readPairs_eq_some hread).1
  have hdigits := List.countP_le_length (p := isHexDigit) (l := dropMarkerChars s.toList)
  rw [← String.length_toList] at hlength
  have hunmarked : dropMarkerChars s.toList = s.toList := by
    rcases dropMarkerChars_cases s.toList with hsame | ⟨x, -, hmarked⟩
    · exact hsame
    · have hlonger := congrArg List.length hmarked
      rw [List.length_cons, List.length_cons] at hlonger
      omega
  rw [hunmarked] at hread hcount
  have hall : ∀ c ∈ s.toList, isHexDigit c := List.countP_eq_length.mp (hcount.trans hlength.symm)
  apply toLower_eq_encode.mpr
  apply map_toLower_of_readPairs hread
  intro c hc
  apply Bool.eq_false_iff.mpr
  intro hblank
  have hdigit := hall c hc
  rw [isHexDigit_of_isBlank hblank] at hdigit
  cases hdigit

end Bindery.Hex
