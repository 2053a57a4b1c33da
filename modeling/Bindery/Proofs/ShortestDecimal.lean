import Bindery.Proofs.Rounding

/-!
# Shortest decimals read back

The search for a decimal goes from a coarse grid to finer ones and takes a decimal only from the
interval that rounds to the number. Eighteen digits are enough to find one: on their grid half a
step is less than what the interval extends on either side.
-/

namespace Bindery.Binary64

variable {s : ℕ} {e : ℤ} {i : Interval}

theorem Interval.holds_iff (hden : 0 < i.den) (n : ℕ) (unit : ℤ) :
    i.holds n unit = true ↔ i.Covers (n * 10 ^ unit) := by
  have hpos : (0 : ℚ) < i.den := by exact_mod_cast hden
  unfold Interval.holds Interval.Covers
  dsimp only
  rw [div_le_iff₀ hpos, le_div_iff₀ hpos, div_lt_iff₀ hpos, lt_div_iff₀ hpos]
  by_cases hunit : 0 ≤ unit
  · rw [zpow_of_nonneg 10 hunit]
    simp only [hunit, if_true, Nat.pow_eq, mul_one]
    split <;> simp only [Bool.and_eq_true, decide_eq_true_eq] <;> norm_cast
  · have hscale : (0 : ℚ) < 10 ^ (-unit).toNat := by positivity
    rw [zpow_of_nonpos 10 (by omega), ← div_eq_mul_inv, div_mul_eq_mul_div, le_div_iff₀ hscale,
      div_le_iff₀ hscale, lt_div_iff₀ hscale, div_lt_iff₀ hscale]
    simp only [hunit, if_false, Nat.pow_eq]
    split <;> simp only [Bool.and_eq_true, decide_eq_true_eq] <;> norm_cast

theorem abs_nearest_sub_le {num den : ℕ} (hden : 0 < den) :
    |((if num % den = 0 then num / den else roundHalfEven num den : ℕ) : ℚ) - num / den| ≤
      1 / 2 := by
  split
  · rename_i hexact
    rw [div_eq_add_rem hden, hexact]
    norm_num
  · exact abs_roundHalfEven_sub_le hden

/-- The first choice on a grid is at most half a step away from the midpoint. -/
theorem Interval.candidate?_eq (hden : 0 < i.den) (unit : ℤ) :
    ∃ first second : ℕ,
      i.candidate? unit = (if i.holds first unit then some first
        else if i.holds second unit then some second else none) ∧
      |(first * 10 ^ unit : ℚ) - i.mid / i.den| ≤ 1 / 2 * 10 ^ unit := by
  have hstep : (0 : ℚ) < 10 ^ unit := by positivity
  refine ⟨_, _, rfl, ?_⟩
  have hscaled : (i.mid / i.den : ℚ) =
      ((if 0 ≤ unit then i.mid else i.mid * Nat.pow 10 (-unit).toNat : ℕ) : ℚ)
        / (if 0 ≤ unit then i.den * Nat.pow 10 unit.toNat else i.den : ℕ) * 10 ^ unit := by
    by_cases hunit : 0 ≤ unit
    · rw [if_pos hunit, if_pos hunit, zpow_of_nonneg 10 hunit, Nat.pow_eq]
      push_cast
      field_simp
    · rw [if_neg hunit, if_neg hunit, zpow_of_nonpos 10 (by omega), Nat.pow_eq]
      push_cast
      field_simp
  rw [hscaled, ← sub_mul, abs_mul, abs_of_pos hstep]
  gcongr
  refine abs_nearest_sub_le ?_
  split
  · exact Nat.mul_pos hden (Nat.pow_pos (by decide))
  · exact hden

theorem Interval.holds_of_candidate? (hden : 0 < i.den) {unit : ℤ} {d : ℕ}
    (h : i.candidate? unit = some d) : i.holds d unit = true := by
  obtain ⟨first, second, heq, -⟩ := i.candidate?_eq hden unit
  rw [heq] at h
  split_ifs at h with hfirst hsecond
  · exact Option.some.inj h ▸ hfirst
  · exact Option.some.inj h ▸ hsecond

/-- On a grid whose half step is shorter than the interval extends on either side there is a
candidate. -/
theorem Interval.candidate?_ne_none (hden : 0 < i.den) {unit : ℤ}
    (hlow : (i.low / i.den : ℚ) < i.mid / i.den - 1 / 2 * 10 ^ unit)
    (hhigh : (i.mid / i.den : ℚ) + 1 / 2 * 10 ^ unit < i.high / i.den) :
    i.candidate? unit ≠ none := by
  obtain ⟨first, second, heq, hnear⟩ := i.candidate?_eq hden unit
  obtain ⟨hbelow, habove⟩ := abs_le.mp hnear
  have hfirst : i.holds first unit = true := by
    rw [i.holds_iff hden, Interval.Covers]
    split <;> constructor <;> linarith
  rw [heq, if_pos hfirst]
  exact Option.some_ne_none first

/-- The search ends with a decimal of the interval once one of its grids has a candidate. -/
theorem covers_firstCandidate (hden : 0 < i.den) {n k : ℕ} {unit : ℤ} (hk : k < n)
    (h : i.candidate? (unit - k) ≠ none) : i.Covers (firstCandidate i unit n).value := by
  induction n generalizing unit k with
  | zero => omega
  | succ n ih =>
    unfold firstCandidate
    cases hcandidate : i.candidate? unit with
    | some d =>
      exact (i.holds_iff hden d unit).mp (i.holds_of_candidate? hden hcandidate)
    | none =>
      cases k with
      | zero => exact absurd hcandidate (by simpa using h)
      | succ k =>
        refine ih (k := k) (by omega) ?_
        rwa [show unit - 1 - (k : ℤ) = unit - (k + 1 : ℕ) by push_cast; omega]

theorem Decimal.value_normalize (d : Decimal) (fuel : ℕ) : (d.normalize fuel).value = d.value := by
  induction fuel generalizing d with
  | zero => rfl
  | succ fuel ih =>
    unfold Decimal.normalize
    split
    · rename_i hzero
      obtain ⟨n, hn⟩ := Nat.dvd_of_mod_eq_zero hzero.2
      rw [ih, value, value, hn, Nat.mul_div_cancel_left n (by decide), zpow_add_one₀ (by norm_num)]
      push_cast
      ring
    · rfl

/-- The number is at least the power of ten below its ceiling. -/
theorem ten_zpow_decimalCeiling_le (hden : 0 < i.den) (hmid : 0 < i.mid) :
    (10 : ℚ) ^ (decimalCeiling i - 1) ≤ i.mid / i.den := by
  have hden' : (0 : ℚ) < i.den := by exact_mod_cast hden
  have hmid' : (0 : ℚ) < i.mid := by exact_mod_cast hmid
  unfold decimalCeiling
  split
  · rename_i hle
    have hquot : 0 < i.mid / i.den := Nat.div_pos hle hden
    have hcount : 0 < countDigits (i.mid / i.den) := Nat.length_toDigits_pos
    have hlow := (countDigits_spec hquot).1
    have hle : 10 ^ (countDigits (i.mid / i.den) - 1) * i.den ≤ i.mid :=
      (Nat.mul_le_mul_right _ hlow).trans (Nat.div_mul_le_self _ _)
    rw [le_div_iff₀ hden', show (countDigits (i.mid / i.den) : ℤ) - 1 =
      (countDigits (i.mid / i.den) - 1 : ℕ) by omega, zpow_natCast]
    exact_mod_cast hle
  · rename_i hlt
    have hquot : 0 < i.den / i.mid := Nat.div_pos (by omega) hmid
    have hhigh := (countDigits_spec hquot).2
    have hle : i.den ≤ i.mid * 10 ^ countDigits (i.den / i.mid) := by
      have := Nat.lt_mul_div_succ i.den hmid
      exact this.le.trans (Nat.mul_le_mul_left _ hhigh)
    rw [sub_sub_cancel_left, zpow_neg, zpow_natCast, le_div_iff₀ hden',
      inv_mul_le_iff₀ (by positivity), mul_comm]
    exact_mod_cast hle

theorem half_le_stepBelow (s : ℕ) (e : ℤ) : 1 / 2 ≤ stepBelow s e := by
  unfold stepBelow
  split <;> norm_num

/-- Seventeen places below the first digit, a step of the decimal grid is shorter than what the
interval extends by. -/
theorem FiniteTerms.ten_zpow_lt (h : FiniteTerms s e) {c : ℤ}
    (hc : (10 : ℚ) ^ (c - 1) ≤ s * 2 ^ e) : (10 : ℚ) ^ (c - 18) < stepBelow s e * 2 ^ e := by
  have hstep : (0 : ℚ) < 2 ^ e := by positivity
  have hs : (s : ℚ) < 10 ^ 16 := by
    have : s < 10 ^ 16 := h.lt.trans (by decide)
    exact_mod_cast this
  have hbelow := half_le_stepBelow s e
  have hshift : (10 : ℚ) ^ (c - 1) = 10 ^ 17 * 10 ^ (c - 18) := by
    rw [← zpow_natCast, ← zpow_add₀ (by norm_num)]
    congr 1
    push_cast
    omega
  calc (10 : ℚ) ^ (c - 18) = 10 ^ (c - 1) / 10 ^ 17 := by rw [hshift]; field_simp
    _ ≤ s * 2 ^ e / 10 ^ 17 := by gcongr
    _ < 10 ^ 16 * 2 ^ e / 10 ^ 17 := by gcongr
    _ = 1 / 10 * 2 ^ e := by ring
    _ ≤ stepBelow s e * 2 ^ e := by gcongr; linarith

/-- The decimal that is found lies in the interval of the number. -/
theorem covers_shortest (h : FiniteTerms s e) : (interval s e).Covers (shortest s e).value := by
  have hden := interval_den_pos s e
  have hvalue := interval_mid s e
  have hmid : 0 < (interval s e).mid := by
    rcases Nat.eq_zero_or_pos (interval s e).mid with hzero | hpos
    · have hs : (0 : ℚ) < s := by exact_mod_cast h.pos
      rw [hzero, Nat.cast_zero, zero_div] at hvalue
      exact absurd hvalue (by positivity)
    · exact hpos
  have hceiling := ten_zpow_decimalCeiling_le hden hmid
  rw [hvalue] at hceiling
  have hstep := h.ten_zpow_lt hceiling
  have hbelow := stepBelow_le s e
  have hpos : (0 : ℚ) < 2 ^ e := by positivity
  unfold shortest
  dsimp only
  rw [Decimal.value_normalize]
  refine covers_firstCandidate hden (k := 18) (by decide) (Interval.candidate?_ne_none hden ?_ ?_)
  · rw [interval_low h.pos, hvalue]
    push_cast
    linarith
  · rw [interval_high, hvalue]
    push_cast
    nlinarith

theorem shortest_digits_pos (h : FiniteTerms s e) : 0 < (shortest s e).digits := by
  have hpos := (h.covers_bounds (covers_shortest h)).1
  by_contra hzero
  rw [Decimal.value, show (shortest s e).digits = 0 by omega, Nat.cast_zero, zero_mul] at hpos
  exact absurd hpos (not_lt.mpr (by positivity))

end Bindery.Binary64
