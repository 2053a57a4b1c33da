import Bindery.Binary64.Decimal
import Mathlib.Algebra.Order.Field.Power
import Mathlib.Tactic.FieldSimp
import Mathlib.Tactic.Linarith
import Mathlib.Tactic.Positivity
import Mathlib.Tactic.Ring

/-!
# Rounding to double precision

A quotient is rounded on the grid whose numbers of 53 bits enclose it. The reals that round to
`s * 2 ^ e` reach half a step up and, except right above a power of two, half a step down; the ends
count if `s` is even. `ofDecimal_eq` says that every decimal in this interval reads as the number
itself.
-/

namespace Bindery.Binary64

variable {num den r s : ℕ} {e : ℤ} {q : ℚ}

theorem zpow_of_nonneg (b : ℚ) (h : 0 ≤ e) : b ^ e = b ^ e.toNat := by
  rw [← zpow_natCast, Int.toNat_of_nonneg h]

theorem zpow_of_nonpos (b : ℚ) (h : e ≤ 0) : b ^ e = (b ^ (-e).toNat)⁻¹ := by
  rw [← zpow_natCast, Int.toNat_of_nonneg (by omega), zpow_neg, inv_inv]

theorem div_eq_add_rem (hden : 0 < den) :
    (num / den : ℚ) = (num / den : ℕ) + (num % den : ℕ) / (den : ℚ) := by
  have hpos : (0 : ℚ) < den := by exact_mod_cast hden
  have hsplit : (den * (num / den : ℕ) + (num % den : ℕ) : ℚ) = num := by
    exact_mod_cast Nat.div_add_mod num den
  rw [div_eq_iff hpos.ne', add_mul, div_mul_cancel₀ _ hpos.ne']
  linarith

/-- The three cases of rounding, by the fraction that is cut off. -/
theorem roundHalfEven_cases (hden : 0 < den) :
    ∃ f : ℚ, 0 ≤ f ∧ f < 1 ∧ (num / den : ℚ) = (num / den : ℕ) + f ∧
      (f < 1 / 2 ∧ roundHalfEven num den = num / den ∨
        1 / 2 < f ∧ roundHalfEven num den = num / den + 1 ∨
        f = 1 / 2 ∧ roundHalfEven num den = num / den + num / den % 2) := by
  have hpos : (0 : ℚ) < den := by exact_mod_cast hden
  have hrem : ((num % den : ℕ) : ℚ) < den := by exact_mod_cast Nat.mod_lt num hden
  refine ⟨(num % den : ℕ) / den, by positivity, by rwa [div_lt_one hpos], div_eq_add_rem hden, ?_⟩
  rw [div_lt_div_iff₀ hpos two_pos, div_lt_div_iff₀ two_pos hpos,
    div_eq_div_iff hpos.ne' two_ne_zero]
  unfold roundHalfEven
  rcases lt_trichotomy (2 * (num % den)) den with h | h | h
  · refine .inl ⟨?_, if_pos h⟩
    have : ((2 * (num % den) : ℕ) : ℚ) < den := by exact_mod_cast h
    push_cast at this
    linarith
  · refine .inr (.inr ⟨?_, ?_⟩)
    · have : ((2 * (num % den) : ℕ) : ℚ) = den := by exact_mod_cast h
      push_cast at this
      linarith
    · simp only
      rw [if_neg (by omega), if_neg (by omega)]
  · refine .inr (.inl ⟨?_, ?_⟩)
    · have : (den : ℚ) < (2 * (num % den) : ℕ) := by exact_mod_cast h
      push_cast at this
      linarith
    · simp only
      rw [if_neg (by omega), if_pos h]

theorem abs_roundHalfEven_sub_le (hden : 0 < den) :
    |(roundHalfEven num den : ℚ) - num / den| ≤ 1 / 2 := by
  obtain ⟨f, hf, hf', hquot, hcases⟩ := @roundHalfEven_cases num den hden
  rw [hquot, abs_le]
  rcases hcases with ⟨hhalf, h⟩ | ⟨hhalf, h⟩ | ⟨hhalf, h⟩
  · rw [h]
    constructor <;> linarith
  · rw [h]
    push_cast
    constructor <;> linarith
  · rcases Nat.mod_two_eq_zero_or_one (num / den) with hparity | hparity
    · rw [h, hparity]
      constructor <;> push_cast <;> linarith
    · rw [h, hparity]
      constructor <;> push_cast <;> linarith

theorem roundHalfEven_eq (hden : 0 < den) (hlow : (r : ℚ) - 1 / 2 ≤ num / den)
    (hhigh : (num / den : ℚ) ≤ r + 1 / 2)
    (htie : r % 2 = 0 ∨ ((r : ℚ) - 1 / 2 < num / den ∧ (num / den : ℚ) < r + 1 / 2)) :
    roundHalfEven num den = r := by
  obtain ⟨f, hf, hf', hquot, hcases⟩ := @roundHalfEven_cases num den hden
  rw [hquot] at hlow hhigh htie
  generalize num / den = n at *
  have hle : r ≤ n + 1 := by
    have : (r : ℚ) < (n + 2 : ℕ) := by push_cast; linarith
    have : r < n + 2 := by exact_mod_cast this
    omega
  have hge : n ≤ r := by
    have : (n : ℚ) < (r + 1 : ℕ) := by push_cast; linarith
    have : n < r + 1 := by exact_mod_cast this
    omega
  obtain rfl | rfl : r = n ∨ r = n + 1 := by omega
  · rcases hcases with ⟨-, h⟩ | ⟨hhalf, -⟩ | ⟨hhalf, h⟩
    · exact h
    · linarith
    · rcases htie with heven | ⟨-, hlt⟩
      · omega
      · linarith
  · push_cast at hlow htie
    rcases hcases with ⟨hhalf, -⟩ | ⟨-, h⟩ | ⟨hhalf, h⟩
    · linarith
    · exact h
    · rcases htie with heven | ⟨hlt, -⟩
      · omega
      · linarith

/-- A quotient lies between the powers of two that the lengths of its terms differ by. -/
theorem two_zpow_log2 (hnum : 0 < num) (hden : 0 < den) :
    (2 : ℚ) ^ ((num.log2 : ℤ) - den.log2 - 1) < num / den ∧
      (num / den : ℚ) < 2 ^ ((num.log2 : ℤ) - den.log2 + 1) := by
  have hpos : (0 : ℚ) < den := by exact_mod_cast hden
  have hnumlow : ((2 : ℚ) ^ num.log2) ≤ num := by exact_mod_cast Nat.log2_self_le hnum.ne'
  have hnumhigh : (num : ℚ) < 2 ^ (num.log2 + 1) := by exact_mod_cast Nat.lt_log2_self
  have hdenlow : ((2 : ℚ) ^ den.log2) ≤ den := by exact_mod_cast Nat.log2_self_le hden.ne'
  have hdenhigh : (den : ℚ) < 2 ^ (den.log2 + 1) := by exact_mod_cast Nat.lt_log2_self
  constructor
  · rw [lt_div_iff₀ hpos]
    calc (2 : ℚ) ^ ((num.log2 : ℤ) - den.log2 - 1) * den
        < 2 ^ ((num.log2 : ℤ) - den.log2 - 1) * 2 ^ (den.log2 + 1) := by gcongr
      _ = 2 ^ num.log2 := by
        rw [← zpow_natCast, ← zpow_natCast, ← zpow_add₀ two_ne_zero]
        congr 1
        omega
      _ ≤ num := hnumlow
  · rw [div_lt_iff₀ hpos]
    calc (num : ℚ) < 2 ^ (num.log2 + 1) := hnumhigh
      _ = 2 ^ ((num.log2 : ℤ) - den.log2 + 1) * 2 ^ den.log2 := by
        rw [← zpow_natCast, ← zpow_natCast, ← zpow_add₀ two_ne_zero]
        congr 1
        omega
      _ ≤ 2 ^ ((num.log2 : ℤ) - den.log2 + 1) * den := by gcongr

/-- The test by which a guess at the grid is found to be too coarse. -/
theorem lt_two_zpow_iff (hden : 0 < den) (num : ℕ) (e : ℤ) :
    (if 0 ≤ e then decide (num < hiddenBit * den * Nat.pow 2 e.toNat)
      else decide (num * Nat.pow 2 (-e).toNat < hiddenBit * den)) = true ↔
      (num / den : ℚ) < 2 ^ (e + 52) := by
  have hpos : (0 : ℚ) < den := by exact_mod_cast hden
  rw [zpow_add₀ two_ne_zero, div_lt_iff₀ hpos]
  split
  · rename_i he
    rw [decide_eq_true_iff, zpow_of_nonneg 2 he, ← Nat.cast_lt (α := ℚ)]
    simp only [hiddenBit, Nat.pow_eq]
    push_cast
    ring_nf
  · rename_i he
    rw [decide_eq_true_iff, zpow_of_nonpos 2 (by omega), ← Nat.cast_lt (α := ℚ)]
    simp only [hiddenBit, Nat.pow_eq]
    push_cast
    have hscale : (0 : ℚ) < 2 ^ (-e).toNat := by positivity
    rw [mul_assoc, ← div_eq_inv_mul, lt_div_iff₀ hscale]

/-- The grid is the coarsest on which the quotient is of 53 bits, and never finer than the finest.
-/
theorem gridExponent_spec (hnum : 0 < num) (hden : 0 < den) :
    ∃ g : ℤ, gridExponent num den = max (-1074) g ∧
      (2 : ℚ) ^ (g + 52) ≤ num / den ∧ (num / den : ℚ) < 2 ^ (g + 53) := by
  have hpos : (0 : ℚ) < den := by exact_mod_cast hden
  obtain ⟨hlow, hhigh⟩ := two_zpow_log2 hnum hden
  obtain ⟨guess, hguess⟩ : ∃ guess : ℤ, guess = (num.log2 : ℤ) - den.log2 - 52 := ⟨_, rfl⟩
  rw [show (num.log2 : ℤ) - den.log2 - 1 = guess + 51 by omega] at hlow
  rw [show (num.log2 : ℤ) - den.log2 + 1 = guess + 53 by omega] at hhigh
  have htest := lt_two_zpow_iff hden num guess
  unfold gridExponent
  dsimp only
  rw [← hguess]
  by_cases hbelow : (num / den : ℚ) < 2 ^ (guess + 52)
  · refine ⟨guess - 1, by rw [if_pos (htest.mpr hbelow)], ?_, ?_⟩
    · rw [show guess - 1 + 52 = guess + 51 by omega]
      exact hlow.le
    · rwa [show guess - 1 + 53 = guess + 52 by omega]
  · exact ⟨guess, by rw [if_neg fun h => hbelow (htest.mp h)], not_lt.mp hbelow, hhigh⟩

/-- A quotient that is within half a step of `r` is rounded to it. -/
theorem roundOnGrid_eq (hden : 0 < den) (hlow : ((r : ℚ) - 1 / 2) * 2 ^ e ≤ num / den)
    (hhigh : (num / den : ℚ) ≤ (r + 1 / 2) * 2 ^ e)
    (htie : r % 2 = 0 ∨
      (((r : ℚ) - 1 / 2) * 2 ^ e < num / den ∧ (num / den : ℚ) < (r + 1 / 2) * 2 ^ e)) :
    (if 0 ≤ e then roundHalfEven num (den * Nat.pow 2 e.toNat)
      else roundHalfEven (num * Nat.pow 2 (-e).toNat) den) = r := by
  have hstep : (0 : ℚ) < 2 ^ e := by positivity
  rw [← le_div_iff₀ hstep] at hlow
  rw [← div_le_iff₀ hstep] at hhigh
  rw [← lt_div_iff₀ hstep, ← div_lt_iff₀ hstep] at htie
  split
  · rename_i he
    have hscaled : (num / den / 2 ^ e : ℚ) = num / (den * Nat.pow 2 e.toNat : ℕ) := by
      rw [zpow_of_nonneg 2 he, div_div, Nat.pow_eq]
      push_cast
      rfl
    rw [hscaled] at hlow hhigh htie
    refine roundHalfEven_eq (Nat.mul_pos hden ?_) hlow hhigh htie
    rw [Nat.pow_eq]
    positivity
  · rename_i he
    have hscaled : (num / den / 2 ^ e : ℚ) = (num * Nat.pow 2 (-e).toNat : ℕ) / den := by
      rw [zpow_of_nonpos 2 (by omega), div_inv_eq_mul, div_mul_eq_mul_div, Nat.pow_eq]
      push_cast
      rfl
    rw [hscaled] at hlow hhigh htie
    exact roundHalfEven_eq hden hlow hhigh htie

def Interval.Covers (i : Interval) (q : ℚ) : Prop :=
  if i.closed then (i.low / i.den : ℚ) ≤ q ∧ q ≤ i.high / i.den
  else (i.low / i.den : ℚ) < q ∧ q < i.high / i.den

def stepBelow (s : ℕ) (e : ℤ) : ℚ := if s = hiddenBit ∧ -1074 < e then 1 / 2 else 1

theorem interval_scale (s : ℕ) (e : ℤ) :
    ((if 0 ≤ e then Nat.pow 2 e.toNat else 1 : ℕ) : ℚ) / (interval s e).den = 2 ^ e / 4 := by
  unfold interval
  dsimp only
  split
  · rename_i he
    rw [zpow_of_nonneg 2 he, Nat.pow_eq]
    push_cast
    rfl
  · rename_i he
    rw [zpow_of_nonpos 2 (by omega), Nat.pow_eq]
    push_cast
    field_simp

theorem interval_den_pos (s : ℕ) (e : ℤ) : 0 < (interval s e).den := by
  unfold interval
  dsimp only
  split
  · decide
  · rw [Nat.pow_eq]
    positivity

theorem interval_mid (s : ℕ) (e : ℤ) :
    ((interval s e).mid / (interval s e).den : ℚ) = s * 2 ^ e := by
  have hscale := interval_scale s e
  have hmid : (interval s e).mid = 4 * s * if 0 ≤ e then Nat.pow 2 e.toNat else 1 := rfl
  rw [hmid, Nat.cast_mul, mul_div_assoc, hscale]
  push_cast
  ring

theorem interval_high (s : ℕ) (e : ℤ) :
    ((interval s e).high / (interval s e).den : ℚ) = (s + 1 / 2) * 2 ^ e := by
  have hscale := interval_scale s e
  have hhigh : (interval s e).high = (4 * s + 2) * if 0 ≤ e then Nat.pow 2 e.toNat else 1 := rfl
  rw [hhigh, Nat.cast_mul, mul_div_assoc, hscale]
  push_cast
  ring

theorem interval_low (hs : 0 < s) (e : ℤ) :
    ((interval s e).low / (interval s e).den : ℚ) = (s - stepBelow s e / 2) * 2 ^ e := by
  have hscale := interval_scale s e
  have hlow : (interval s e).low = (4 * s - if s = hiddenBit && -1074 < e then 1 else 2) *
      if 0 ≤ e then Nat.pow 2 e.toNat else 1 := rfl
  rw [hlow, Nat.cast_mul, mul_div_assoc, hscale, stepBelow, Nat.cast_sub (by split <;> omega)]
  by_cases hquarter : s = hiddenBit ∧ -1074 < e
  · rw [if_pos (by simpa using hquarter), if_pos hquarter]
    push_cast
    ring
  · rw [if_neg (by simpa using hquarter), if_neg hquarter]
    push_cast
    ring

theorem interval_covers_iff (hs : 0 < s) (e : ℤ) (q : ℚ) :
    (interval s e).Covers q ↔
      ((s - stepBelow s e / 2) * 2 ^ e ≤ q ∧ q ≤ (s + 1 / 2) * 2 ^ e) ∧
        (s % 2 = 0 ∨ (s - stepBelow s e / 2) * 2 ^ e < q ∧ q < (s + 1 / 2) * 2 ^ e) := by
  have hclosed : (interval s e).closed = decide (s % 2 = 0) := rfl
  rw [Interval.Covers, interval_low hs, interval_high, hclosed]
  by_cases heven : s % 2 = 0
  · simp [heven]
  · simp only [heven, decide_false, Bool.false_eq_true, if_false, false_or]
    exact ⟨fun h => ⟨⟨h.1.le, h.2.le⟩, h⟩, And.right⟩

structure FiniteTerms (s : ℕ) (e : ℤ) : Prop where
  pos : 0 < s
  lt : s < 2 * hiddenBit
  least : -1074 ≤ e
  normal : s < hiddenBit → e = -1074
  bounded : e ≤ 971

theorem stepBelow_le (s : ℕ) (e : ℤ) : stepBelow s e ≤ 1 := by
  unfold stepBelow
  split <;> norm_num

theorem FiniteTerms.add_half_lt (h : FiniteTerms s e) : (s + 1 / 2 : ℚ) < 2 ^ (53 : ℤ) := by
  have hs : ((s + 1 : ℕ) : ℚ) ≤ (2 * hiddenBit : ℕ) := Nat.cast_le.mpr h.lt
  simp only [hiddenBit] at hs
  push_cast at hs
  norm_num
  linarith

/-- What rounds to a number is below the next power of two, so that its grid is not coarser. -/
theorem FiniteTerms.grid_le (h : FiniteTerms s e) {g : ℤ} (hgrid : (2 : ℚ) ^ (g + 52) ≤ q)
    (hq : q ≤ (s + 1 / 2) * 2 ^ e) : g ≤ e := by
  have hbound := h.add_half_lt
  have hpow : (2 : ℚ) ^ (g + 52) < 2 ^ (53 + e) := by
    calc (2 : ℚ) ^ (g + 52) ≤ (s + 1 / 2) * 2 ^ e := hgrid.trans hq
      _ < 2 ^ (53 : ℤ) * 2 ^ e := by gcongr
      _ = 2 ^ (53 + e) := (zpow_add₀ two_ne_zero _ _).symm
  have := (zpow_lt_zpow_iff_right₀ one_lt_two).mp hpow
  omega

/-- The grid is finer only where the number is a power of two and the quotient below it. -/
theorem FiniteTerms.of_grid_lt (h : FiniteTerms s e) {g : ℤ} (hgrid : q < (2 : ℚ) ^ (g + 53))
    (hq : (s - stepBelow s e / 2) * 2 ^ e ≤ q) (hlt : max (-1074) g < e) :
    s = hiddenBit ∧ g = e - 1 := by
  have hstep : (0 : ℚ) < 2 ^ e := by positivity
  have hnormal : hiddenBit ≤ s := by
    by_contra hsub
    have := h.normal (not_le.mp hsub)
    omega
  have hunder : q < 2 ^ (52 : ℤ) * 2 ^ e := by
    rw [← zpow_add₀ two_ne_zero]
    refine hgrid.trans_le (zpow_le_zpow_right₀ one_le_two ?_)
    omega
  have hle : s < hiddenBit + 1 := by
    have hdiff := lt_of_mul_lt_mul_right (hq.trans_lt hunder) hstep.le
    have hbelow := stepBelow_le s e
    have : (s : ℚ) < (hiddenBit + 1 : ℕ) := by
      simp only [hiddenBit]
      push_cast
      norm_num at hdiff
      linarith
    exact_mod_cast this
  have hpower : s = hiddenBit := by omega
  refine ⟨hpower, ?_⟩
  have hpow : (2 : ℚ) ^ (51 + e) < 2 ^ (g + 53) := by
    refine lt_of_le_of_lt ?_ (hq.trans_lt hgrid)
    rw [zpow_add₀ two_ne_zero, hpower]
    have hbelow := stepBelow_le hiddenBit e
    gcongr
    simp only [hiddenBit] at hbelow ⊢
    push_cast
    linarith
  have := (zpow_lt_zpow_iff_right₀ one_lt_two).mp hpow
  omega

theorem magnitudeBits_eq_of_grid {g : ℤ} (hnum : 0 < num) (hgrid : gridExponent num den = g)
    (hround : (if 0 ≤ g then roundHalfEven num (den * Nat.pow 2 g.toNat)
      else roundHalfEven (num * Nat.pow 2 (-g).toNat) den) = r) :
    magnitudeBits num den = min infinityBits ((g + 1074).toNat * hiddenBit + r) := by
  unfold magnitudeBits
  rw [if_neg hnum.ne']
  dsimp only
  rw [hgrid, hround]

/-- What lies in the interval of a number is rounded to it. -/
theorem magnitudeBits_eq (h : FiniteTerms s e) (hnum : 0 < num) (hden : 0 < den)
    (hcovers : (interval s e).Covers (num / den)) :
    magnitudeBits num den = (e + 1074).toNat * hiddenBit + s := by
  obtain ⟨⟨hlow, hhigh⟩, htie⟩ := (interval_covers_iff h.pos e _).mp hcovers
  have hfinite : (e + 1074).toNat * hiddenBit + s < infinityBits := by
    have := h.lt
    have := h.bounded
    simp only [hiddenBit, infinityBits] at *
    omega
  obtain ⟨g, hgrid, hglow, hghigh⟩ := gridExponent_spec hnum hden
  have hle := h.grid_le hglow hhigh
  have hleast := h.least
  by_cases hsame : max (-1074) g = e
  · have hbelow := stepBelow_le s e
    have hhalf : (s - 1 / 2 : ℚ) * 2 ^ e ≤ (s - stepBelow s e / 2) * 2 ^ e := by gcongr
    have hround := roundOnGrid_eq hden (hhalf.trans hlow) hhigh
      (htie.imp_right fun ⟨h, h'⟩ => ⟨hhalf.trans_lt h, h'⟩)
    rw [magnitudeBits_eq_of_grid hnum (hgrid.trans hsame) hround]
    exact min_eq_right hfinite.le
  · obtain ⟨rfl, rfl⟩ := h.of_grid_lt hghigh hlow (by omega)
    have hstep : (0 : ℚ) < 2 ^ (e - 1) := by positivity
    have hdouble : (2 : ℚ) ^ e = 2 * 2 ^ (e - 1) := by
      rw [← zpow_one_add₀ two_ne_zero, add_sub_cancel]
    have hquarter : stepBelow hiddenBit e = 1 / 2 := if_pos ⟨rfl, by omega⟩
    have hround := @roundOnGrid_eq num den (2 * hiddenBit) (e - 1) hden
      (by
        refine le_trans (le_of_eq ?_) hlow
        rw [hdouble, hquarter]
        push_cast
        ring)
      (by
        refine hghigh.le.trans ?_
        rw [add_comm, zpow_add₀ two_ne_zero]
        gcongr
        norm_num [hiddenBit])
      (.inl (by decide))
    rw [magnitudeBits_eq_of_grid hnum (hgrid.trans (by omega)) hround]
    simp only [hiddenBit, infinityBits] at *
    omega

def Decimal.value (d : Decimal) : ℚ := d.digits * 10 ^ d.exponent

theorem countDigits_spec {n : ℕ} (hn : 0 < n) :
    10 ^ (countDigits n - 1) ≤ n ∧ n < 10 ^ countDigits n := by
  unfold countDigits
  have hlength : 0 < (Nat.toDigits 10 n).length := Nat.length_toDigits_pos
  constructor
  · by_contra hlt
    by_cases hone : (Nat.toDigits 10 n).length = 1
    · rw [hone] at hlt
      omega
    · have := (Nat.length_toDigits_le_iff (by decide) (by omega)).mpr (not_le.mp hlt)
      omega
  · exact (Nat.length_toDigits_le_iff (by decide) hlength).mp le_rfl

/-- A decimal lies between the powers of ten that its digits and its exponent tell. -/
theorem Decimal.value_bounds {d : Decimal} (hd : 0 < d.digits) :
    (10 : ℚ) ^ ((countDigits d.digits : ℤ) + d.exponent - 1) ≤ d.value ∧
      d.value < 10 ^ ((countDigits d.digits : ℤ) + d.exponent) := by
  obtain ⟨hlow, hhigh⟩ := countDigits_spec hd
  have hcount : 0 < countDigits d.digits := Nat.length_toDigits_pos
  constructor
  · have hcast : ((10 : ℚ) ^ (countDigits d.digits - 1)) ≤ d.digits := by exact_mod_cast hlow
    calc (10 : ℚ) ^ ((countDigits d.digits : ℤ) + d.exponent - 1)
        = 10 ^ (countDigits d.digits - 1) * 10 ^ d.exponent := by
          rw [← zpow_natCast, ← zpow_add₀ (by norm_num)]
          congr 1
          omega
      _ ≤ d.value := by
          rw [value]
          gcongr
  · have hcast : (d.digits : ℚ) < 10 ^ countDigits d.digits := by exact_mod_cast hhigh
    rw [zpow_add₀ (by norm_num), value, zpow_natCast]
    gcongr

theorem ten_zpow_lt_two_zpow : (10 : ℚ) ^ (-331 : ℤ) < 2 ^ (-1075 : ℤ) := by
  calc (10 : ℚ) ^ (-331 : ℤ) < 10 ^ (-7 * 47 : ℤ) :=
        zpow_lt_zpow_right₀ (by norm_num) (by norm_num)
    _ = (10 ^ (-7 : ℤ)) ^ 47 := by rw [zpow_mul]; rfl
    _ ≤ (2 ^ (-23 : ℤ)) ^ 47 := pow_le_pow_left₀ (by positivity) (by norm_num) 47
    _ = 2 ^ (-23 * 47 : ℤ) := by rw [zpow_mul]; rfl
    _ ≤ 2 ^ (-1075 : ℤ) := zpow_le_zpow_right₀ one_le_two (by norm_num)

theorem two_zpow_lt_ten_zpow : (2 : ℚ) ^ (1024 : ℤ) < 10 ^ (310 : ℤ) := by
  calc (2 : ℚ) ^ (1024 : ℤ) = 2 ^ (93 * 11 + 1 : ℤ) := by norm_num only
    _ = (2 ^ (93 : ℤ)) ^ 11 * 2 := by rw [zpow_add₀ two_ne_zero, zpow_mul, zpow_one]; rfl
    _ < (2 ^ (93 : ℤ)) ^ 11 * 10 := by gcongr; norm_num only
    _ ≤ (10 ^ (28 : ℤ)) ^ 11 * 10 := by
        gcongr ?_ * 10
        exact pow_le_pow_left₀ (by positivity) (by norm_num) 11
    _ = 10 ^ (28 * 11 + 1 : ℤ) := by rw [zpow_add₀ (by norm_num), zpow_mul, zpow_one]; rfl
    _ ≤ 10 ^ (310 : ℤ) := zpow_le_zpow_right₀ (by norm_num) (by norm_num)

theorem FiniteTerms.covers_bounds (h : FiniteTerms s e) (hcovers : (interval s e).Covers q) :
    (10 : ℚ) ^ (-331 : ℤ) < q ∧ q < 10 ^ (310 : ℤ) := by
  obtain ⟨⟨hlow, hhigh⟩, -⟩ := (interval_covers_iff h.pos e _).mp hcovers
  have hs : (1 : ℚ) ≤ s := by exact_mod_cast h.pos
  have hbelow := stepBelow_le s e
  constructor
  · calc (10 : ℚ) ^ (-331 : ℤ) < 2 ^ (-1075 : ℤ) := ten_zpow_lt_two_zpow
      _ ≤ 2 ^ (e - 1) := zpow_le_zpow_right₀ one_le_two (by have := h.least; omega)
      _ = 1 / 2 * 2 ^ e := by rw [zpow_sub_one₀ two_ne_zero]; ring
      _ ≤ (s - stepBelow s e / 2) * 2 ^ e := by gcongr; linarith
      _ ≤ q := hlow
  · have hbound := h.add_half_lt
    calc q ≤ (s + 1 / 2) * 2 ^ e := hhigh
      _ ≤ 2 ^ (53 : ℤ) * 2 ^ (971 : ℤ) :=
        mul_le_mul hbound.le (zpow_le_zpow_right₀ one_le_two h.bounded) (by positivity)
          (by positivity)
      _ = 2 ^ (1024 : ℤ) := (zpow_add₀ two_ne_zero _ _).symm
      _ < 10 ^ (310 : ℤ) := two_zpow_lt_ten_zpow

/-- A decimal that lies in the interval of a number reads as that number. -/
theorem ofDecimal_eq (h : FiniteTerms s e) {d : Decimal} (hcovers : (interval s e).Covers d.value)
    (negative : Bool) :
    ofDecimal negative d.digits d.exponent =
      ofMagnitude negative ((e + 1074).toNat * hiddenBit + s) := by
  obtain ⟨hleast, hlargest⟩ := h.covers_bounds hcovers
  have hdigits : 0 < d.digits := by
    by_contra hzero
    have hvalue : d.value = 0 := by simp [Decimal.value, show d.digits = 0 by omega]
    rw [hvalue] at hleast
    exact absurd hleast (not_lt.mpr (by positivity))
  obtain ⟨hlow, hhigh⟩ := Decimal.value_bounds hdigits
  have htop := (zpow_lt_zpow_iff_right₀ (show (1 : ℚ) < 10 by norm_num)).mp (hleast.trans hhigh)
  have hbottom := (zpow_lt_zpow_iff_right₀ (show (1 : ℚ) < 10 by norm_num)).mp
    (hlow.trans_lt hlargest)
  unfold ofDecimal
  dsimp only
  have htiny : ¬ (d.digits = 0 || (countDigits d.digits + d.exponent : ℤ) < -330) = true := by
    simp only [Bool.or_eq_true, decide_eq_true_eq]
    omega
  rw [if_neg htiny, if_neg (by omega)]
  congr 1
  split
  · rename_i hexp
    have hpow : 0 < Nat.pow 10 d.exponent.toNat := Nat.pow_pos (by decide)
    refine magnitudeBits_eq h (Nat.mul_pos hdigits hpow) one_pos ?_
    rw [Decimal.value, zpow_of_nonneg 10 hexp] at hcovers
    rw [Nat.pow_eq]
    push_cast
    rwa [div_one]
  · rename_i hexp
    have hpow : 0 < Nat.pow 10 (-d.exponent).toNat := Nat.pow_pos (by decide)
    refine magnitudeBits_eq h hdigits hpow ?_
    rw [Decimal.value, zpow_of_nonpos 10 (by omega), ← div_eq_mul_inv] at hcovers
    rw [Nat.pow_eq]
    push_cast
    exact hcovers

/-- A number is made of its sign and its magnitude. -/
theorem ofMagnitude_isNegative_magnitude (x : Binary64) :
    ofMagnitude x.isNegative x.magnitude = x := by
  have hlt := x.bits.toNat_lt
  have hbits : (x.magnitude + if x.isNegative then signBit else 0) = x.bits.toNat := by
    unfold magnitude isNegative signBit
    simp only [decide_eq_true_eq]
    split <;> omega
  rw [ofMagnitude, hbits, UInt64.ofNat_toNat]

/-- The terms of a finite number give it back. -/
theorem shape_eq_finite {x : Binary64} {negative : Bool}
    (h : x.shape = .finite negative s e) :
    x = ofMagnitude negative ((e + 1074).toNat * hiddenBit + s) ∧ (s = 0 → e = -1074) ∧
      (0 < s → FiniteTerms s e) := by
  have hlt : x.magnitude < signBit := Nat.mod_lt _ (by decide)
  have hself := ofMagnitude_isNegative_magnitude x
  unfold shape at h
  dsimp only at h
  generalize x.magnitude = m at *
  have hsplit := Nat.div_add_mod m hiddenBit
  have hrem := Nat.mod_lt m (show 0 < hiddenBit by decide)
  generalize m / hiddenBit = field at *
  generalize m % hiddenBit = fraction at *
  simp only [hiddenBit, signBit] at *
  split at h
  · split at h <;> cases h
  · split at h
    · obtain ⟨rfl, rfl, rfl⟩ := Shape.finite.inj h
      have hm : m = (-1074 + 1074 : ℤ).toNat * 0x10000000000000 + fraction := by omega
      exact ⟨hself.symm.trans (congrArg _ hm), fun _ => rfl, fun hpos =>
        ⟨hpos, by simp only [hiddenBit]; omega, by omega, fun _ => rfl, by omega⟩⟩
    · obtain ⟨rfl, rfl, rfl⟩ := Shape.finite.inj h
      have hm : m = (field - 1075 + 1074 : ℤ).toNat * 0x10000000000000 +
          (0x10000000000000 + fraction) := by omega
      exact ⟨hself.symm.trans (congrArg _ hm), by omega, fun hpos =>
        ⟨hpos, by simp only [hiddenBit]; omega, by omega,
          fun hsub => absurd hsub (by simp only [hiddenBit]; omega), by omega⟩⟩

end Bindery.Binary64
