import Mathlib.AlgebraicGeometry.EllipticCurve.Affine.Point
import Bindery.P256.Key
import Bindery.Proofs.Primality

/-!
# The group of the curve

The coordinates form a field, since their number is prime, and the points of the curve the group
over it that the chord-and-tangent rule gives. `Point.ofCurve` takes a point of that group to its
coordinates; it turns the sum of the group into `Point.add` and multiples into `Point.multiple`.

The generator has the prime `order` as its order. So no key has the point at infinity as its public
key, and every public key is written in 33 bytes.
-/

namespace Bindery.P256

open Fin.CommRing

/-- Halving the count combines as often as adding up does. -/
theorem iterate_eq_nsmul {M α : Type} [AddMonoid M] {op : α → α → α} {unit : α} {f : M → α}
    (hzero : f 0 = unit) (hadd : ∀ a b, f (a + b) = op (f a) (f b)) (n : ℕ) (a : M) :
    iterate op unit (f a) n = f (n • a) := by
  induction n using Nat.strong_induction_on generalizing a with
  | _ n ih =>
    rw [iterate]
    by_cases hn : n = 0
    · rw [if_pos hn, hn, zero_nsmul, hzero]
    · have hhalf : iterate op unit (op (f a) (f a)) (n / 2) = f ((2 * (n / 2)) • a) := by
        rw [← hadd, ih _ (by omega), ← two_nsmul, ← mul_nsmul]
      rw [if_neg hn, hhalf]
      split_ifs with hodd
      · rw [← hadd, ← succ_nsmul', show 2 * (n / 2) + 1 = n by omega]
      · rw [show 2 * (n / 2) = n by omega]

theorem power_eq_pow {m : ℕ} [NeZero m] (x : Fin m) (n : ℕ) : power x n = x ^ n :=
  iterate_eq_nsmul (f := Additive.toMul) rfl (fun _ _ => rfl) n (Additive.ofMul x)

theorem val_pow {m : ℕ} [NeZero m] (x : Fin m) (n : ℕ) : (x ^ n).val = x.val ^ n % m := by
  induction n with
  | zero => rfl
  | succ n ih => rw [pow_succ, Fin.val_mul, ih, pow_succ, Nat.mod_mul_mod]

instance : Fact fieldPrime.Prime := ⟨prime_fieldPrime⟩

theorem mul_inverse {m : ℕ} [NeZero m] (hm : m.Prime) {x : Fin m} (hx : x ≠ 0) :
    x * inverse x = 1 := by
  have hcoprime : Nat.Coprime x.val m := by
    rw [Nat.coprime_comm, hm.coprime_iff_not_dvd]
    intro hdvd
    exact hx (Fin.ext (Nat.eq_zero_of_dvd_of_lt hdvd x.isLt))
  have hfermat : x.val ^ (m - 1) ≡ 1 [MOD m] := by
    rw [← Nat.totient_prime hm]
    exact Nat.ModEq.pow_totient hcoprime
  have hpow : x * inverse x = x ^ (m - 1) := by
    have htwo := hm.two_le
    rw [inverse, power_eq_pow, ← pow_succ', show m - 2 + 1 = m - 1 by omega]
  rw [hpow]
  exact Fin.ext ((val_pow _ _).trans hfermat)

theorem inverse_zero : inverse (0 : Coordinate) = 0 := by
  rw [inverse, power_eq_pow, zero_pow (by decide)]

def toField : Coordinate ≃+* ZMod fieldPrime := ZMod.finEquiv fieldPrime

theorem toField_ofNat (n : ℕ) : toField (Fin.ofNat fieldPrime n) = n := map_natCast toField n

theorem toField_two : toField (@OfNat.ofNat Coordinate 2 Fin.instOfNat) = 2 := toField_ofNat 2

theorem toField_three : toField (@OfNat.ofNat Coordinate 3 Fin.instOfNat) = 3 := toField_ofNat 3

theorem toField_inverse (x : Coordinate) : toField (inverse x) = (toField x)⁻¹ := by
  by_cases hx : x = 0
  · rw [hx, inverse_zero, map_zero, inv_zero]
  · refine eq_inv_of_mul_eq_one_right ?_
    rw [← map_mul, mul_inverse prime_fieldPrime hx, map_one]

def curve : WeierstrassCurve.Affine (ZMod fieldPrime) := ⟨0, 0, 0, -3, toField coefficient⟩

theorem equation_iff {x y : Coordinate} :
    curve.Equation (toField x) (toField y) ↔ y * y = cubic x := by
  rw [WeierstrassCurve.Affine.equation_iff, cubic, ← toField.injective.eq_iff]
  simp only [curve, map_add, map_sub, map_mul, toField_three]
  constructor <;> intro h <;> linear_combination h

theorem toField_negY (x y : Coordinate) :
    curve.negY (toField x) (toField y) = toField (-y) := by
  simp only [WeierstrassCurve.Affine.negY, curve, map_neg]
  ring

theorem negY_ne (x : Coordinate) {y : Coordinate} (hy : y ≠ 0) :
    toField y ≠ curve.negY (toField x) (toField y) := by
  intro he
  rw [toField_negY, map_neg, eq_neg_iff_add_eq_zero, ← two_mul, mul_eq_zero] at he
  rcases he with htwo | hzero
  · exact absurd htwo (by decide)
  · exact hy (toField.injective (hzero.trans (map_zero toField).symm))

namespace Point

def ofCurve : curve.Point → Point
  | .zero => .infinity
  | .some x y _ => .affine (toField.symm x) (toField.symm y)

theorem ofCurve_zero : ofCurve 0 = .infinity := rfl

theorem ofCurve_some {x y : Coordinate} (h : curve.Nonsingular (toField x) (toField y)) :
    ofCurve (.some _ _ h) = .affine x y := by
  simp only [ofCurve, RingEquiv.symm_apply_apply]

theorem alongLine_eq (m x y x' : Coordinate) :
    alongLine m x y x' =
      .affine (toField.symm (curve.addX (toField x) (toField x') (toField m)))
        (toField.symm (curve.addY (toField x) (toField x') (toField y) (toField m))) := by
  have hx : toField (m * m - x - x') = curve.addX (toField x) (toField x') (toField m) := by
    simp only [WeierstrassCurve.Affine.addX, curve, map_sub, map_mul]
    ring
  have hy : toField (m * (x - (m * m - x - x')) - y) =
      curve.addY (toField x) (toField x') (toField y) (toField m) := by
    rw [WeierstrassCurve.Affine.addY, WeierstrassCurve.Affine.negAddY, ← hx]
    simp only [WeierstrassCurve.Affine.negY, curve, map_sub, map_mul]
    ring
  rw [← hx, ← hy, RingEquiv.symm_apply_apply, RingEquiv.symm_apply_apply]
  rfl

theorem slope_tangent {x y : Coordinate} (hy : toField y ≠ curve.negY (toField x) (toField y)) :
    toField ((3 * x * x - 3) * inverse (2 * y)) =
      curve.slope (toField x) (toField x) (toField y) (toField y) := by
  have hnum : toField (3 * x * x - 3) = 3 * toField x ^ 2 + 2 * curve.a₂ * toField x + curve.a₄
      - curve.a₁ * toField y := by
    simp only [curve, map_sub, map_mul, toField_three]
    ring
  have hden : toField (2 * y) = toField y - curve.negY (toField x) (toField y) := by
    simp only [WeierstrassCurve.Affine.negY, curve, map_mul, toField_two]
    ring
  rw [WeierstrassCurve.Affine.slope_of_Y_ne rfl hy, map_mul, toField_inverse, hnum, hden,
    div_eq_mul_inv]

theorem slope_chord {x y x' y' : Coordinate} (hx : x ≠ x') :
    toField ((y' - y) * inverse (x' - x)) =
      curve.slope (toField x) (toField x') (toField y) (toField y') := by
  rw [WeierstrassCurve.Affine.slope_of_X_ne (toField.injective.ne hx), map_mul, toField_inverse,
    ← div_eq_mul_inv, map_sub, map_sub, ← neg_div_neg_eq, neg_sub, neg_sub]

/-- The chord-and-tangent addition of coordinates is that of the group. -/
theorem ofCurve_add (p q : curve.Point) : ofCurve (p + q) = (ofCurve p).add (ofCurve q) := by
  rcases p with _ | ⟨x, y, h⟩
  · rw [← WeierstrassCurve.Affine.Point.zero_def, zero_add]
    cases hq : ofCurve q <;> rfl
  rcases q with _ | ⟨x', y', h'⟩
  · rw [← WeierstrassCurve.Affine.Point.zero_def, add_zero]
    rfl
  obtain ⟨x, rfl⟩ := toField.surjective x
  obtain ⟨y, rfl⟩ := toField.surjective y
  obtain ⟨x', rfl⟩ := toField.surjective x'
  obtain ⟨y', rfl⟩ := toField.surjective y'
  rw [ofCurve_some, ofCurve_some, add]
  by_cases hx : x = x'
  · subst hx
    rw [if_pos rfl]
    by_cases hy : y = y' ∧ y ≠ 0
    · obtain ⟨rfl, hzero⟩ := hy
      have hne := negY_ne x hzero
      rw [if_pos ⟨rfl, hzero⟩, WeierstrassCurve.Affine.Point.add_of_Y_ne hne, alongLine_eq,
        slope_tangent hne]
      rfl
    · have hneg : toField y = curve.negY (toField x) (toField y') := by
        rcases WeierstrassCurve.Affine.Y_eq_of_X_eq h.1 h'.1 rfl with he | he
        · obtain rfl := toField.injective he
          obtain rfl : y = 0 := by_contra fun hzero => hy ⟨rfl, hzero⟩
          rw [toField_negY, neg_zero]
        · exact he
      rw [if_neg hy, WeierstrassCurve.Affine.Point.add_of_Y_eq rfl hneg]
      rfl
  · rw [if_neg hx, WeierstrassCurve.Affine.Point.add_of_X_ne (toField.injective.ne hx),
      alongLine_eq, slope_chord hx]
    rfl

theorem multiple_ofCurve (n : ℕ) (p : curve.Point) : multiple n (ofCurve p) = ofCurve (n • p) :=
  iterate_eq_nsmul ofCurve_zero ofCurve_add n p

/-- Addition with a given inversion; multiples are evaluated with one that is faster. -/
def addBy (invert : Coordinate → Coordinate) : Point → Point → Point
  | .infinity, q => q
  | p, .infinity => p
  | .affine x y, .affine x' y' =>
    if x = x' then
      if y = y' ∧ y ≠ 0 then alongLine ((3 * x * x - 3) * invert (2 * y)) x y x
      else .infinity
    else alongLine ((y' - y) * invert (x' - x)) x y x'

theorem add_eq_addBy : add = addBy inverse := by
  funext p q
  cases p <;> cases q <;> rfl

theorem inverse_eq_powMod (x : Coordinate) :
    inverse x = Fin.ofNat fieldPrime (powMod fieldPrime x.val 64 (fieldPrime - 2)) := by
  rw [inverse, power_eq_pow]
  apply Fin.ext
  rw [val_pow]
  exact (powMod_modEq 64 (by decide)).symm

theorem multiple_eq_iterate (n : ℕ) (p : Point) :
    multiple n p = iterate (addBy fun x => Fin.ofNat fieldPrime
      (powMod fieldPrime x.val 64 (fieldPrime - 2))) .infinity p n := by
  rw [multiple, add_eq_addBy, funext inverse_eq_powMod]

theorem multiple_order_generator : multiple order generator = .infinity := by
  rw [multiple_eq_iterate]
  decide +kernel

theorem ofCurve_eq_infinity_iff {p : curve.Point} : ofCurve p = .infinity ↔ p = 0 := by
  cases p with
  | zero => exact iff_of_true rfl rfl
  | some x y h => exact iff_of_false nofun (WeierstrassCurve.Affine.Point.some_ne_zero h)

/-- The points on the curve are those of the group; none has a vanishing tangent. -/
theorem exists_ofCurve_eq {x y : Coordinate} (h : y * y = cubic x) (hy : y ≠ 0) :
    ∃ p : curve.Point, ofCurve p = .affine x y := by
  have hnonsingular : curve.Nonsingular (toField x) (toField y) :=
    (WeierstrassCurve.Affine.nonsingular_iff ..).mpr ⟨equation_iff.mpr h, .inr (negY_ne x hy)⟩
  exact ⟨.some _ _ hnonsingular, ofCurve_some hnonsingular⟩

/-- The generator has the number of the scalars as its order. -/
theorem exists_generator : ∃ g, ofCurve g = generator ∧ addOrderOf g = order := by
  have : Fact order.Prime := ⟨prime_order⟩
  obtain ⟨g, hg⟩ : ∃ g, ofCurve g = generator :=
    exists_ofCurve_eq (by decide +kernel) (by decide +kernel)
  have hne : g ≠ 0 := by
    intro hzero
    rw [hzero] at hg
    cases hg
  have horder : order • g = 0 := by
    rw [← ofCurve_eq_infinity_iff, ← multiple_ofCurve, hg, multiple_order_generator]
  exact ⟨g, hg, addOrderOf_eq_prime horder hne⟩

theorem multiple_generator_eq_infinity_iff {n : ℕ} :
    multiple n generator = .infinity ↔ order ∣ n := by
  obtain ⟨g, hg, horder⟩ := exists_generator
  rw [← hg, multiple_ofCurve, ofCurve_eq_infinity_iff, ← addOrderOf_dvd_iff_nsmul_eq_zero, horder]

end Point

end Bindery.P256

namespace Bindery.PrivateKey

open P256

/-- The public key of a private key is never the point at infinity. -/
theorem exists_publicKey_point (k : PrivateKey) : ∃ x y, k.publicKey.point = .affine x y := by
  cases hpoint : k.publicKey.point with
  | affine x y => exact ⟨x, y, rfl⟩
  | infinity =>
    have hdvd := Point.multiple_generator_eq_infinity_iff.mp hpoint
    exact absurd (Fin.ext (Nat.eq_zero_of_dvd_of_lt hdvd k.scalar.isLt)) k.nonzero

theorem length_publicKey_toBytes (k : PrivateKey) : k.publicKey.toBytes.length = 33 := by
  obtain ⟨x, y, h⟩ := k.exists_publicKey_point
  simp only [PublicKey.toBytes, h, List.length_cons, Bytes.length_bigEndian]

theorem length_sign (k : PrivateKey) (message : Bytes) : (k.sign message).length = 64 := by
  simp only [sign, Signature.toBytes, List.length_append, Bytes.length_bigEndian]

end Bindery.PrivateKey
