import Mathlib.Algebra.BigOperators.Associated
import Mathlib.FieldTheory.Finite.Basic
import Mathlib.Tactic.NormNum.Prime
import Bindery.P256.Curve

/-!
# The primes of the curve

Pocklington's criterion with base two: `n` is prime if some primes whose product exceeds its square
root divide `n - 1`, and the powers of two modulo `n` are as they should be. For each of those
primes `q` and each prime divisor `r` of `n`, the power `2 ^ ((n - 1) / q)` has order `q` modulo
`r`, so `q` divides `r - 1`; hence `r` exceeds the square root of `n` as well.

`certifies` is the criterion as a test, and `certifiesAll` runs it from some small primes up to
those of the curve. Powers are computed in steps of sixteen, which keeps the evaluation short.
-/

namespace Bindery.P256

/-- `a ^ n` modulo `m`, for an exponent of that many hexadecimal digits. The powers are those that
evaluation knows, not those of a monoid. -/
def powMod (m a : ℕ) : (digits n : ℕ) → ℕ
  | 0, _ => 1
  | digits + 1, n => Nat.pow (powMod m a digits (n / 16)) 16 * Nat.pow a (n % 16) % m

theorem powMod_modEq {m a : ℕ} (digits : ℕ) {n : ℕ} (h : n < 16 ^ digits) :
    powMod m a digits n ≡ a ^ n [MOD m] := by
  induction digits generalizing n with
  | zero =>
    obtain rfl : n = 0 := by omega
    rfl
  | succ digits ih =>
    have hdiv : n / 16 < 16 ^ digits := by
      rw [pow_succ] at h
      exact Nat.div_lt_of_lt_mul (by omega)
    have hsplit : a ^ n = (a ^ (n / 16)) ^ 16 * a ^ (n % 16) := by
      rw [← pow_mul, ← pow_add, Nat.div_add_mod']
    rw [hsplit]
    exact (Nat.mod_modEq _ _).trans (((ih hdiv).pow 16).mul_right _)

def certifies (n : ℕ) (factors : List ℕ) : Bool :=
  1 < n && n < 16 ^ 64 && n < factors.prod * factors.prod && factors.Nodup
    && powMod n 2 64 (n - 1) == 1
    && factors.all fun q =>
      (n - 1) % q == 0 && Nat.gcd (powMod n 2 64 ((n - 1) / q) + (n - 1)) n == 1

/-- A prime that passes the test of one factor is one more than a multiple of the factor. -/
theorem factor_dvd {n q r : ℕ} [Fact r.Prime] (hq : q.Prime) (hr : r ∣ n) (hn : 1 < n)
    (hdvd : q ∣ n - 1) (hone : 2 ^ (n - 1) ≡ 1 [MOD n])
    (hne : Nat.Coprime (2 ^ ((n - 1) / q) + (n - 1)) n) : q ∣ r - 1 := by
  have : Fact q.Prime := ⟨hq⟩
  have hpow : ((2 : ZMod r) ^ ((n - 1) / q)) ^ q = 1 := by
    rw [← pow_mul, Nat.div_mul_cancel hdvd]
    exact_mod_cast (ZMod.natCast_eq_natCast_iff _ _ _).mpr (hone.of_dvd hr)
  have hnot : (2 : ZMod r) ^ ((n - 1) / q) ≠ 1 := by
    intro he
    have hzero : ((2 ^ ((n - 1) / q) + (n - 1) : ℕ) : ZMod r) = 0 := by
      push_cast [Nat.cast_sub hn.le]
      rw [he, (ZMod.natCast_eq_zero_iff n r).mpr hr]
      ring
    have hcommon := Nat.dvd_gcd ((ZMod.natCast_eq_zero_iff _ _).mp hzero) hr
    rw [hne.gcd_eq_one] at hcommon
    exact (Fact.out : r.Prime).one_lt.ne' (Nat.dvd_one.mp hcommon)
  have hunit : (2 : ZMod r) ^ ((n - 1) / q) ≠ 0 := by
    intro he
    rw [he, zero_pow hq.ne_zero] at hpow
    exact zero_ne_one hpow
  rw [← orderOf_eq_prime hpow hnot]
  exact ZMod.orderOf_dvd_card_sub_one hunit

theorem prime_of_certifies {n : ℕ} (factors : List ℕ) (hprime : ∀ q ∈ factors, q.Prime)
    (h : certifies n factors) : n.Prime := by
  simp only [certifies, Bool.and_eq_true, decide_eq_true_eq, beq_iff_eq, List.all_eq_true] at h
  obtain ⟨⟨⟨⟨⟨hn, hsize⟩, hbig⟩, hnodup⟩, hone⟩, hfactors⟩ := h
  by_contra hcomposite
  have : Fact n.minFac.Prime := ⟨Nat.minFac_prime hn.ne'⟩
  have hpow (k : ℕ) (hk : k ≤ n - 1) : powMod n 2 64 k ≡ 2 ^ k [MOD n] :=
    powMod_modEq 64 (by omega)
  have hall : ∀ q ∈ factors, q ∣ n.minFac - 1 := by
    intro q hq
    obtain ⟨hmod, hgcd⟩ := hfactors q hq
    have hdvd := Nat.dvd_of_mod_eq_zero hmod
    refine factor_dvd (hprime q hq) n.minFac_dvd hn hdvd ((hpow _ le_rfl).symm.trans ?_) ?_
    · rw [hone]
    · have hmod := (hpow _ (Nat.div_le_self _ q)).add_right (n - 1)
      exact hmod.gcd_eq.symm.trans hgcd
  have hprod : factors.prod ∣ n.minFac - 1 := by
    have hset := Finset.prod_primes_dvd (s := factors.toFinset) (n.minFac - 1)
      (fun q hq => (hprime q (List.mem_toFinset.mp hq)).prime)
      (fun q hq => hall q (List.mem_toFinset.mp hq))
    rwa [List.prod_toFinset _ hnodup, List.map_id'] at hset
  have hpos : 0 < n.minFac - 1 := by
    have := (Fact.out : n.minFac.Prime).two_le
    omega
  have hlarge : factors.prod < n.minFac := by
    have := Nat.le_of_dvd hpos hprod
    omega
  have hsmall : n.minFac * n.minFac ≤ n := by
    have := Nat.minFac_sq_le_self (by omega) hcomposite
    rwa [sq] at this
  have := Nat.mul_lt_mul'' hlarge hlarge
  omega

/-- Certificates in a row: each number is tested by primes that are known or stand before it. -/
def certifiesAll (known : List ℕ) : List (ℕ × List ℕ) → Bool
  | [] => true
  | (n, factors) :: rest =>
    factors.all known.contains && certifies n factors && certifiesAll (n :: known) rest

theorem prime_of_certifiesAll {known : List ℕ} {certificates : List (ℕ × List ℕ)}
    (hknown : ∀ q ∈ known, q.Prime) (h : certifiesAll known certificates) :
    ∀ c ∈ certificates, c.1.Prime := by
  induction certificates generalizing known with
  | nil => exact List.forall_mem_nil _
  | cons c rest ih =>
    simp only [certifiesAll, Bool.and_eq_true, List.all_eq_true, List.contains_iff_mem] at h
    obtain ⟨⟨hfactors, hc⟩, hrest⟩ := h
    have hprime : c.1.Prime :=
      prime_of_certifies c.2 (fun q hq => hknown q (hfactors q hq)) hc
    exact List.forall_mem_cons.mpr ⟨hprime, ih (List.forall_mem_cons.mpr ⟨hprime, hknown⟩) hrest⟩

def smallPrimes : List ℕ := [197, 3023, 3677, 78283, 155317, 704251, 3969899]

theorem prime_of_mem_smallPrimes : ∀ q ∈ smallPrimes, q.Prime := by
  simp only [smallPrimes, List.forall_mem_cons]
  norm_num

def certificates : List (ℕ × List ℕ) :=
  [ (66417393611, [197, 3677]),
    (11290956913871, [66417393611]),
    (46076956964474543, [78283, 704251]),
    (774023187263532362759620327192479577272145303, [11290956913871, 46076956964474543]),
    (835945042244614951780389953367877943453916927241,
      [774023187263532362759620327192479577272145303]),
    (fieldPrime, [835945042244614951780389953367877943453916927241]),
    (191039911, [155317]),
    (208150935158385979, [3023, 191039911]),
    (2624747550333869278416773953, [208150935158385979]),
    (1002328039319, [3969899]),
    (order, [1002328039319, 2624747550333869278416773953]) ]

theorem prime_of_mem_certificates : ∀ c ∈ certificates, c.1.Prime :=
  prime_of_certifiesAll prime_of_mem_smallPrimes (by decide +kernel)

theorem prime_fieldPrime : fieldPrime.Prime :=
  prime_of_mem_certificates (fieldPrime, [835945042244614951780389953367877943453916927241])
    (by simp [certificates])

theorem prime_order : order.Prime :=
  prime_of_mem_certificates (order, [1002328039319, 2624747550333869278416773953])
    (by simp [certificates])

end Bindery.P256
