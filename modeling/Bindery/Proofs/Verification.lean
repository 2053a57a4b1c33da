import Bindery.Contract.Identity
import Bindery.Proofs.CurveGroup
import Bindery.Proofs.KeyTexts

/-!
# Verified signatures

`Signs` is the equation of a signature: its first half is a coordinate of a multiple of the
generator, the nonce, and its second half ties the nonce to the key and the hash. Multiples of the
generator and of the public key add up like the scalars, so that verification recovers the nonce
from a signature: what is verified is what some nonce makes. Signing never runs out of nonces,
because no key cancels a hash for both one and two.

A public key is written with the parity of one coordinate, which picks one of the two square roots
that differ by their sign.
-/

namespace Bindery.P256

open Fin.CommRing

/-- The signature of the hash `e` under the key `d` that a nonce makes. -/
structure Signs (d e nonce : Scalar) (sig : Signature) : Prop where
  /-- The first half is the first coordinate of a multiple of the generator, as a scalar. -/
  point : ∃ x y, Point.multiple nonce.val Point.generator = .affine x y ∧
    sig.r = Fin.ofNat order x.val
  equation : nonce * sig.s = e + sig.r * d
  first_ne : sig.r ≠ 0
  second_ne : sig.s ≠ 0

variable {d e nonce : Scalar} {sig : Signature} {message : Bytes}

theorem eq_zero_of_mul {a b : Scalar} (h : a * b = 0) (hb : b ≠ 0) : a = 0 := by
  calc a = a * (b * inverse b) := by rw [mul_inverse prime_order hb, mul_one]
    _ = a * b * inverse b := (mul_assoc _ _ _).symm
    _ = 0 := by rw [h, zero_mul]

theorem inverse_ne_zero {a : Scalar} (ha : a ≠ 0) : inverse a ≠ 0 := by
  intro hzero
  have hone := mul_inverse prime_order ha
  rw [hzero, mul_zero] at hone
  exact absurd hone (by decide)

namespace Point

theorem multiple_generator_mod (n : ℕ) :
    multiple (n % order) generator = multiple n generator := by
  obtain ⟨g, hg, horder⟩ := exists_generator
  rw [← hg, multiple_ofCurve, multiple_ofCurve, ← horder, mod_addOrderOf_nsmul]

/-- Multiples of the generator and of a public key add up like the scalars. -/
theorem add_multiple_generator (a b d : Scalar) :
    (multiple a.val generator).add (multiple b.val (multiple d.val generator)) =
      multiple (a + b * d).val generator := by
  have hval : (a + b * d).val = (a.val + b.val * d.val) % order := by
    rw [Fin.val_add, Fin.val_mul, Nat.add_mod_mod]
  obtain ⟨g, hg, -⟩ := exists_generator
  rw [hval, multiple_generator_mod, ← hg]
  simp only [multiple_ofCurve, ← ofCurve_add]
  rw [← mul_nsmul', ← add_nsmul]

/-- Only multiples of the order lead to the point at infinity. -/
theorem ofNat_ne_zero_of_multiple {k : ℕ} {x y : Coordinate}
    (h : multiple k generator = .affine x y) : Fin.ofNat order k ≠ 0 := by
  intro hzero
  have hdvd := Nat.dvd_of_mod_eq_zero (congrArg Fin.val hzero)
  rw [multiple_generator_eq_infinity_iff.mpr hdvd] at h
  cases h

theorem multiple_one_generator : multiple 1 generator = generator := by
  obtain ⟨g, hg, -⟩ := exists_generator
  rw [← hg, multiple_ofCurve, one_nsmul]

theorem multiple_two_generator :
    multiple 2 generator =
      .affine 0x7cf27b188d034f7e8a52380304b51ac3c08969e277f21b35a60b48fc47669978
        0x07775510db8ed040293d9ac69f7430dbba7dade63ce982299e04b79d227873d1 := by
  rw [multiple_eq_iterate]
  decide +kernel

end Point

/-- A signature is verified exactly if some nonce makes it. -/
theorem verify_iff :
    verify (Point.multiple d.val Point.generator) sig message ↔
      ∃ nonce, Signs d (digest message) nonce sig := by
  have hsum : digest message * inverse sig.s + sig.r * inverse sig.s * d =
      (digest message + sig.r * d) * inverse sig.s := by ring
  rw [verify]
  simp only [Point.add_multiple_generator, hsum]
  constructor
  · intro h
    split at h
    · cases h
    · rename_i x y hpoint
      simp only [Bool.and_eq_true, decide_eq_true_eq] at h
      obtain ⟨⟨hfirst, hsecond⟩, hx⟩ := h
      refine ⟨_, ⟨x, y, hpoint, hx.symm⟩, ?_, hfirst, hsecond⟩
      rw [mul_assoc, mul_comm (inverse sig.s), mul_inverse prime_order hsecond, mul_one]
  · rintro ⟨nonce, ⟨x, y, hpoint, hx⟩, hequation, hfirst, hsecond⟩
    have hnonce : (digest message + sig.r * d) * inverse sig.s = nonce := by
      rw [← hequation, mul_assoc, mul_inverse prime_order hsecond, mul_one]
    rw [hnonce, hpoint]
    simp only [Bool.and_eq_true, decide_eq_true_eq]
    exact ⟨⟨hfirst, hsecond⟩, hx.symm⟩

theorem signs_of_signWith? {k : ℕ} (h : signWith? d e k = some sig) :
    Signs d e (Fin.ofNat order k) sig := by
  have hmod : (Fin.ofNat order k).val = k % order := rfl
  unfold signWith? at h
  split at h
  · cases h
  · rename_i x y hpoint
    have hne := Point.ofNat_ne_zero_of_multiple hpoint
    dsimp only at h
    split_ifs at h with hhalves
    obtain ⟨hfirst, hsecond⟩ := not_or.mp hhalves
    obtain rfl := Option.some.inj h
    refine ⟨⟨x, y, ?_, rfl⟩, ?_, hfirst, hsecond⟩
    · rw [hmod, Point.multiple_generator_mod, hpoint]
    · rw [← mul_assoc, mul_inverse prime_order hne, one_mul]

/-- A nonce that makes no signature belongs to a hash that the key cancels. -/
theorem cancels_of_signWith?_eq_none {k : ℕ} {x y : Coordinate}
    (hpoint : Point.multiple k Point.generator = .affine x y)
    (hfirst : Fin.ofNat order x.val ≠ 0) (h : signWith? d e k = none) :
    e + Fin.ofNat order x.val * d = 0 := by
  have hne := Point.ofNat_ne_zero_of_multiple hpoint
  rw [signWith?, hpoint] at h
  dsimp only at h
  split_ifs at h with hhalves
  have hproduct := hhalves.resolve_left hfirst
  rw [mul_comm] at hproduct
  exact eq_zero_of_mul hproduct (inverse_ne_zero hne)

/-- No key cancels a hash for both of the first two nonces. -/
theorem isSome_signWith? (hd : d ≠ 0) (e : Scalar) :
    (signWith? d e 1).isSome ∨ (signWith? d e 2).isSome := by
  by_contra hnone
  simp only [not_or, Option.not_isSome_iff_eq_none] at hnone
  have hone := cancels_of_signWith?_eq_none Point.multiple_one_generator (by decide) hnone.1
  have htwo := cancels_of_signWith?_eq_none Point.multiple_two_generator (by decide) hnone.2
  have hdifference := (sub_eq_zero.mpr (hone.trans htwo.symm))
  rw [add_sub_add_left_eq_sub, ← sub_mul] at hdifference
  exact absurd (eq_zero_of_mul hdifference hd) (by decide)

namespace Point

/-- The coordinates of a point of the group meet the equation of the curve. -/
theorem equation_of_ofCurve {p : curve.Point} {x y : Coordinate} (h : ofCurve p = .affine x y) :
    y * y = cubic x := by
  cases p with
  | zero => cases h
  | some x' y' hpoint =>
    obtain ⟨rfl, rfl⟩ := Point.affine.inj h
    rw [← equation_iff, RingEquiv.apply_symm_apply, RingEquiv.apply_symm_apply]
    exact hpoint.1

end Point

theorem exists_of_search {attempt : ℕ → Option Signature} {count : ℕ} {st : NonceState}
    (h : st.search attempt count = some sig) : ∃ k, attempt k = some sig := by
  induction count generalizing st with
  | zero =>
    rw [NonceState.search] at h
    cases hone : attempt 1 with
    | some first =>
      rw [hone] at h
      exact ⟨1, hone.trans h⟩
    | none =>
      rw [hone] at h
      exact ⟨2, h⟩
  | succ count ih =>
    rw [NonceState.search] at h
    split at h
    · rename_i found hfound
      split_ifs at hfound
      exact ⟨_, hfound.trans h⟩
    · exact ih h

theorem isSome_search {attempt : ℕ → Option Signature}
    (h : (attempt 1).isSome ∨ (attempt 2).isSome) (st : NonceState) (count : ℕ) :
    (st.search attempt count).isSome := by
  induction count generalizing st with
  | zero =>
    rw [NonceState.search]
    cases hone : attempt 1 with
    | some sig => rfl
    | none =>
      rw [hone] at h
      exact h.resolve_left Bool.false_ne_true
  | succ count ih =>
    rw [NonceState.search]
    split
    · rfl
    · exact ih _

/-- Whichever nonces are tried, the signature is one that a nonce makes. -/
theorem exists_signs_sign (hd : d ≠ 0) (message : Bytes) :
    ∃ nonce, Signs d (digest message) nonce (sign d message) := by
  have hfound := isSome_search (isSome_signWith? hd (digest message))
    (NonceState.start d (digest message)) 64
  obtain ⟨sig, hsig⟩ := Option.isSome_iff_exists.mp hfound
  obtain ⟨k, hk⟩ := exists_of_search hsig
  have hsign : sign d message = sig := by
    rw [sign, hsig, Option.getD_some]
  exact ⟨_, hsign ▸ signs_of_signWith? hk⟩

/-- Where `u` is its own power, a quarter of the next exponent is a root of its square. -/
theorem pow_quarter {M : Type*} [CommMonoid M] {u : M} {p k : ℕ} (hk : 4 * k = p + 1)
    (hu : u ^ p = u) : (u * u) ^ k * (u * u) ^ k = u * u := by
  calc (u * u) ^ k * (u * u) ^ k = u ^ (4 * k) := by
        rw [← pow_two u, ← pow_mul, ← pow_add]
        congr 1
        omega
    _ = u * u := by rw [hk, pow_succ, hu]

/-- The root of a square is one of the two numbers with that square. -/
theorem squareRoot_mul_self (y : Coordinate) :
    squareRoot (y * y) = y ∨ squareRoot (y * y) = -y := by
  have hpower : toField (squareRoot (y * y)) =
      (toField y * toField y) ^ ((fieldPrime + 1) / 4) := by
    rw [squareRoot, power_eq_pow, map_pow, map_mul]
  have hroot : toField (squareRoot (y * y)) * toField (squareRoot (y * y)) =
      toField y * toField y := by
    rw [hpower]
    exact pow_quarter (by decide) (ZMod.pow_card _)
  rcases mul_self_eq_mul_self_iff.mp hroot with hsame | hother
  · exact .inl (toField.injective hsame)
  · exact .inr (toField.injective (hother.trans (map_neg toField y).symm))

/-- The two roots of a square differ in their parity, since the modulus is odd. -/
theorem val_neg_mod_two {y : Coordinate} (hy : y ≠ 0) : (-y).val % 2 ≠ y.val % 2 := by
  have hpos : 0 < y.val := Nat.pos_of_ne_zero fun h => hy (Fin.ext h)
  have hlt := y.isLt
  have hval : (-y).val = fieldPrime - y.val := by
    rw [Fin.val_neg, if_neg hy]
  have hodd : fieldPrime % 2 = 1 := by decide
  omega

theorem decompress?_parity {x y : Coordinate} (h : y * y = cubic x) :
    PublicKey.decompress? (y.val % 2) x = some (.affine x y) := by
  have hsquare : squareRoot (y * y) * squareRoot (y * y) = y * y := by
    rcases squareRoot_mul_self y with hroot | hroot
    · rw [hroot]
    · rw [hroot, neg_mul_neg]
  have hchosen : (if (squareRoot (y * y)).val % 2 = y.val % 2 then squareRoot (y * y)
      else 0 - squareRoot (y * y)) = y := by
    rcases squareRoot_mul_self y with hroot | hroot
    · rw [hroot, if_pos rfl]
    · rw [hroot]
      by_cases hy : y = 0
      · rw [hy, neg_zero, if_pos rfl]
      · rw [if_neg (val_neg_mod_two hy), zero_sub, neg_neg]
  rw [PublicKey.decompress?, ← h, if_pos hsquare, hchosen]

theorem coordinate?_bigEndian (x : Coordinate) :
    PublicKey.coordinate? (Bytes.bigEndian 32 x.val) = some x := by
  have hvalue : Bytes.toNatBig (Bytes.bigEndian 32 x.val) = x.val :=
    Bytes.toNatBig_bigEndian_of_lt (x.isLt.trans (by decide))
  rw [PublicKey.coordinate?, hvalue]
  exact dif_pos x.isLt

/-- A compressed form says the parity of the other coordinate. -/
theorem ofBytes_compressed {form : UInt8} (hform : form = 2 ∨ form = 3) {rest : Bytes}
    (hlength : rest.length = 32) {x : Coordinate} (hx : PublicKey.coordinate? rest = some x)
    {p : Point} (hp : PublicKey.decompress? (form.toNat % 2) x = some p) :
    PublicKey.ofBytes (form :: rest) = .ok ⟨p⟩ := by
  have hknown : form = 2 ∨ form = 3 ∨ form = 4 := by
    rcases hform with h | h
    · exact .inl h
    · exact .inr (.inl h)
  have hcompressed : form ≠ 4 := by
    rcases hform with rfl | rfl <;> decide
  unfold PublicKey.ofBytes
  -- The decompression stays a variable, so that no step comes to compute a root.
  generalize PublicKey.decompress? = decompress at hp ⊢
  dsimp only
  rw [if_pos hknown, if_neg hcompressed, if_neg (not_not_intro hlength), hx, Option.bind_eq_bind,
    Option.bind_some, hp]

/-- A point of the curve is read back from its bytes. -/
theorem ofBytes_toBytes {x y : Coordinate} (h : y * y = cubic x) :
    PublicKey.ofBytes (PublicKey.toBytes ⟨.affine x y⟩) = .ok ⟨.affine x y⟩ := by
  have hvalue : (UInt8.ofNat (2 + y.val % 2)).toNat = 2 + y.val % 2 :=
    UInt8.toNat_ofNat_of_lt' (by change _ < 256; omega)
  have hform : UInt8.ofNat (2 + y.val % 2) = 2 ∨ UInt8.ofNat (2 + y.val % 2) = 3 := by
    rcases Nat.mod_two_eq_zero_or_one y.val with heven | hodd
    · exact .inl (by rw [heven]; rfl)
    · exact .inr (by rw [hodd]; rfl)
  have hparity : (UInt8.ofNat (2 + y.val % 2)).toNat % 2 = y.val % 2 := by omega
  refine ofBytes_compressed hform (Bytes.length_bigEndian _ _) (coordinate?_bigEndian x) ?_
  rw [hparity, decompress?_parity h]

/-- Bytes that are a signature: its halves in 32 bytes each, most significant first. -/
structure Halves (b : Bytes) (sig : Signature) : Prop where
  length : b.length = 64
  first : Bytes.toNatBig (b.take 32) = sig.r.val
  second : Bytes.toNatBig (b.drop 32) = sig.s.val

theorem halves_toBytes (sig : Signature) : Halves sig.toBytes sig := by
  have hlength : (Bytes.bigEndian 32 sig.r.val).length = 32 := Bytes.length_bigEndian _ _
  refine ⟨?_, ?_, ?_⟩
  · rw [Signature.toBytes, List.length_append, hlength, Bytes.length_bigEndian]
  · rw [Signature.toBytes, List.take_left' hlength, toNatBig_scalar]
  · rw [Signature.toBytes, List.drop_left' hlength, toNatBig_scalar]

theorem ofBytes?_eq_some_iff {b : Bytes} : Signature.ofBytes? b = some sig ↔ Halves b sig := by
  unfold Signature.ofBytes?
  constructor
  · intro h
    dsimp only at h
    split_ifs at h with hsizes
    obtain rfl := Option.some.inj h
    exact ⟨hsizes.1, rfl, rfl⟩
  · rintro ⟨hlength, hfirst, hsecond⟩
    have hsizes : b.length = 64 ∧ Bytes.toNatBig (b.take 32) < order ∧
        Bytes.toNatBig (b.drop 32) < order :=
      ⟨hlength, hfirst ▸ sig.r.isLt, hsecond ▸ sig.s.isLt⟩
    obtain ⟨⟨r, hr⟩, ⟨s, hs⟩⟩ := sig
    dsimp only at hfirst hsecond ⊢
    subst hfirst hsecond
    rw [dif_pos hsizes]

end Bindery.P256

namespace Bindery

open P256

namespace PublicKey

theorem verify_eq_true_iff {q : PublicKey} {b message : Bytes} :
    q.verify b message ↔ ∃ sig, Halves b sig ∧ P256.verify q.point sig message := by
  rw [verify]
  cases hread : Signature.ofBytes? b with
  | none =>
    refine iff_of_false Bool.false_ne_true ?_
    rintro ⟨sig, hhalves, -⟩
    rw [ofBytes?_eq_some_iff.mpr hhalves] at hread
    cases hread
  | some sig =>
    have hhalves := ofBytes?_eq_some_iff.mp hread
    refine ⟨fun h => ⟨sig, hhalves, h⟩, ?_⟩
    rintro ⟨other, hother, h⟩
    rw [ofBytes?_eq_some_iff.mpr hother] at hread
    rwa [← Option.some.inj hread]

theorem verify_eq_false (q : PublicKey) {b : Bytes} (h : b.length ≠ 64) (message : Bytes) :
    q.verify b message = false := by
  rw [← Bool.not_eq_true, verify_eq_true_iff]
  rintro ⟨sig, hhalves, -⟩
  exact h hhalves.length

/-- Byte strings are verified whatever they hold. -/
theorem verifyValue_blob (q : PublicKey) (form form' : BlobForm) (b message : Bytes) :
    q.verifyValue (.blob form' b) (.blob form message) = .ok (q.verify b message) := by
  have hlength : Value.length (.blob form' b) = .ok b.length := rfl
  rw [verifyValue, hlength, ok_bind]
  by_cases h : b.length = 64
  · rw [if_neg (not_not_intro h)]
    rfl
  · rw [if_pos h, q.verify_eq_false h]
    rfl

end PublicKey

namespace PrivateKey

/-- The public key of a private key is a point of the curve. -/
theorem exists_publicKey_eq (k : PrivateKey) :
    ∃ x y, y * y = cubic x ∧ k.publicKey = ⟨.affine x y⟩ := by
  obtain ⟨x, y, hpoint⟩ := k.exists_publicKey_point
  obtain ⟨g, hg, -⟩ := Point.exists_generator
  have hcurve : Point.ofCurve (k.scalar.val • g) = .affine x y := by
    rw [← Point.multiple_ofCurve, hg]
    exact hpoint
  exact ⟨x, y, Point.equation_of_ofCurve hcurve, congrArg PublicKey.mk hpoint⟩

/-- Bytes that are a signature of a message under a key, whichever nonce has made it. -/
def Signed (k : PrivateKey) (message b : Bytes) : Prop :=
  ∃ sig nonce, Halves b sig ∧ Signs k.scalar (digest message) nonce sig

theorem verify_publicKey_iff (k : PrivateKey) (b message : Bytes) :
    k.publicKey.verify b message ↔ k.Signed message b := by
  have hpoint : k.publicKey.point = Point.multiple k.scalar.val Point.generator := rfl
  simp only [PublicKey.verify_eq_true_iff, hpoint, verify_iff, Signed, exists_and_left]

theorem signed_sign (k : PrivateKey) (message : Bytes) : k.Signed message (k.sign message) := by
  obtain ⟨nonce, hsigns⟩ := exists_signs_sign k.nonzero message
  exact ⟨_, nonce, halves_toBytes _, hsigns⟩

/-- A message is signed in 64 bytes that hold the halves of a signature, and its public key is read
back from its 33 bytes. Whatever bytes are presented for the message, they are judged, and just the
signatures under the key are taken. -/
theorem verified_iff_signed (k : PrivateKey) (form form' : BlobForm) (message : Bytes) :
    (∃ b, k.signValue (.blob form message) = .ok b ∧ Halves b (P256.sign k.scalar message) ∧
        k.Signed message b ∧
        k.publicKey.verifyValue (.blob form' b) (.blob form message) = .ok true) ∧
      (k.publicKey.toBytes.length = 33 ∧
        PublicKey.ofValue (.blob .fixed k.publicKey.toBytes) = .ok k.publicKey) ∧
      ∀ (q : PublicKey) (b : Bytes), ∃ answer,
        q.verifyValue (.blob form' b) (.blob form message) = .ok answer ∧
          (b.length ≠ 64 → answer = false) ∧
          (q = k.publicKey → (answer ↔ k.Signed message b)) := by
  refine ⟨⟨k.sign message, rfl, halves_toBytes _, k.signed_sign message, ?_⟩,
    ⟨k.length_publicKey_toBytes, ?_⟩,
    fun q b => ⟨_, q.verifyValue_blob form form' b message, ?_, ?_⟩⟩
  · rw [PublicKey.verifyValue_blob, (k.verify_publicKey_iff _ _).mpr (k.signed_sign message)]
  · obtain ⟨x, y, hcurve, hkey⟩ := k.exists_publicKey_eq
    rw [hkey, PublicKey.ofValue, ofBytes_toBytes hcurve]
    rfl
  · exact fun hlength => q.verify_eq_false hlength message
  · rintro rfl
    exact k.verify_publicKey_iff b message

end PrivateKey

end Bindery
