/-!
# The curve P-256

The points of `y ^ 2 = x ^ 3 - 3 * x + b` over the prime field of `fieldPrime` elements, with the
chord-and-tangent addition. Powers and multiples share one square-and-multiply scheme.
-/

namespace Bindery.P256

def fieldPrime : Nat := 0xffffffff00000001000000000000000000000000ffffffffffffffffffffffff

def order : Nat := 0xffffffff00000000ffffffffffffffffbce6faada7179e84f3b9cac2fc632551

instance : @NeZero Nat Zero.ofOfNat0 fieldPrime := ⟨by decide⟩

instance : @NeZero Nat Zero.ofOfNat0 order := ⟨by decide⟩

abbrev Coordinate := Fin fieldPrime

abbrev Scalar := Fin order

/-- `x` combined with itself `n` times, starting from `unit`, by halving `n`. -/
def iterate {α : Type} (op : α → α → α) (unit x : α) (n : Nat) : α :=
  if n = 0 then unit
  else
    let half := iterate op unit (op x x) (n / 2)
    if n % 2 = 1 then op x half else half
  termination_by n

def power {m : Nat} [OfNat (Fin m) 1] (x : Fin m) (n : Nat) : Fin m := iterate (· * ·) 1 x n

/-- The inverse modulo a prime, by Fermat's little theorem. -/
def inverse {m : Nat} [OfNat (Fin m) 1] (x : Fin m) : Fin m := power x (m - 2)

def coefficient : Coordinate := 0x5ac635d8aa3a93e7b3ebbd55769886bc651d06b0cc53b0f63bce3c3e27d2604b

def cubic (x : Coordinate) : Coordinate := x * x * x - 3 * x + coefficient

inductive Point
  | infinity
  | affine (x y : Coordinate)
  deriving DecidableEq

namespace Point

/-- The third point on the line of slope `m` through `(x, y)` and a point over `x'`, reflected. -/
def alongLine (m x y x' : Coordinate) : Point :=
  let x3 := m * m - x - x'
  .affine x3 (m * (x - x3) - y)

def add : Point → Point → Point
  | .infinity, q => q
  | p, .infinity => p
  | .affine x y, .affine x' y' =>
    if x = x' then
      if y = y' ∧ y ≠ 0 then alongLine ((3 * x * x - 3) * inverse (2 * y)) x y x
      else .infinity
    else alongLine ((y' - y) * inverse (x' - x)) x y x'

def multiple (n : Nat) (p : Point) : Point := iterate add .infinity p n

def generator : Point :=
  .affine 0x6b17d1f2e12c4247f8bce6e563a440f277037d812deb33a0f4a13945d898c296
    0x4fe342e2fe1a7f9b8ee7eb4a7c0f9e162bce33576b315ececbb6406837bf51f5

end Point

/-- A square root of the squares, since `fieldPrime` is three modulo four. -/
def squareRoot (x : Coordinate) : Coordinate := power x ((fieldPrime + 1) / 4)

end Bindery.P256
