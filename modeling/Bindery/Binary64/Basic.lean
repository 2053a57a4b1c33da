/-!
# Double-precision numbers

A number is kept as its IEEE 754 bits. `Binary64.shape` reads the bits as a significand times a
power of two; `magnitudeBits` rounds a positive quotient to the nearest number, a tie to the even
significand. Both are exact arithmetic on natural numbers.
-/

namespace Bindery

structure Binary64 where
  bits : UInt64
  deriving DecidableEq, Repr, Inhabited

namespace Binary64

/-- What a number denotes; a finite one is `significand * 2 ^ exponent`, negated if `negative`. -/
inductive Shape
  | notANumber
  | infinite (negative : Bool)
  | finite (negative : Bool) (significand : Nat) (exponent : Int)
  deriving DecidableEq, Repr

def hiddenBit : Nat := 0x10000000000000

def signBit : Nat := 0x8000000000000000

/-- The bits of positive infinity; the finite magnitudes are the numbers below. -/
def infinityBits : Nat := 0x7ff0000000000000

def isNegative (x : Binary64) : Bool := signBit ≤ x.bits.toNat

def magnitude (x : Binary64) : Nat := x.bits.toNat % signBit

def shape (x : Binary64) : Shape :=
  let m := x.magnitude
  let field := m / hiddenBit
  let fraction := m % hiddenBit
  if field = 2047 then
    if fraction = 0 then .infinite x.isNegative else .notANumber
  else if field = 0 then .finite x.isNegative fraction (-1074)
  else .finite x.isNegative (hiddenBit + fraction) (field - 1075)

def isFinite (x : Binary64) : Bool := x.magnitude < infinityBits

def ofMagnitude (negative : Bool) (m : Nat) : Binary64 :=
  ⟨UInt64.ofNat (m + if negative then signBit else 0)⟩

def notANumber : Binary64 := ⟨0x7ff8000000000000⟩

def infinity (negative : Bool) : Binary64 := ofMagnitude negative infinityBits

/-- `num / den` to the nearest natural number, a half to the even one. -/
def roundHalfEven (num den : Nat) : Nat :=
  let q := num / den
  let r := num % den
  if 2 * r < den then q
  else if den < 2 * r then q + 1
  else q + q % 2

/-- The exponent of the grid on which `num / den` is rounded: its numbers of 53 bits enclose the
quotient, unless the quotient is below them all. -/
def gridExponent (num den : Nat) : Int :=
  let guess : Int := (num.log2 : Int) - den.log2 - 52
  let low : Bool :=
    if 0 ≤ guess then num < hiddenBit * den * Nat.pow 2 guess.toNat
    else num * Nat.pow 2 (-guess).toNat < hiddenBit * den
  max (-1074) (if low then guess - 1 else guess)

/-- The bits of the number nearest to `num / den`, or of infinity beyond the largest. -/
def magnitudeBits (num den : Nat) : Nat :=
  if num = 0 then 0
  else
    let e := gridExponent num den
    let q :=
      if 0 ≤ e then roundHalfEven num (den * Nat.pow 2 e.toNat)
      else roundHalfEven (num * Nat.pow 2 (-e).toNat) den
    min infinityBits ((e + 1074).toNat * hiddenBit + q)

def countDigits (n : Nat) : Nat := (Nat.toDigits 10 n).length

def ofDecimal (negative : Bool) (digits : Nat) (exponent : Int) : Binary64 :=
  let top : Int := countDigits digits + exponent
  let m :=
    if digits = 0 || top < -330 then 0
    else if 310 < top then infinityBits
    else if 0 ≤ exponent then magnitudeBits (digits * Nat.pow 10 exponent.toNat) 1
    else magnitudeBits digits (Nat.pow 10 (-exponent).toNat)
  ofMagnitude negative m

def truncate? (x : Binary64) : Option Int :=
  match x.shape with
  | .finite negative s e =>
    let whole : Nat := if 0 ≤ e then s * Nat.pow 2 e.toNat else s / Nat.pow 2 (-e).toNat
    some (if negative then -whole else whole)
  | _ => none

def isWhole (x : Binary64) : Bool :=
  match x.shape with
  | .finite _ s e => 0 ≤ e || s % Nat.pow 2 (-e).toNat = 0
  | _ => false

end Binary64

end Bindery
