import Bindery.Binary64.Basic
import Bindery.Hex

/-!
# Shortest decimals

`shortest` is the decimal with the fewest digits that reads back as the given number, and of those
the nearest. `Layout` says how its digits are set out; `Layout.plain` is the one in use: a point and
at least one digit after it from `1e-4` up to below `1e16`, scientific notation outside.
-/

namespace Bindery.Binary64

/-- `digits * 10 ^ exponent`. -/
structure Decimal where
  digits : Nat
  exponent : Int
  deriving DecidableEq, Repr

/-- The reals that round to `significand * 2 ^ exponent`, as numerators over `den`; the ends belong
to it iff `closed`. -/
structure Interval where
  low : Nat
  mid : Nat
  high : Nat
  den : Nat
  closed : Bool

def interval (significand : Nat) (exponent : Int) : Interval :=
  -- Below a power of two the grid is twice as fine.
  let quarter := significand = hiddenBit && -1074 < exponent
  let scale := if 0 ≤ exponent then Nat.pow 2 exponent.toNat else 1
  let den := if 0 ≤ exponent then 4 else 4 * Nat.pow 2 (-exponent).toNat
  { low := (4 * significand - if quarter then 1 else 2) * scale
    mid := 4 * significand * scale
    high := (4 * significand + 2) * scale
    den := den
    closed := significand % 2 = 0 }

def Interval.holds (i : Interval) (n : Nat) (unit : Int) : Bool :=
  let x := if 0 ≤ unit then n * Nat.pow 10 unit.toNat * i.den else n * i.den
  let s := if 0 ≤ unit then 1 else Nat.pow 10 (-unit).toNat
  if i.closed then i.low * s ≤ x && x ≤ i.high * s else i.low * s < x && x < i.high * s

/-- The nearest of the two neighbours of the midpoint on the grid of step `10 ^ unit` that lie in
the interval; of two at one distance the even one. -/
def Interval.candidate? (i : Interval) (unit : Int) : Option Nat :=
  let num := if 0 ≤ unit then i.mid else i.mid * Nat.pow 10 (-unit).toNat
  let den := if 0 ≤ unit then i.den * Nat.pow 10 unit.toNat else i.den
  let below := num / den
  let first := if num % den = 0 then below else roundHalfEven num den
  let second := if first = below then below + 1 else below
  if i.holds first unit then some first
  else if i.holds second unit then some second
  else none

/-- The first grid with a candidate, from coarse to fine. -/
def firstCandidate (i : Interval) (unit : Int) : Nat → Decimal
  | 0 => ⟨i.mid / i.den, 0⟩
  | n + 1 =>
    match i.candidate? unit with
    | some d => ⟨d, unit⟩
    | none => firstCandidate i (unit - 1) n

/-- An exponent whose power of ten is above the number. -/
def decimalCeiling (i : Interval) : Int :=
  if i.den ≤ i.mid then countDigits (i.mid / i.den)
  else 1 - (countDigits (i.den / i.mid) : Int)

def Decimal.normalize (d : Decimal) : (fuel : Nat) → Decimal
  | 0 => d
  | fuel + 1 =>
    if d.digits ≠ 0 ∧ d.digits % 10 = 0 then
      Decimal.normalize ⟨d.digits / 10, d.exponent + 1⟩ fuel
    else d

def shortest (significand : Nat) (exponent : Int) : Decimal :=
  let i := interval significand exponent
  (firstCandidate i (decimalCeiling i) 20).normalize 20

/-- How a decimal is set out: with a point alone where its scientific exponent is at least `least`
and under `below`, else with an exponent of at least `exponentDigits` digits after `mark`. -/
structure Layout where
  least : Int
  below : Int
  mark : Char
  exponentDigits : Nat

def Layout.plain : Layout := ⟨-4, 16, 'e', 2⟩

def zeros (n : Nat) : List Char := List.replicate n '0'

def Layout.write (l : Layout) (d : Decimal) : List Char :=
  let ds := Nat.toDigits 10 d.digits
  let e : Int := d.exponent + ds.length - 1
  if l.least ≤ e ∧ e < l.below then
    if e < 0 then '0' :: '.' :: zeros (-e - 1).toNat ++ ds
    else
      let whole := ds.take (e.toNat + 1) ++ zeros (e.toNat + 1 - ds.length)
      let rest := ds.drop (e.toNat + 1)
      whole ++ '.' :: (if rest.isEmpty then ['0'] else rest)
  else
    let power := Nat.toDigits 10 e.natAbs
    let head := match ds with
      | d :: [] => [d]
      | d :: rest => d :: '.' :: rest
      | [] => []
    head ++ l.mark :: (if e < 0 then '-' else '+')
      :: zeros (l.exponentDigits - power.length) ++ power

/-- The text of a number: the shortest decimal, or `inf`, `-inf` and `nan`. -/
def render (x : Binary64) : String :=
  match x.shape with
  | .notANumber => "nan"
  | .infinite negative => if negative then "-inf" else "inf"
  | .finite negative s e =>
    let body := if s = 0 then ['0', '.', '0'] else Layout.plain.write (shortest s e)
    String.ofList (if negative then '-' :: body else body)

def renderHex (x : Binary64) : String :=
  match x.shape with
  | .notANumber | .infinite _ => x.render
  | .finite negative s e =>
    let body :=
      if s = 0 then "0x0.0p+0".toList
      else
        let power : Int := if s < hiddenBit then -1022 else e + 52
        '0' :: 'x' :: Hex.digit (s / hiddenBit) :: '.' :: Hex.digits 13 (s % hiddenBit)
          ++ 'p' :: (if power < 0 then '-' else '+') :: Nat.toDigits 10 power.natAbs
    String.ofList (if negative then '-' :: body else body)

end Bindery.Binary64
