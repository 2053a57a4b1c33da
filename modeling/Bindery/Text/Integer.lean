import Bindery.Text.Blank
import Bindery.Text.DecimalDigit

/-!
# Decimal integers in text

An integer is written with an optional sign and decimal digits, single underscores between them,
and blanks around. Outside ASCII, digits and blanks of every script count like their ASCII forms.
Texts with more digits than the limit are refused.
-/

namespace Bindery.Text

def asciiForm? (c : Char) : Option Char :=
  if c.toNat < 0x7f then some c
  else if isBlank c then some ' '
  else (decimalDigit? c).map fun d => Char.ofNat (48 + d)

/-- The value and the count of digits, of which the first is due; an underscore needs a digit on
either side. -/
def readDigits (value count : Nat) : List Char → Option (Nat × Nat)
  | [] => none
  | c :: rest =>
    if '0' ≤ c ∧ c ≤ '9' then
      let value := 10 * value + (c.toNat - 48)
      match rest with
      | [] => some (value, count + 1)
      | '_' :: rest => readDigits value (count + 1) rest
      | rest => readDigits value (count + 1) rest
    else none

def trimAscii (cs : List Char) : List Char :=
  ((cs.dropWhile isAsciiBlank).reverse.dropWhile isAsciiBlank).reverse

def readAsciiInteger (limit : Nat) (cs : List Char) : Option Int := do
  let cs := trimAscii cs
  let (negative, digits) := match cs with
    | '-' :: rest => (true, rest)
    | '+' :: rest => (false, rest)
    | rest => (false, rest)
  let (n, count) ← readDigits 0 0 digits
  if limit < count then none
  else some (if negative then -(n : Int) else n)

def isAscii (c : Char) : Bool := c.toNat < 0x80

def readInteger (limit : Nat) (s : String) : Option Int :=
  let cs := s.toList
  if cs.all isAscii then readAsciiInteger limit cs
  else (cs.mapM asciiForm?).bind (readAsciiInteger limit)

end Bindery.Text
