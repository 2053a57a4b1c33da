import Bindery.Bytes
import Bindery.Text.CodePoint

/-!
# Hexadecimal text

Bytes are written as two lowercase digits each. Reading is more lenient than writing: digits of
either case, ASCII blanks before, between and after whole bytes, and one `0x` marker at the very
start of the text.
-/

namespace Bindery.Hex

def digit (n : Nat) : Char :=
  if n < 10 then Char.ofNat (48 + n) else Char.ofNat (87 + n)

def digitValue? (c : Char) : Option Nat :=
  if '0' ≤ c ∧ c ≤ '9' then some (c.toNat - 48)
  else if 'a' ≤ c ∧ c ≤ 'f' then some (c.toNat - 87)
  else if 'A' ≤ c ∧ c ≤ 'F' then some (c.toNat - 55)
  else none

def digits : (width n : Nat) → List Char
  | 0, _ => []
  | width + 1, n => digits width (n / 16) ++ [digit (n % 16)]

def digitsOf (b : UInt8) : List Char := [digit (b.toNat / 16), digit (b.toNat % 16)]

def encode (b : Bytes) : String := String.ofList (b.flatMap digitsOf)

/-- The blanks that may stand between the digit pairs of two bytes. -/
def isBlank (c : Char) : Bool :=
  c = ' ' || c = '\t' || c = '\n' || c = '\x0b' || c = '\x0c' || c = '\r'

/-- Reads digit pairs; a blank inside a pair and a digit without its partner are refused. -/
def readPairs : List Char → Option Bytes
  | [] => some []
  | [c] => if isBlank c then some [] else none
  | c :: d :: rest =>
    if isBlank c then readPairs (d :: rest)
    else do
      let high ← digitValue? c
      let low ← digitValue? d
      return UInt8.ofNat (16 * high + low) :: (← readPairs rest)

def dropMarkerChars : List Char → List Char
  | '0' :: 'x' :: rest => rest
  | '0' :: 'X' :: rest => rest
  | cs => cs

/-- The text without one leading `0x` or `0X`. -/
def dropMarker (s : String) : String := String.ofList (dropMarkerChars s.toList)

/-- Any text without one leading `0x` or `0X`. -/
def withoutMarker : Text → Text
  | .whole s => dropMarker s
  | .broken b =>
    match b.points with
    | .char '0' :: .char 'x' :: rest | .char '0' :: .char 'X' :: rest => .ofPoints rest
    | _ => .broken b

def decode? (s : String) : Option Bytes := readPairs (dropMarkerChars s.toList)

end Bindery.Hex
