import Bindery.Bytes
import Bindery.Text.Blank

/-!
# Base58

A byte string is read as one large number and written with 58 digits; its leading zero bytes, which
the number does not show, are written as one digit `1` each. Blanks at the end of a text are no part
of it.
-/

namespace Bindery.Base58

def alphabet : List Char :=
  "123456789ABCDEFGHJKLMNPQRSTUVWXYZabcdefghijkmnopqrstuvwxyz".toList

def digit (n : Nat) : Char := alphabet.getD n '1'

def digitValue? (c : Char) : Option Nat :=
  if c ∈ alphabet then some (alphabet.idxOf c) else none

/-- The digits of a number, most significant first; none for zero. -/
def digitsOf (base : Nat) (h : 1 < base) (n : Nat) : List Nat :=
  if n = 0 then [] else digitsOf base h (n / base) ++ [n % base]
  termination_by n
  decreasing_by exact Nat.div_lt_self (by omega) h

def encode (b : Bytes) : String :=
  String.ofList <|
    List.replicate (b.takeWhile (· = 0)).length '1'
      ++ (digitsOf 58 (by decide) b.toNatBig).map digit

def digitValues? (cs : List Char) : Option (List Nat) := cs.mapM digitValue?

def decode? (s : String) : Option Bytes := do
  let cs := Text.trimEndChars s.toList
  let zeros := (cs.takeWhile (· = '1')).length
  let values ← digitValues? (cs.drop zeros)
  let n := values.foldl (fun n v => 58 * n + v) 0
  return List.replicate zeros 0 ++ (digitsOf 256 (by decide) n).map UInt8.ofNat

end Bindery.Base58
