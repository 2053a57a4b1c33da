import Bindery.Address
import Bindery.Text.Encoding

/-!
# Scripts of the contract machine

A call is a script that pushes the arguments as one array, then the function name, and ends with the
address of the contract. Small integers have instructions of their own; every other integer is
pushed as its two's complement bytes, least significant first.
-/

namespace Bindery

/-- What a script pushes, and the text that cannot be pushed because no encoding writes it. -/
inductive Datum
  | bytes (b : Bytes)
  | broken (b : Text.Broken)
  | bool (b : Bool)
  | int (n : Int)
  | array (items : List Datum)
  deriving Inhabited

def Datum.ofText : Text → Datum
  | .whole s => .bytes (Text.encodeUtf8 s)
  | .broken b => .broken b

namespace Script

/-- The instruction that pops a count and as many items, and pushes them as an array. -/
def packInstruction : UInt8 := 0xc1

def callInstruction : UInt8 := 0x67

/-- The instruction that pushes the next `n` bytes of the script. -/
def pushPrefix (n : Nat) : Bytes :=
  if n < 75 then [UInt8.ofNat n]
  else if n < 0x100 then [0x4c, UInt8.ofNat n]
  else if n < 0x10000 then 0x4d :: Bytes.littleEndian 2 n
  else 0x4e :: Bytes.littleEndian 4 n

/-- The lengths that a prefix of a push can give are those below. -/
def lengthLimit : Nat := 0x100000000

def fits (b : Bytes) : Bool := b.length < lengthLimit

def pushBytes (b : Bytes) : Bytes := pushPrefix b.length ++ b

def pushBool (b : Bool) : Bytes := [if b then 0x51 else 0x00]

def bitLength (n : Nat) : Nat := if n = 0 then 0 else n.log2 + 1

/-- Two's complement with room for the sign, least significant byte first. -/
def integerBytes (n : Int) : Bytes :=
  let width := bitLength n.natAbs / 8 + 1
  Bytes.littleEndian width (n % Nat.pow 256 width).toNat

def pushInt (n : Int) : Bytes :=
  if n = -1 then [0x4f]
  else if n = 0 then [0x00]
  else if 0 < n ∧ n < 16 then [UInt8.ofNat (0x50 + n.toNat)]
  else pushBytes (integerBytes n)

mutual

def push : Datum → Bytes
  | .bytes b => pushBytes b
  | .broken _ => []
  | .bool b => pushBool b
  | .int n => pushInt n
  | .array items => pushItems items ++ pushInt items.length ++ [packInstruction]

/-- Pushes the items from last to first. -/
def pushItems : List Datum → Bytes
  | [] => []
  | x :: rest => pushItems rest ++ push x

end

mutual

def pushable : Datum → Bool
  | .bytes b => fits b
  | .broken _ => false
  | .bool _ => true
  | .int n => fits (integerBytes n)
  | .array items => pushableItems items && fits (integerBytes items.length)

def pushableItems : List Datum → Bool
  | [] => true
  | x :: rest => pushable x && pushableItems rest

end

def callable (function : Text) (arguments : List Datum) : Bool :=
  pushable (.array arguments) && pushable (.ofText function)

def call (function : Text) (arguments : List Datum) (contract : Address) : Bytes :=
  push (.array arguments) ++ push (.ofText function) ++ callInstruction :: contract.bytes

mutual

def broken? : Datum → Option Text.Broken
  | .broken b => some b
  | .array items => brokenItem? items
  | _ => none

/-- The items are pushed from last to first. -/
def brokenItem? : List Datum → Option Text.Broken
  | [] => none
  | x :: rest => (brokenItem? rest).or (broken? x)

end

end Script

end Bindery
