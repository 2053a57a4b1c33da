import Bindery.Failure

/-!
# Values as byte strings

What takes a byte string takes it as one of the three forms of byte strings. Some places also take a
list of numbers below 256, and none takes a text: it has no bytes without an encoding.
-/

namespace Bindery.Value

def length? : Value → Option Nat
  | .blob _ data => some data.length
  | .list items | .tuple items => some items.length
  | .dict members => some members.length
  | .text t => some t.size
  | .kind k => some k.typeName.length
  | _ => none

def length (v : Value) : Except Failure Nat :=
  match v.length? with
  | some n => .ok n
  | none => .error (.misuse (.noLength v.typeName))

def byte (v : Value) : Except Failure UInt8 :=
  match v.number? with
  | none => .error (.misuse (.notIndex v.typeName))
  | some n =>
    if 0 ≤ n ∧ n < 256 then .ok (UInt8.ofNat n.toNat) else .error (.misuse .byteRange)

/-- The bytes of a value with elements; `text` is what is wrong with a text. -/
def bytes (text : Misuse) : Value → Except Failure Bytes
  | .blob _ data => .ok data
  | .list items | .tuple items => items.mapM byte
  | .dict members => members.mapM fun m => byte (.text m.1)
  | _ => .error (.misuse text)

def message : Value → Except Failure Bytes
  | .blob _ data => .ok data
  | v => .error (.misuse (.notBuffer v.shownType v.text?.isSome))

def hashed : Value → Except Failure Bytes
  | .blob _ data => .ok data
  | v => .error (.misuse (if v.text?.isSome then .hashedText else .unhashable))

def utf8 (v : Value) : Except Failure Bytes :=
  match v.text? with
  | some (.whole s) => .ok (Text.encodeUtf8 s)
  | some (.broken b) => .error (.misuse (.unencodable b))
  | none => .error (.misuse (v.withoutOperation "encode"))

end Bindery.Value
