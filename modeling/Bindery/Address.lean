import Bindery.Base58
import Bindery.Sha256

/-!
# Addresses

An account or contract address is twenty bytes. Its text is Base58 of a version byte, the address
and the first four bytes of a double hash over both.
-/

namespace Bindery

structure Address where
  bytes : Bytes
  size : bytes.length = 20
  deriving DecidableEq

namespace Address

def version : UInt8 := 0x17

def zero : Address := ⟨List.replicate 20 0, by simp⟩

def ofBytes? (b : Bytes) : Option Address :=
  if h : b.length = 20 then some ⟨b, h⟩ else none

def checksum (payload : Bytes) : Bytes := (Sha256.hashTwice payload).take 4

def toBase58 (a : Address) : String :=
  let payload := version :: a.bytes
  Base58.encode (payload ++ checksum payload)

/-- Reads the Base58 text of an address: 25 bytes, the version byte and a matching checksum. -/
def ofBase58? (s : String) : Option Address := do
  let b ← Base58.decode? s
  let payload := b.take 21
  if b.length = 25 ∧ b.head? = some version ∧ b.drop 21 = checksum payload then
    ofBytes? (payload.drop 1)
  else none

def reverse (a : Address) : Address := ⟨a.bytes.reverse, by simp [a.size]⟩

end Address

end Bindery
