import Bindery.Value.Buffer

/-!
# Addresses and keys from values

A contract's address is its code hash with the bytes in reverse order. An address is given as
itself, as forty hexadecimal characters or in Base58; the length alone tells the two texts apart. A
private key is given by hexadecimal text, a public key by bytes.
-/

namespace Bindery.Address

def ofBytes (b : Bytes) : Except Failure Address :=
  match ofBytes? b with
  | some a => .ok a
  | none => .error (.conversion (.addressLength b.length))

def ofElements (v : Value) : Except Failure Address := do
  let n ← v.length
  if n ≠ 20 then throw (.conversion (.addressLength n))
  ofBytes (← v.bytes .encodingText)

def ofCodeHash (hash : Value) : Except Failure Address := do
  ofBytes (← hexBytes hash).reverse

def parse (v : Value) : Except Failure Address :=
  match v with
  | .address a => .ok a
  | v =>
    match v.text? with
    | none => .error (.conversion (.notAddress v.typeName))
    | some t =>
      if t.size = 40 then do ofBytes (← hexBytes v)
      else
        match t.whole?.bind ofBase58? with
        | some a => .ok a
        | none => withLiteral v fun shown => .error (.conversion (.base58 shown))

end Bindery.Address

namespace Bindery.PrivateKey

def ofHex (v : Value) : Except Failure PrivateKey := do
  (ofBytes (← hexBytes v)).mapError fun e => .conversion (.privateKey e)

def signValue (k : PrivateKey) (message : Value) : Except Failure Bytes :=
  message.message.map k.sign

end Bindery.PrivateKey

namespace Bindery.PublicKey

/-- The key that a byte string gives; it has to be one that stays as it is. -/
def ofValue : Value → Except Failure PublicKey
  | .blob .fixed data => (ofBytes data).mapError fun e => .conversion (.publicKey e)
  | _ => .error (.misuse .notBytes)

/-- Whether a signature over a message is the key's. A signature of another length is not, whatever
the message; one of the right length is cut in half, which named members do not allow. -/
def verifyValue (k : PublicKey) (signature message : Value) : Except Failure Bool := do
  if (← signature.length) ≠ 64 then return false
  if let .dict _ := signature then throw (.misuse .slicedMembers)
  let signature ← signature.bytes .unconvertibleText
  return k.verify signature (← message.message)

end Bindery.PublicKey
