import Bindery.P256.Signature

/-!
# Keys

A private key is a nonzero scalar, a public key a point of the curve. Private keys are written as
their 32 bytes, public keys as the parity of `y` and the 32 bytes of `x`.
-/

namespace Bindery

open P256

structure PrivateKey where
  scalar : Scalar
  nonzero : scalar ≠ 0
  deriving DecidableEq

inductive PrivateKeyError
  | wrongLength (n : Nat)
  | zero
  | tooLarge
  deriving DecidableEq, Repr

namespace PrivateKey

def ofBytes (b : Bytes) : Except PrivateKeyError PrivateKey :=
  if b.length = 32 then
    let n := Bytes.toNatBig b
    if h : n < order then
      if h0 : (⟨n, h⟩ : Scalar) ≠ 0 then .ok ⟨⟨n, h⟩, h0⟩ else .error .zero
    else .error .tooLarge
  else .error (.wrongLength b.length)

def toBytes (k : PrivateKey) : Bytes := Bytes.bigEndian 32 k.scalar.val

/-- A key for every number, each key as often as any other up to one. -/
def ofNat (n : Nat) : PrivateKey :=
  ⟨⟨n % (order - 1) + 1, by have := Nat.mod_lt n (show 0 < order - 1 by decide); omega⟩, by
    intro h
    simpa using congrArg Fin.val h⟩

end PrivateKey

structure PublicKey where
  point : Point
  deriving DecidableEq

inductive PublicKeyError
  | empty
  | unsupportedForm
  | notOnCurve
  deriving DecidableEq, Repr

namespace PublicKey

def ofPrivate (k : PrivateKey) : PublicKey := ⟨Point.multiple k.scalar.val Point.generator⟩

def coordinate? (b : Bytes) : Option Coordinate :=
  let n := Bytes.toNatBig b
  if h : n < fieldPrime then some ⟨n, h⟩ else none

def decompress? (odd : Nat) (x : Coordinate) : Option Point :=
  let y := squareRoot (cubic x)
  if y * y = cubic x then
    some (.affine x (if y.val % 2 = odd then y else 0 - y))
  else none

/-- Reads a compressed point, or an uncompressed one with both coordinates. -/
def ofBytes : Bytes → Except PublicKeyError PublicKey
  | [] => .error .empty
  | form :: rest =>
    let point? : Option Point := do
      if form = 4 then
        if rest.length ≠ 64 then none
        let x ← coordinate? (rest.take 32)
        let y ← coordinate? (rest.drop 32)
        if y * y = cubic x then some (.affine x y) else none
      else
        if rest.length ≠ 32 then none
        decompress? (form.toNat % 2) (← coordinate? rest)
    if form = 2 ∨ form = 3 ∨ form = 4 then
      match point? with
      | some p => .ok ⟨p⟩
      | none => .error .notOnCurve
    else .error .unsupportedForm

def toBytes (k : PublicKey) : Bytes :=
  match k.point with
  | .infinity => [0]
  | .affine x y => UInt8.ofNat (2 + y.val % 2) :: Bytes.bigEndian 32 x.val

def verify (k : PublicKey) (signature message : Bytes) : Bool :=
  match Signature.ofBytes? signature with
  | some sig => P256.verify k.point sig message
  | none => false

end PublicKey

namespace PrivateKey

def publicKey (k : PrivateKey) : PublicKey := .ofPrivate k

/-- The signature over the SHA-256 hash of `message`, in 64 bytes. -/
def sign (k : PrivateKey) (message : Bytes) : Bytes := (P256.sign k.scalar message).toBytes

end PrivateKey

def PrivateKeyError.message : PrivateKeyError → String
  | .wrongLength n => s!"Private key must be 32 bytes, got {n}"
  | .zero => "Invalid private key: private_value must be a positive integer."
  | .tooLarge => "Invalid private key: Invalid EC key (key out of range, infinity, etc.)"

def PublicKeyError.message : PublicKeyError → String
  | .empty => "Invalid public key: data must not be an empty byte string"
  | .unsupportedForm => "Invalid public key: Unsupported elliptic curve point type"
  | .notOnCurve => "Invalid public key: Invalid EC key."

end Bindery
