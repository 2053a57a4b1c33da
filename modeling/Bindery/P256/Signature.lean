import Bindery.P256.Curve
import Bindery.Sha256

/-!
# ECDSA over P-256 with SHA-256

A signature is a pair of scalars. Its nonce is derived from the key and the message hash by the
keyed hash, so a message has one signature under a key.
-/

namespace Bindery.P256

structure Signature where
  r : Scalar
  s : Scalar
  deriving DecidableEq

def digest (message : Bytes) : Scalar := Fin.ofNat order (Bytes.toNatBig (Sha256.hash message))

/-- The signature with nonce `k`, unless one of its halves would be zero. -/
def signWith? (d e : Scalar) (k : Nat) : Option Signature :=
  match Point.multiple k Point.generator with
  | .infinity => none
  | .affine x _ =>
    let r : Scalar := Fin.ofNat order x.val
    let s := inverse (Fin.ofNat order k) * (e + r * d)
    if r = 0 ∨ s = 0 then none else some ⟨r, s⟩

/-- The state of the nonce generator: a key and a running value. -/
structure NonceState where
  key : Bytes
  value : Bytes

def NonceState.mix (st : NonceState) (tag : UInt8) (seed : Bytes) : NonceState :=
  let key := Sha256.hmac st.key (st.value ++ tag :: seed)
  ⟨key, Sha256.hmac key st.value⟩

def NonceState.start (d e : Scalar) : NonceState :=
  let seed := Bytes.bigEndian 32 d.val ++ Bytes.bigEndian 32 e.val
  let st : NonceState := ⟨List.replicate 32 0, List.replicate 32 1⟩
  (st.mix 0 seed).mix 1 seed

/-- The first signature that `attempt` makes from the next values of the generator, those outside
the scalars left out. After `count` refusals it tries one and two, of which one always succeeds. -/
def NonceState.search (attempt : Nat → Option Signature) (st : NonceState) :
    (count : Nat) → Option Signature
  | 0 => (attempt 1).orElse fun _ => attempt 2
  | count + 1 =>
    let value := Sha256.hmac st.key st.value
    let k := Bytes.toNatBig value
    match if 0 < k ∧ k < order then attempt k else none with
    | some sig => some sig
    | none => NonceState.search attempt (NonceState.mix ⟨st.key, value⟩ 0 []) count

def sign (d : Scalar) (message : Bytes) : Signature :=
  let e := digest message
  ((NonceState.start d e).search (signWith? d e) 64).getD ⟨1, 1⟩

def verify (q : Point) (sig : Signature) (message : Bytes) : Bool :=
  let w := inverse sig.s
  let p := (Point.multiple (digest message * w).val Point.generator).add
    (Point.multiple (sig.r * w).val q)
  match p with
  | .infinity => false
  | .affine x _ => sig.r ≠ 0 && sig.s ≠ 0 && Fin.ofNat order x.val = sig.r

def Signature.toBytes (sig : Signature) : Bytes :=
  Bytes.bigEndian 32 sig.r.val ++ Bytes.bigEndian 32 sig.s.val

/-- Refuses other lengths than 64 and halves that are no scalars. -/
def Signature.ofBytes? (b : Bytes) : Option Signature :=
  let r := Bytes.toNatBig (b.take 32)
  let s := Bytes.toNatBig (b.drop 32)
  if h : b.length = 64 ∧ r < order ∧ s < order then some ⟨⟨r, h.2.1⟩, ⟨s, h.2.2⟩⟩ else none

end Bindery.P256
