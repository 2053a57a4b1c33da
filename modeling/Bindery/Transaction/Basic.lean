import Bindery.Contract.Argument

/-!
# Transactions

A transaction that invokes a contract, with the call that it carries. Its fields hold whatever was
assigned to them; whether they can be laid out shows when the transaction is written.
-/

namespace Bindery

/-- A signature with the public key that it answers to, and the number of signatures that are
required. -/
structure Endorsement where
  publicKey : Bytes
  required : Nat
  signature : Bytes
  deriving DecidableEq

def Endorsement.over (k : PrivateKey) (h : Bytes) : Endorsement :=
  ⟨k.publicKey.toBytes, 1, k.sign h⟩

/-- What a field holds that is laid out as bytes: bytes, or any other value, together with what the
writer makes of it. -/
inductive Content
  | bytes (b : Bytes)
  | other (v : Value) (written : Except FieldError Bytes)

/-- What stands for a field in the transaction, given the layout of bytes. -/
def Content.written (layout : Bytes → Except FieldError Bytes) : Content → Except FieldError Bytes
  | .bytes b => layout b
  | .other _ written => written

structure Transaction where
  function : Text
  arguments : List Argument
  version : Value
  type : Value
  nonce : Value
  gasPrice : Value
  gasLimit : Value
  payer : Content
  payload : Content
  attributes : Content
  endorsements : List Endorsement

namespace Transaction

def invokeType : Nat := 0xd1

def byteField (v : Value) : Except FieldError Bytes :=
  match v.number? with
  | none => .error .notInteger
  | some n =>
    if n < -0x8000000000000000 ∨ 0x8000000000000000 ≤ n then .error .outOfRange
    else if n < 0 ∨ 256 ≤ n then .error .notByte
    else .ok [UInt8.ofNat n.toNat]

def wordField (v : Value) : Except FieldError Bytes :=
  match v.number? with
  | none => .error .notInteger
  | some n =>
    if n < 0 ∨ 0x10000000000000000 ≤ n then .error .outOfRange
    else if 0x100000000 ≤ n then .error .notWord
    else .ok (Bytes.littleEndian 4 n.toNat)

def longField (v : Value) : Except FieldError Bytes :=
  match v.number? with
  | none => .error .notInteger
  | some n =>
    if n < 0 ∨ 0x10000000000000000 ≤ n then .error .outOfRange
    else .ok (Bytes.littleEndian 8 n.toNat)

/-- A count in one, three, five or nine bytes. -/
def count (n : Nat) : Except FieldError Bytes :=
  if n < 0xfd then .ok [UInt8.ofNat n]
  else if n < 0x10000 then .ok (0xfd :: Bytes.littleEndian 2 n)
  else if n < 0x100000000 then .ok (0xfe :: Bytes.littleEndian 4 n)
  else if n < 0x10000000000000000 then .ok (0xff :: Bytes.littleEndian 8 n)
  else .error .outOfRange

def counted (b : Bytes) : Except FieldError Bytes := (count b.length).map (· ++ b)

/-- An empty payload is left out together with its count. -/
def payloadField (b : Bytes) : Except FieldError Bytes := if b.isEmpty then .ok [] else counted b

/-- Of the attributes only the number is written. -/
def attributesField (b : Bytes) : Except FieldError Bytes := count b.length

/-- The part of a transaction that is signed. -/
def unsigned (tx : Transaction) : Except FieldError Bytes := do
  let version ← byteField tx.version
  let type ← byteField tx.type
  let nonce ← wordField tx.nonce
  let gasPrice ← longField tx.gasPrice
  let gasLimit ← longField tx.gasLimit
  let payer ← tx.payer.written .ok
  let payload ← tx.payload.written payloadField
  let attributes ← tx.attributes.written attributesField
  return version ++ type ++ nonce ++ gasPrice ++ gasLimit ++ payer ++ payload ++ attributes

/-- The instruction that checks a signature against the key before it. -/
def checkInstruction : UInt8 := 0xac

/-- With a single key the number that is required is not written. -/
def Endorsement.layout (e : Endorsement) : Except FieldError Bytes := do
  let invocation ← counted (Script.pushBytes e.signature)
  let verification ← counted (Script.pushBytes e.publicKey ++ [checkInstruction])
  return invocation ++ verification

def signed (tx : Transaction) : Except FieldError Bytes := do
  let head ← tx.unsigned
  let number ← count tx.endorsements.length
  let endorsements ← tx.endorsements.mapM Endorsement.layout
  return head ++ number ++ endorsements.flatten

def text (tx : Transaction) : Except FieldError String := tx.signed.map Hex.encode

/-- What is signed, and what a transaction is known by. -/
def hash (tx : Transaction) : Except FieldError Bytes := tx.unsigned.map Sha256.hashTwice

def endorse (tx : Transaction) (k : PrivateKey) (h : Bytes) : Transaction :=
  { tx with endorsements := [.over k h] }

def sign (k : PrivateKey) (tx : Transaction) : Except FieldError Transaction := do
  return tx.endorse k (← tx.hash)

inductive Assignment
  | version (v : Value)
  | type (v : Value)
  | nonce (v : Value)
  | gasPrice (v : Value)
  | gasLimit (v : Value)
  | payer (c : Content)
  | payload (c : Content)
  | attributes (c : Content)

def assign (tx : Transaction) : Assignment → Transaction
  | .version v => { tx with version := v }
  | .type v => { tx with type := v }
  | .nonce v => { tx with nonce := v }
  | .gasPrice v => { tx with gasPrice := v }
  | .gasLimit v => { tx with gasLimit := v }
  | .payer c => { tx with payer := c }
  | .payload c => { tx with payload := c }
  | .attributes c => { tx with attributes := c }

end Transaction

end Bindery
