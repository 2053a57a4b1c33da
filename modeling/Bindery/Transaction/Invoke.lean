import Bindery.Log
import Bindery.Text.Integer
import Bindery.Transaction.Basic

/-!
# Building invocations

A call becomes a transaction when every argument conforms to its kind and both gas values are
integers that fit 64 bits. Gas is given by a number or by its decimal text.
-/

namespace Bindery

inductive IntegerError
  | unreadable
  | misuse (e : Misuse)

namespace Value

/-- The integer that a value denotes; a fraction is cut off. -/
def toInteger : Value → Except IntegerError Int
  | .int n => .ok n
  | .bool b => .ok (if b then 1 else 0)
  | .float x =>
    match x.truncate? with
    | some n => .ok n
    | none =>
      match x.shape with
      | .infinite _ => .error (.misuse .infinity)
      | _ => .error .unreadable
  | .text t => ofOption (t.whole?.bind (Text.readInteger Json.digitLimit))
  | .kind k => ofOption (Text.readInteger Json.digitLimit k.typeName)
  | .blob _ data =>
    ofOption (Text.readAsciiInteger Json.digitLimit (data.map fun b => Char.ofNat b.toNat))
  | v => .error (.misuse (.notNumber v.typeName))
where
  ofOption (n : Option Int) : Except IntegerError Int :=
    match n with
    | some n => .ok n
    | none => .error .unreadable

end Value

def gasNumber (gas : Gas) (v : Value) : Except Failure Int :=
  match v.toInteger with
  | .error (.misuse e) => .error (.misuse e)
  | .error .unreadable => withLiteral v fun shown => .error (.conversion (.gasText gas shown))
  | .ok n =>
    if 0 ≤ n ∧ n < 0x10000000000000000 then .ok n
    else withLiteral v fun shown => .error (.conversion (.gasRange gas shown))

namespace Transaction

def notCallable (function : Text) (data : List Datum) : Misuse :=
  match (Script.brokenItem? data).or function.broken? with
  | some b => .unencodable b
  | none => .pushedLength

/-- The unsigned transaction that calls `function` of a contract. Without a payer the zero address
stands in its place; arguments are gone through with `levels` levels. -/
def invoke (levels : Nat) (function : Text) (arguments : List Argument) (contract : Address)
    (gasPrice gasLimit : Value) (payer : Option Address) (nonce : Value) :
    Except Failure Transaction := do
  let data ← arguments.mapM (Argument.datum levels)
  let price ← gasNumber .price gasPrice
  let limit ← gasNumber .limit gasLimit
  if !Script.callable function data then throw (.misuse (notCallable function data))
  return {
    function := function
    arguments := arguments
    version := .int 0
    type := .int invokeType
    nonce := nonce
    gasPrice := .int price
    gasLimit := .int limit
    payer := .bytes (payer.getD Address.zero).bytes
    payload := .bytes (Script.call function data contract)
    attributes := .bytes []
    endorsements := [] }

def builtRecord (function : Text) (contract : Address) : LogRecord :=
  ⟨.debug, .invocation, s!"Built invoke transaction for {function} on {contract.toBase58}"⟩

end Transaction

end Bindery
