import Bindery.Contract.Basic
import Bindery.Contract.Options
import Bindery.Transaction.Invoke

/-!
# Deferred calls

A call of a contract function that has been written down but neither checked nor signed. Building it
checks the options, finds the function, checks the arguments and lays out a transaction; sending it
also signs the transaction and submits it once.
-/

namespace Bindery

def defaultGas : Gas → String
  | .price => "500"
  | .limit => "20000"

/-- The text of a gas option; an absent, empty or zero one takes the default. -/
def Options.gasText (gas : Gas) : Option (TextOr Int) → Except Failure Text
  | none => .ok (defaultGas gas)
  | some (.text t) => .ok (if t.isEmpty then defaultGas gas else t)
  | some (.is n) =>
    if n = 0 then .ok (defaultGas gas)
    else if Json.isLong n then .error (.misuse .longInteger)
    else .ok (toString n)

def Options.payerAddress (o : Options) : Except Failure (Option Address) :=
  match o.payer with
  | none => .ok none
  | some (.is a) => .ok (some a)
  | some (.text t) => (Address.parse (.text t)).map some

def Options.signingKey (o : Options) : Except Failure PrivateKey :=
  match o.privateKey with
  | .is k => .ok k
  | .text t => PrivateKey.ofHex (.text t)

structure Call where
  contract : Contract
  function : Text
  arguments : List Value

namespace Call

def elements (v : Value) : Except Failure (List Value) :=
  match v.elements? with
  | some vs => .ok vs
  | none => .error (.misuse (.notIterable v.typeName))

def make (contract : Contract) (function : Text) (arguments : Value) : Except Failure Call :=
  (elements arguments).map fun vs => ⟨contract, function, vs⟩

def resolve (call : Call) : Except Failure Abi.Function :=
  match call.contract.abi.function? call.function with
  | some f => .ok f
  | none => .error (.unknownFunction call.function)

/-- The argument for a parameter; byte arrays become hexadecimal text. -/
def argument (p : Abi.Parameter) (v : Value) : Except Failure Argument := do
  if p.kind = .byteArray then
    let (tag, content) ← ByteArray.tag v
    return ⟨p.name, p.kind, ← ByteArray.hexText tag content⟩
  else return ⟨p.name, p.kind, v⟩

def arguments? (call : Call) (f : Abi.Function) : Except Failure (List Argument) :=
  if call.arguments.length = f.parameters.length then
    (f.parameters.zip call.arguments).mapM fun (p, v) => argument p v
  else
    .error (.parameter (.arity f.name f.parameters.length call.arguments.length))

def transaction (levels : Nat) (call : Call) (options : Options) (nonce : Value) :
    Except Failure Transaction := do
  let f ← call.resolve
  let arguments ← call.arguments? f
  let price ← Options.gasText .price options.gasPrice
  let limit ← Options.gasText .limit options.gasLimit
  let payer ← options.payerAddress
  let address ← call.contract.address
  Transaction.invoke levels f.name arguments address (.text price) (.text limit) payer nonce

def buildWith (levels : Nat) (call : Call) (options : Options) (nonce : Value) :
    Activity Transaction := do
  let tx ← Activity.ofExcept (call.transaction levels options nonce)
  let address ← Activity.ofExcept call.contract.address
  Activity.log (Transaction.builtRecord tx.function address)
  return tx

def build (levels : Nat) (call : Call) (given : GivenOptions) (nonce : Value) :
    Activity Transaction := do
  call.buildWith levels (← Activity.ofExcept given.options) nonce

/-- The hash under which a transaction is known to the network, last byte first. -/
def submittingRecord (call : Call) (hash : Bytes) : LogRecord :=
  ⟨.debug, .contract, s!"Submitting {call.function} transaction {Hex.encode hash.reverse}"⟩

def layout (r : Except FieldError α) : Activity α := Activity.ofExcept (r.mapError .field)

def send (levels : Nat) (call : Call) (given : GivenOptions) (client : Option Client)
    (nonce : Value) : Activity Value := do
  let options ← Activity.ofExcept given.options
  let tx ← call.buildWith levels options nonce
  let key ← Activity.ofExcept options.signingKey
  let tx ← layout (tx.sign key)
  let hash ← layout tx.hash
  Activity.log (call.submittingRecord hash)
  let text ← layout tx.text
  Activity.ask (client.or call.contract.client) (.sendRawTransaction text false)

end Call

end Bindery
