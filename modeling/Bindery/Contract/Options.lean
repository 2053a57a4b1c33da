import Bindery.Abi.Check

/-!
# Options of a call

The signing key and, optionally, the payer and the gas of a call. Every option goes by two
spellings, of which the one in mixed case wins; other members are ignored. A value that could be a
text or something else is taken as a text if it can be one.
-/

namespace Bindery

/-- A text, or a value of the type that is meant. -/
inductive TextOr (α : Type)
  | text (t : Text)
  | is (a : α)

structure Options where
  payer : Option (TextOr Address)
  privateKey : TextOr PrivateKey
  gasPrice : Option (TextOr Int)
  gasLimit : Option (TextOr Int)

namespace TextOr

def toValue (wrap : α → Value) : TextOr α → Value
  | .text t => .text t
  | .is a => wrap a

def toValue? (wrap : α → Value) : Option (TextOr α) → Value
  | none => .null
  | some x => x.toValue wrap

end TextOr

def Options.toValue (o : Options) : Value :=
  .record .options
    [ ("payer", TextOr.toValue? .address o.payer),
      ("private_key", o.privateKey.toValue .key),
      ("gas_price", TextOr.toValue? .int o.gasPrice),
      ("gas_limit", TextOr.toValue? .int o.gasLimit) ]

namespace Checked

/-- The value of either alternative; if neither fits, the violations of both, each at its own place.
-/
def textOr (place : List Step) (alternative : String) (check : Value → Except Rule α)
    (v : Value) : Checked (TextOr α) :=
  match text (place ++ [.name "str"]) v with
  | .ok t => .ok (.text t)
  | .error vs =>
    match check v with
    | .ok a => .ok (.is a)
    | .error rule => .error (vs ++ [⟨place ++ [.name alternative], rule⟩])

def address (place : List Step) : Value → Checked (TextOr Address) :=
  textOr place "is-instance[Address]" fun
    | .address a => .ok a
    | _ => .error (.instanceOf "Address")

def privateKey (place : List Step) : Value → Checked (TextOr PrivateKey) :=
  textOr place "is-instance[PrivateKey]" fun
    | .key k => .ok k
    | _ => .error (.instanceOf "PrivateKey")

/-- The integer of a number; one with a point has to be whole and of 64 bits. -/
def wholeNumber : Value → Except Rule Int
  | .int n => .ok n
  | .bool b => .ok (if b then 1 else 0)
  | .float x =>
    match x.truncate? with
    | none => .error .finiteNumber
    | some n =>
      if !x.isWhole then .error .wholeNumber
      else if n.natAbs < 0x8000000000000000 then .ok n
      else .error .machineInteger
  | .blob .fixed _ => .error .integerText
  | _ => .error .integer

def integer (place : List Step) : Value → Checked (TextOr Int) :=
  textOr place "int" wholeNumber

def optional (check : Value → Checked α) : Value → Checked (Option α)
  | .null => .ok none
  | v => (check v).map some

end Checked

namespace Options

/-- The member under the first of its spellings that occurs. -/
def spelled? (members : List (Text × Value)) (spellings : List String) :
    Option (String × Value) :=
  spellings.findSome? fun (s : String) => (Json.member? s members).map fun v => (s, v)

def optionalMember (check : List Step → Value → Checked α) (spellings : List String)
    (members : List (Text × Value)) : Checked (Option α) :=
  match spelled? members spellings with
  | none => .ok none
  | some (s, v) => Checked.optional (check [.name s]) v

def privateKeyMember (members : List (Text × Value)) : Checked (TextOr PrivateKey) :=
  match spelled? members ["privateKey", "private_key"] with
  | none => Checked.violation [.name "privateKey"] .present
  | some (s, v) => Checked.privateKey [.name s] v

def check (v : Value) : Checked Options :=
  Checked.object [] "TxParams" v fun members =>
    let payer := optionalMember Checked.address ["payer"] members
    let price := optionalMember Checked.integer ["gasPrice", "gas_price"] members
    let limit := optionalMember Checked.integer ["gasLimit", "gas_limit"] members
    (payer.both ((privateKeyMember members).both (price.both limit))).map
      fun (payer, key, price, limit) => ⟨payer, key, price, limit⟩

def ofValue (v : Value) : Except Failure Options :=
  (check v).mapError fun vs => .parameter (.options vs)

end Options

/-- What options are given as: checked before, or still a value. -/
inductive GivenOptions
  | checked (o : Options)
  | value (v : Value)

def GivenOptions.options : GivenOptions → Except Failure Options
  | .checked o => .ok o
  | .value v => Options.ofValue v

end Bindery
