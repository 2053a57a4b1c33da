import Bindery.Abi.Basic
import Bindery.Contract.Client
import Bindery.Contract.Identity

/-!
# Contracts

A deployed contract: its interface and the client through which it is reached. Its storage is asked
for by the hexadecimal text of a key, and a reply other than success is a failure.
-/

namespace Bindery

structure Contract where
  abi : Abi
  client : Option Client

namespace Contract

def codeHash (c : Contract) : Text := c.abi.codeHash

def address (c : Contract) : Except Failure Address := Address.ofCodeHash (.text c.codeHash)

def storageKey (key : Value) : Except Failure String :=
  key.utf8.map Hex.encode

/-- Whether a value equals zero, as a number or a truth value. -/
def isZero : Value → Bool
  | .int n => n = 0
  | .bool b => !b
  | .float x => x.magnitude = 0
  | _ => false

def storageResult : Value → Except Failure Value
  | .dict members =>
    let get (name : Text) := (Json.member? name members).getD .null
    let code := get "Error"
    let description := get "Desc"
    if isZero code then .ok (get "Result")
    else if code.hasLongInteger || description.hasLongInteger then .error (.misuse .longInteger)
    else .error (.storage code description)
  | v => .error (.misuse (v.withoutOperation "get"))

def getStorage (c : Contract) (key : Value) : Activity Value := do
  if c.client.isNone then Activity.fail (.misuse (.noMember "NoneType" "get_storage"))
  let key ← Activity.ofExcept (storageKey key)
  let reply ← Activity.ask c.client (.storage c.codeHash key)
  Activity.ofExcept (storageResult reply)

def getContract (c : Contract) : Activity Value := Activity.ask c.client (.contract c.codeHash)

def getContractJson (c : Contract) : Activity Value :=
  Activity.ask c.client (.contractJson c.codeHash)

end Contract

end Bindery
