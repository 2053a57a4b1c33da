import Bindery.Transaction.Basic

/-!
# Handling a transaction

A transaction is assigned to, signed and written in any order and any number of times. A step works
on the transaction as it finds it, and what it has changed before it fails stays changed; after a
step that fails one goes on with what it has left.
-/

namespace Bindery.Transaction

abbrev Handling := ExceptT FieldError (StateM Transaction)

namespace Handling

def ofExcept (r : Except FieldError α) : Handling α := ExceptT.mk (pure r)

def hash : Handling Bytes := do ofExcept (← get).hash

def text : Handling String := do ofExcept (← get).text

def assign (a : Assignment) : Handling Unit := modify fun tx => tx.assign a

/-- Signs the transaction at hand; earlier signatures are replaced once there is a new one. -/
def sign (k : PrivateKey) : Handling Unit := do
  let h ← hash
  modify fun tx => tx.endorse k h

def run (step : Handling α) (tx : Transaction) : Except FieldError α × Transaction :=
  StateT.run (m := Id) (ExceptT.run step) tx

end Handling

inductive Action
  | assign (a : Assignment)
  | sign (k : PrivateKey)
  | serialize
  | hash

inductive Reply
  | done
  | text (s : String)
  | hash (b : Bytes)
  deriving DecidableEq

def Action.perform : Action → Handling Reply
  | .assign a => do
    Handling.assign a
    return .done
  | .sign k => do
    Handling.sign k
    return .done
  | .serialize => return .text (← Handling.text)
  | .hash => return .hash (← Handling.hash)

/-- The transaction after some actions, of which each may fail. -/
def after (tx : Transaction) : List Action → Transaction
  | [] => tx
  | a :: rest => after (a.perform.run tx).2 rest

end Bindery.Transaction
