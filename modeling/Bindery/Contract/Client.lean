import Bindery.Failure
import Bindery.Log

/-!
# Clients and activities

A client answers requests about contracts. An activity is a run of an operation: it leaves a trace
of the requests made, with the client asked, and of the log records, and ends in a result or a
failure.
-/

namespace Bindery

inductive Request
  | sendRawTransaction (data : String) (preExecute : Bool)
  | storage (codeHash : Text) (key : String)
  | contract (codeHash : Text)
  | contractJson (codeHash : Text)
  deriving DecidableEq, Repr

def Request.method : Request → String
  | .sendRawTransaction .. => "send_raw_transaction"
  | .storage .. => "get_storage"
  | .contract _ => "get_contract"
  | .contractJson _ => "get_contract_json"

structure Client where
  name : String
  answer : Request → Except Failure Value

structure Trace where
  requests : List (String × Request)
  logs : List LogRecord

abbrev Activity := ExceptT Failure (StateM Trace)

namespace Activity

def fail (f : Failure) : Activity α := throw f

def ofExcept (r : Except Failure α) : Activity α := ExceptT.mk (pure r)

def log (r : LogRecord) : Activity Unit :=
  modify fun t => { t with logs := t.logs ++ [r] }

/-- Asks a client; where none is bound there is nothing to ask. -/
def ask (client : Option Client) (request : Request) : Activity Value :=
  match client with
  | none => fail (.misuse (.noMember "NoneType" request.method))
  | some c => do
    modify fun t => { t with requests := t.requests ++ [(c.name, request)] }
    ofExcept (c.answer request)

/-- The result and the trace of an activity that starts with nothing done. -/
def run (a : Activity α) : Except Failure α × Trace := StateT.run (m := Id) (ExceptT.run a) ⟨[], []⟩

end Activity

end Bindery
