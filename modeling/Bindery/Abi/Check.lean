import Bindery.Abi.Basic
import Bindery.Failure

/-!
# Reading contract interfaces

The grammar of an interface document: a text `hash` and a list `functions` of objects with a text
`name` and, if present, a list `parameters` of objects with the texts `name` and `type`. A document
outside the grammar is refused with all places at which it leaves it.
-/

namespace Bindery

namespace Checked

/-- A text; a byte string counts as the text that it encodes in UTF-8. -/
def text (place : List Step) (v : Value) : Checked Text :=
  match v.text? with
  | some t => .ok t
  | none =>
    match v with
    | .blob .fixed data | .blob .mutable data =>
      match Text.decodeUtf8? data with
      | some s => .ok s
      | none => violation place .unicodeText
    | _ => violation place .text

def items (place : List Step) (check : List Step → Value → Checked α) (v : Value) :
    Checked (List α) :=
  match v.sequence? with
  | some vs => all (fun i => check (place ++ [.index i])) 0 vs
  | none => violation place .list

/-- The member of that name, which has to be there. -/
def member (place : List Step) (name : String) (check : List Step → Value → Checked α)
    (members : List (Text × Value)) : Checked α :=
  match Json.member? name members with
  | some v => check (place ++ [.name name]) v
  | none => violation (place ++ [.name name]) .present

def memberD (place : List Step) (name : String) (check : List Step → Value → Checked α)
    (default : α) (members : List (Text × Value)) : Checked α :=
  match Json.member? name members with
  | some v => check (place ++ [.name name]) v
  | none => .ok default

/-- The members of an object; `model` names what the object stands for, and a record of that type is
as good as an object. -/
def object (place : List Step) (model : String) (v : Value)
    (check : List (Text × Value) → Checked α) : Checked α :=
  match v with
  | .dict members => check members
  | .record type members =>
    if type.name = model then check members else violation place (.object model)
  | _ => violation place (.object model)

/-- Members under whole names. A broken name ends the check of its object, and nothing else is said
of that object. -/
def named (place : List Step) (check : List (Text × Value) → Checked α)
    (members : List (Text × Value)) : Checked α :=
  if members.all (·.1.isWhole) then check members else violation place .unicodeText

end Checked

namespace Abi

def extraOf (declared : List Text) (members : List (Text × Value)) : List (Text × Value) :=
  members.filter fun m => m.1 ∉ declared

def Parameter.check (place : List Step) (v : Value) : Checked Parameter :=
  .object place "AbiParameter" v <| .named place fun members =>
    (Checked.both (.member place "name" .text members) (.member place "type" .text members)).map
      fun (name, type) => ⟨name, type, extraOf ["name", "type"] members⟩

def Function.check (place : List Step) (v : Value) : Checked Function :=
  .object place "AbiFunction" v <| .named place fun members =>
    (Checked.both (.member place "name" .text members)
      (.memberD place "parameters" (.items · Parameter.check) [] members)).map
      fun (name, parameters) => ⟨name, parameters, extraOf ["name", "parameters"] members⟩

def check (members : List (Text × Value)) : Checked Abi :=
  members |> .named [] fun members =>
    (Checked.both (.member [] "hash" .text members)
      (.member [] "functions" (.items · Function.check) members)).map
      fun (hash, functions) => ⟨hash, functions, extraOf ["hash", "functions"] members⟩

def ofMembers (members : List (Text × Value)) : Except Failure Abi :=
  (check members).mapError fun vs => .abi (.invalid vs)

def ofValue : Value → Except Failure Abi
  | .dict members => ofMembers members
  | v => .error (.abi (.notObject v.typeName))

def documentFailure : Json.DocumentError → Failure
  | .malformed d => .abi (.malformed d)
  | .undecodable e => .abi (.undecodable e)
  | .longInteger digits => .misuse (.longIntegerText digits)
  | .tooDeep c => .misuse (.deepDocument c)

def ofText (levels : Nat) (t : Text) : Except Failure Abi := do
  let j ← (Json.parse levels t).mapError documentFailure
  ofValue (.ofJson j)

def ofBytes (levels : Nat) (b : Bytes) : Except Failure Abi := do
  let j ← (Json.parseBytes levels b).mapError documentFailure
  ofValue (.ofJson j)

def ofSource (levels : Nat) (v : Value) : Except Failure Abi :=
  match v.text? with
  | some t => ofText levels t
  | none =>
    match v with
    | .blob .fixed data | .blob .mutable data => ofBytes levels data
    | v => .error (.misuse (.noDocument v.typeName))

/-- The interface in a decoded object, a JSON text or its encoded bytes. -/
def parse (levels : Nat) (v : Value) : Except Failure Abi :=
  match v with
  | .dict members => ofMembers members
  | v => ofSource levels v

end Abi

end Bindery
