import Bindery.Binary64.Basic
import Bindery.Text.CodePoint

/-!
# JSON documents

Objects keep their members in document order with distinct names; numbers written without a point
and an exponent are integers of any size.
-/

namespace Bindery

inductive Json
  | null
  | bool (b : Bool)
  | int (n : Int)
  | float (x : Binary64)
  | str (t : Text)
  | arr (items : List Json)
  | obj (members : List (Text × Json))
  deriving BEq, Repr, Inhabited

namespace Json

/-- Sets a member: a name that is there keeps its place. -/
def setMember (name : Text) (value : α) : List (Text × α) → List (Text × α)
  | [] => [(name, value)]
  | m :: rest => if m.1 = name then (name, value) :: rest else m :: setMember name value rest

/-- The members with repeated names joined: the last value at the first place. -/
def joinMembers (members : List (Text × α)) : List (Text × α) :=
  members.foldl (fun done m => setMember m.1 m.2 done) []

def member? (name : Text) (members : List (Text × α)) : Option α :=
  (members.find? (·.1 = name)).map (·.2)

def get? (name : Text) : Json → Option Json
  | .obj members => member? name members
  | _ => none

/-- The largest count of decimal digits of an integer that is read or written. -/
def digitLimit : Nat := 4300

/-- The least magnitude with more digits than the limit. -/
def longMagnitude : Nat := Nat.pow 10 digitLimit

def isLong (n : Int) : Bool := longMagnitude ≤ n.natAbs

mutual

/-- Whether some integer of the document has more digits than can be written. -/
def hasLongInteger : Json → Bool
  | .int n => isLong n
  | .arr items => anyLongInteger items
  | .obj members => anyLongMember members
  | _ => false

def anyLongInteger : List Json → Bool
  | [] => false
  | x :: rest => hasLongInteger x || anyLongInteger rest

def anyLongMember : List (Text × Json) → Bool
  | [] => false
  | (_, x) :: rest => hasLongInteger x || anyLongMember rest

end

end Json

end Bindery
