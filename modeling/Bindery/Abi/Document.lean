import Bindery.Abi.Check
import Bindery.Json.Print

/-!
# Writing contract interfaces

The document of an interface: declared members first, then the kept ones. Kept values become plain
JSON on the way: a number that is not finite becomes null, a tuple a list and a byte string the text
that it encodes. A kept value may nest only so many values in one another, under whole names.
-/

namespace Bindery

mutual

/-- The document of a value that may nest `depth` values in one another, itself counted. -/
def Value.toJson (depth : Nat) (v : Value) : Except Failure Json :=
  match depth, v with
  | 0, _ => .error (.misuse .deepValue)
  | _ + 1, .null => .ok .null
  | _ + 1, .bool b => .ok (.bool b)
  | _ + 1, .int n => .ok (.int n)
  | _ + 1, .float x => .ok (if x.isFinite then .float x else .null)
  | _ + 1, .text t => .ok (.str t)
  | _ + 1, .kind k => .ok (.str k.typeName)
  | _ + 1, .blob .fixed data | _ + 1, .blob .mutable data =>
    match Text.decodeUtf8From false 0 data with
    | .ok ps => .ok (.str (.ofPoints ps))
    | .error e => .error (.misuse (.unwritableBytes e.first e.start))
  | depth + 1, .list items | depth + 1, .tuple items => (Value.toJsonItems depth items).map .arr
  | depth + 1, .dict members | depth + 1, .record _ members =>
    (Value.toJsonMembers depth members).map .obj
  | depth + 1, .tagged tag content => do
    let content ← Value.toJson depth content
    return .obj [("tag", .str tag), ("value", content)]
  | _ + 1, v => .error (.misuse (.unwritable v.shownType))

def Value.toJsonItems (depth : Nat) : List Value → Except Failure (List Json)
  | [] => .ok []
  | v :: rest => do
    let x ← Value.toJson depth v
    return x :: (← Value.toJsonItems depth rest)

def Value.toJsonMembers (depth : Nat) :
    List (Text × Value) → Except Failure (List (Text × Json))
  | [] => .ok []
  | (.broken b, _) :: _ => .error (.misuse (.unencodable b))
  | (.whole name, v) :: rest => do
    let x ← Value.toJson depth v
    return (.whole name, x) :: (← Value.toJsonMembers depth rest)

end

namespace Abi

def nestingLimit : Nat := 255

def extraJson (extra : List (Text × Value)) : Except Failure (List (Text × Json)) :=
  Value.toJsonMembers nestingLimit extra

def Parameter.toJson (p : Parameter) : Except Failure Json := do
  let extra ← extraJson p.extra
  return .obj (("name", .str p.name) :: ("type", .str p.type) :: extra)

def Function.toJson (f : Function) : Except Failure Json := do
  let parameters ← f.parameters.mapM Parameter.toJson
  let extra ← extraJson f.extra
  return .obj (("name", .str f.name) :: ("parameters", .arr parameters) :: extra)

def toJson (abi : Abi) : Except Failure Json := do
  let functions ← abi.functions.mapM Function.toJson
  let extra ← extraJson abi.extra
  return .obj (("hash", .str abi.hash) :: ("functions", .arr functions) :: extra)

end Abi

/-- The text of a document, unless an integer in it is too long to write. -/
def renderJson (style : Json.Style) (j : Json) : Except Failure String :=
  if j.hasLongInteger then .error (.misuse .longInteger) else .ok (j.render style)

def Abi.render (style : Json.Style) (abi : Abi) : Except Failure String := do
  renderJson style (← abi.toJson)

end Bindery
