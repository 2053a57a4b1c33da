import Bindery.Failure
import Bindery.Script

/-!
# Arguments

An argument has to conform to the kind that it is declared as. Byte arrays are declared by
hexadecimal text; `ByteArray.tag` turns byte strings into it beforehand. Arguments of no known kind
are pushed by their own shape, as deep as the interpreter has levels for lists in one another.
-/

namespace Bindery

structure Argument where
  name : Text
  kind : Kind
  value : Value

namespace Argument

mutual

/-- The datum of a value of no declared kind; every list takes a level. -/
def untyped (name : Text) (levels : Nat) (v : Value) : Except Failure Datum :=
  match levels, v with
  | _, .address a => .ok (.bytes a.bytes)
  | _, .blob .fixed data | _, .blob .mutable data => .ok (.bytes data)
  | _, .text t => .ok (.ofText t)
  | _, .kind k => .ok (.bytes (Text.encodeUtf8 k.typeName))
  | _, .bool b => .ok (.bool b)
  | _, .int n => .ok (.int n)
  | 0, .list _ | 0, .tuple _ => .error (.misuse .deepArgument)
  | levels + 1, .list items | levels + 1, .tuple items =>
    (untypedItems name levels items).map .array
  | _, v => .error (.conversion (.unsupported name v.typeName))

def untypedItems (name : Text) (levels : Nat) : List Value → Except Failure (List Datum)
  | [] => .ok []
  | v :: rest => do
    let x ← untyped name levels v
    return x :: (← untypedItems name levels rest)

end

def integer? : Value → Option Datum
  | .int n => some (.int n)
  | _ => none

def items? : Value → Option (List Value)
  | .list vs | .tuple vs => some vs
  | _ => none

def datum (levels : Nat) (a : Argument) : Except Failure Datum :=
  let mistyped (expected : Expected) : Except Failure Datum :=
    .error (.conversion (.mistyped a.name expected a.value.typeName))
  match a.kind with
  | .string =>
    match a.value.text? with
    | some t => .ok (.ofText t)
    | none => mistyped .text
  | .integer | .int | .long =>
    match a.value with
    | .int n => .ok (.int n)
    | _ => mistyped .integer
  | .boolean =>
    match a.value with
    | .bool b => .ok (.bool b)
    | _ => mistyped .boolean
  | .byteArray =>
    match a.value.text? with
    | some _ => (hexBytes a.value).map .bytes
    | none => mistyped .hexText
  | .intArray | .longArray =>
    match (items? a.value).bind fun vs => vs.mapM integer? with
    | some ds => .ok (.array ds)
    | none => .error (.conversion (.notIntegers a.name))
  | .other => untyped a.name levels a.value

end Argument

namespace ByteArray

def rawTag : String := "raw"

def hexTag : String := "hex"

/-- A value tagged by how it encodes its bytes. -/
def tag (v : Value) : Except Failure (String × Value) :=
  match v with
  | .tagged tag content => .ok (tag, content)
  | .blob _ data => .ok (rawTag, .blob .fixed data)
  | .text _ | .kind _ => .ok (hexTag, v)
  | v => .error (.conversion (.notByteArray v.typeName))

/-- The hexadecimal text of a tagged value; what is not raw is taken for such text already. -/
def hexText (tag : String) (content : Value) : Except Failure Value :=
  if tag = rawTag then
    match content with
    | .blob _ data => .ok (.text (Hex.encode data))
    | .float x => .ok (.text x.renderHex)
    | .address a => .ok (.text (Hex.encode a.bytes))
    | v => .error (.misuse (v.withoutOperation "hex"))
  else .ok content

end ByteArray

end Bindery
