import Bindery.Json.Token
import Bindery.Text.Encoding

/-!
# Reading JSON

A stack machine over tokens. Its state is the stack of open containers and what may come next; each
token either moves the machine on or is the first one that the grammar forbids, and then the reason
and its position are the answer. An interpreter has only so many levels for containers that are open
at one time, and gives up where they run out.
-/

namespace Bindery.Json

inductive Container
  | array | object
  deriving DecidableEq, Repr

/-- Why a text is no document. A long integer is refused for its count of digits alone, and a
container for those that are open around it. -/
inductive ReadError
  | malformed (problem : Problem) (position : Nat)
  | longInteger (digits : Nat)
  | tooDeep (c : Container)
  deriving DecidableEq, Repr

/-- An open container with what it holds so far, latest first. -/
inductive Frame
  | array (done : List Json)
  | object (done : List (Text × Json)) (name : Text)

/-- What the machine waits for. -/
inductive Awaited
  | value
  | firstItem
  | firstName
  | name (done : List (Text × Json))
  | colon (done : List (Text × Json)) (name : Text)
  | separator
  | nothing (result : Json)

def finish (v : Json) : List Frame → List Frame × Awaited
  | [] => ([], .nothing v)
  | .array done :: rest => (.array (v :: done) :: rest, .separator)
  | .object done name :: rest => (.object ((name, v) :: done) name :: rest, .separator)

def closeObject (done : List (Text × Json)) : Json := .obj (joinMembers done.reverse)

def Awaited.problem : Awaited → Problem
  | .value | .firstItem => .expectingValue
  | .firstName | .name _ => .expectingName
  | .colon .. => .expectingColon
  | .separator => .expectingComma
  | .nothing _ => .extraData

def integerOf (negative : Bool) (digits : List Char) : Int :=
  if negative then -(natOfDigits digits : Int) else natOfDigits digits

def startValue (stack : List Frame) (t : Located) : Except ReadError (List Frame × Awaited) :=
  match t.token with
  | .scalar v => .ok (finish v stack)
  | .integer negative digits =>
    if digitLimit < digits.length then .error (.longInteger digits.length)
    else .ok (finish (.int (integerOf negative digits)) stack)
  | .string s => .ok (finish (.str (.ofPoints s)) stack)
  | .openArray => .ok (.array [] :: stack, .firstItem)
  | .openObject => .ok (stack, .firstName)
  | .damaged problem position => .error (.malformed problem position)
  | _ => .error (.malformed .expectingValue t.position)

def startName (done : List (Text × Json)) (t : Located) : Except ReadError Awaited :=
  match t.token with
  | .string s => .ok (.colon done (.ofPoints s))
  | .damaged problem position => .error (.malformed problem position)
  | _ => .error (.malformed .expectingName t.position)

def step (stack : List Frame) (awaited : Awaited) (t : Located) :
    Except ReadError (List Frame × Awaited) :=
  match awaited, t.token, stack with
  | .firstItem, .closeArray, .array _ :: rest => .ok (finish (.arr []) rest)
  | .value, _, _ | .firstItem, _, _ => startValue stack t
  | .firstName, .closeObject, _ => .ok (finish (.obj []) stack)
  | .firstName, _, _ => (startName [] t).map fun a => (stack, a)
  | .name done, _, _ => (startName done t).map fun a => (stack, a)
  | .colon done name, .colon, _ => .ok (.object done name :: stack, .value)
  | .separator, .comma, .array _ :: _ => .ok (stack, .value)
  | .separator, .closeArray, .array done :: rest => .ok (finish (.arr done.reverse) rest)
  | .separator, .comma, .object done _ :: rest => .ok (rest, .name done)
  | .separator, .closeObject, .object done _ :: rest => .ok (finish (closeObject done) rest)
  | awaited, _, _ => .error (.malformed awaited.problem t.position)

/-- An object that waits for a name or for what follows a name is open, but on no frame. -/
def Awaited.pending : Awaited → Nat
  | .firstName | .name _ | .colon .. => 1
  | _ => 0

def opened (stack : List Frame) (awaited : Awaited) : Nat := stack.length + awaited.pending

def Awaited.container : Awaited → Container
  | .firstName => .object
  | _ => .array

/-- The result at the end of a text, which is at `length`. -/
def Awaited.result (length : Nat) : Awaited → Except ReadError Json
  | .nothing v => .ok v
  | awaited => .error (.malformed awaited.problem length)

/-- Runs the machine with `levels` levels for open containers; `length` is the position of the end
of the text. -/
def run (levels length : Nat) (stack : List Frame) (awaited : Awaited) :
    List Located → Except ReadError Json
  | [] => awaited.result length
  | t :: rest =>
    match step stack awaited t with
    | .error e => .error e
    | .ok (stack, awaited) =>
      if levels < opened stack awaited then .error (.tooDeep awaited.container)
      else run levels length stack awaited rest

def parsePoints (levels : Nat) (ps : List CodePoint) : Except ReadError Json :=
  run levels ps.length [] .value (tokens ps)

/-- The line and column of a position, both from one; only a line feed ends a line. -/
def lineColumn (position : Nat) (ps : List CodePoint) : Nat × Nat :=
  let before := ps.take position
  (before.count (.char '\n') + 1, (before.reverse.takeWhile (· ≠ .char '\n')).length + 1)

structure Diagnosis where
  problem : Problem
  line : Nat
  column : Nat
  position : Nat
  deriving DecidableEq, Repr

inductive DocumentError
  | malformed (d : Diagnosis)
  | undecodable (e : Text.DecodeError)
  | longInteger (digits : Nat)
  | tooDeep (c : Container)
  deriving DecidableEq, Repr

def diagnose (ps : List CodePoint) : ReadError → DocumentError
  | .malformed problem position =>
    let (line, column) := lineColumn position ps
    .malformed ⟨problem, line, column, position⟩
  | .longInteger digits => .longInteger digits
  | .tooDeep c => .tooDeep c

def documentOfPoints (levels : Nat) (ps : List CodePoint) : Except DocumentError Json :=
  (parsePoints levels ps).mapError (diagnose ps)

/-- The document of a text; a byte-order mark is refused where characters are expected. -/
def parse (levels : Nat) (t : Text) : Except DocumentError Json :=
  match t.points with
  | .char '\ufeff' :: _ => .error (.malformed ⟨.byteOrderMark, 1, 1, 0⟩)
  | ps => documentOfPoints levels ps

def parseBytes (levels : Nat) (b : Bytes) : Except DocumentError Json :=
  match Text.decode b with
  | .error e => .error (.undecodable e)
  | .ok ps => documentOfPoints levels ps

def Problem.label : Problem → String
  | .expectingValue => "Expecting value"
  | .extraData => "Extra data"
  | .expectingName => "Expecting property name enclosed in double quotes"
  | .expectingColon => "Expecting ':' delimiter"
  | .expectingComma => "Expecting ',' delimiter"
  | .unterminatedString => "Unterminated string starting at"
  | .controlCharacter => "Invalid control character at"
  | .badEscape => "Invalid \\escape"
  | .badUnicodeEscape => "Invalid \\uXXXX escape"
  | .byteOrderMark => "Unexpected UTF-8 BOM (decode using utf-8-sig)"

def Diagnosis.message (d : Diagnosis) : String :=
  s!"{d.problem.label}: line {d.line} column {d.column} (char {d.position})"

def Container.label : Container → String
  | .array => "array"
  | .object => "object"

def tooDeepMessage (c : Container) : String :=
  s!"maximum recursion depth exceeded while decoding a JSON {c.label} from a unicode string"

def longIntegerMessage (digits : Nat) : String :=
  s!"Exceeds the limit ({digitLimit} digits) for integer string conversion: value has {digits} digits; use sys.set_int_max_str_digits() to increase the limit"

end Bindery.Json

namespace Bindery.Text

def DecodeError.message (e : DecodeError) : String :=
  let place :=
    if e.stop = e.start + 1 then
      s!"byte 0x{String.ofList (hexByte e.first)} in position {e.start}"
    else s!"bytes in position {e.start}-{e.stop - 1}"
  s!"'{e.codec.label}' codec can't decode {place}: {e.reason.label}"
where
  hexByte (b : UInt8) : List Char := Hex.digitsOf b

end Bindery.Text
