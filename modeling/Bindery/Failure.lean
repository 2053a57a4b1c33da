import Bindery.Json.Parse
import Bindery.Value
import Bindery.Violation

/-!
# Failures

Every way in which an operation can fail, by cause. `Failure.message` is the one place where a cause
is put into words.
-/

namespace Bindery

inductive AbiError
  | malformed (d : Json.Diagnosis)
  | undecodable (e : Text.DecodeError)
  | notObject (type : String)
  | invalid (violations : List Violation)
  deriving DecidableEq, Repr

inductive Expected
  | text | integer | boolean | hexText
  deriving DecidableEq, Repr

inductive Gas
  | price | limit
  deriving DecidableEq, Repr

inductive ConversionError
  | hex (shown : String)
  | base58 (shown : String)
  | addressLength (n : Nat)
  | notAddress (type : String)
  | privateKey (e : PrivateKeyError)
  | publicKey (e : PublicKeyError)
  | notByteArray (type : String)
  | mistyped (parameter : Text) (expected : Expected) (type : String)
  | notIntegers (parameter : Text)
  | unsupported (parameter : Text) (type : String)
  | gasText (gas : Gas) (shown : String)
  | gasRange (gas : Gas) (shown : String)
  deriving DecidableEq, Repr

inductive ParameterError
  | options (violations : List Violation)
  | arity (function : Text) (expected got : Nat)
  | noOutput
  | noInput
  | sameTarget (input target : String)
  | targetExists (target : String)
  deriving DecidableEq, Repr

inductive FieldError
  | notInteger
  | outOfRange
  | notByte
  | notWord
  /-- An error of the writer's own, over what is neither a number nor bytes. -/
  | foreign (kind message : String)
  deriving DecidableEq, Repr

inductive FileProblem
  | missing | exists | notFolder | isFolder | nameTooLong
  deriving DecidableEq, Repr

structure FileError where
  problem : FileProblem
  path : String
  deriving DecidableEq, Repr

/-- Values that an operation was never meant for. -/
inductive Misuse
  | noMember (type member : String)
  | notCallable (type : String)
  | noDocument (type : String)
  | notIterable (type : String)
  | noLength (type : String)
  | notNumber (type : String)
  | notBytes
  /-- A value that is no byte string, by its type as shown and whether it is a text. -/
  | notBuffer (type : String) (isText : Bool)
  | notIndex (type : String)
  | slicedMembers
  | byteRange
  | encodingText
  | unconvertibleText
  | hashedText
  | unhashable
  | longIntegerText (digits : Nat)
  | longInteger
  | infinity
  | pushedLength
  /-- A text that has to be encoded and holds a surrogate. -/
  | unencodable (b : Text.Broken)
  | nulInPath
  | unwritable (type : String)
  | unwritableBytes (first : UInt8) (position : Nat)
  /-- A document with more containers open at one time than the interpreter has levels for. -/
  | deepDocument (c : Json.Container)
  | deepArgument
  | deepValue
  deriving DecidableEq, Repr

inductive Failure
  | abi (e : AbiError)
  | unknownFunction (name : Text)
  | conversion (e : ConversionError)
  | parameter (e : ParameterError)
  /-- The code and the description that a node gave for a storage lookup. -/
  | storage (code description : Value)
  | field (e : FieldError)
  | file (e : FileError)
  | misuse (e : Misuse)
  /-- What a client raised, by the name of its kind. -/
  | client (kind text : String)

def AbiError.message : AbiError → String
  | .malformed d => s!"ABI is not valid JSON: {d.message}"
  | .undecodable e => s!"ABI is not valid JSON: {e.message}"
  | .notObject type => s!"ABI must be a JSON object, got {type}"
  | .invalid vs => "Invalid ABI: " ++ violationCount "AbiInfo" vs

def Expected.label : Expected → String
  | .text => "str"
  | .integer => "int"
  | .boolean => "bool"
  | .hexText => "a hex string"

def Gas.label : Gas → String
  | .price => "gas price"
  | .limit => "gas limit"

def ConversionError.message : ConversionError → String
  | .hex shown => s!"Invalid hex string: {shown}"
  | .base58 shown => s!"Invalid base58 address: {shown}"
  | .addressLength n => s!"Address must be 20 bytes, got {n}"
  | .notAddress type => s!"Cannot interpret {type} as an address"
  | .privateKey e => e.message
  | .publicKey e => e.message
  | .notByteArray type => s!"ByteArray argument must be bytes or str, got {type}"
  | .mistyped parameter expected type =>
    s!"Parameter '{parameter}' expects {expected.label}, got {type}"
  | .notIntegers parameter => s!"Parameter '{parameter}' expects a list of int"
  | .unsupported parameter type => s!"Parameter '{parameter}' has unsupported value type {type}"
  | .gasText gas shown => s!"{gas.label} must be an integer string, got {shown}"
  | .gasRange gas shown => s!"{gas.label} must fit in an unsigned 64-bit integer, got {shown}"

def ParameterError.message : ParameterError → String
  | .options vs => "Invalid transaction parameters: " ++ violationCount "TxParams" vs
  | .arity function expected got => s!"{function} takes {expected} argument(s), got {got}"
  | .noOutput => "Input output directories for generating."
  | .noInput => "No input files or no match files for bindings."
  | .sameTarget input target => s!"{input} and another input both generate {target}."
  | .targetExists target => s!"{target} already exists (use --force to overwrite)."

def FieldError.message : FieldError → String
  | .notInteger => "required argument is not an integer"
  | .outOfRange => "argument out of range"
  | .notByte => "ubyte format requires 0 <= number <= 255"
  | .notWord => "'I' format requires 0 <= number <= 4294967295"
  | .foreign _ message => message

def FileProblem.message : FileProblem → String
  | .missing => "[Errno 2] No such file or directory"
  | .exists => "[Errno 17] File exists"
  | .notFolder => "[Errno 20] Not a directory"
  | .isFolder => "[Errno 21] Is a directory"
  | .nameTooLong => "[Errno 36] File name too long"

def FileError.message (e : FileError) : String := s!"{e.problem.message}: {Text.quote e.path}"

def Misuse.message : Misuse → String
  | .noMember type member => s!"'{type}' object has no attribute '{member}'"
  | .notCallable type => s!"'{type}' object is not callable"
  | .noDocument type => s!"the JSON object must be str, bytes or bytearray, not {type}"
  | .notIterable type => s!"'{type}' object is not iterable"
  | .noLength type => s!"object of type '{type}' has no len()"
  | .notNumber type =>
    s!"int() argument must be a string, a bytes-like object or a real number, not '{type}'"
  | .notBytes => "data must be bytes"
  | .notBuffer type isText =>
    let hint := if isText then "\nDid you mean to pass a bytestring instead?" else ""
    s!"Cannot convert \"{type}\" instance to a buffer." ++ hint
  | .notIndex type => s!"'{type}' object cannot be interpreted as an integer"
  | .slicedMembers => "unhashable type: 'slice'"
  | .byteRange => "bytes must be in range(0, 256)"
  | .encodingText => "string argument without an encoding"
  | .unconvertibleText => "cannot convert 'str' object to bytes"
  | .hashedText => "Strings must be encoded before hashing"
  | .unhashable => "object supporting the buffer API required"
  | .longIntegerText digits => Json.longIntegerMessage digits
  | .longInteger =>
    s!"Exceeds the limit ({Json.digitLimit} digits) for integer string conversion; use sys.set_int_max_str_digits() to increase the limit"
  | .infinity => "cannot convert float infinity to integer"
  | .pushedLength => "int too big to convert"
  | .unencodable b => b.message
  | .nulInPath => "embedded null byte"
  | .unwritable type => s!"Unable to serialize unknown type: {type}"
  | .unwritableBytes first position =>
    s!"'utf-8' codec can't decode byte 0x{Hex.encode [first]} in position {position}: invalid utf-8"
  | .deepDocument c => Json.tooDeepMessage c
  | .deepArgument => "maximum recursion depth exceeded"
  | .deepValue => "Circular reference detected (depth exceeded)"

def storageMessage (code description : Value) : String :=
  let code := String.ofList code.plain
  let description := String.ofList description.plain
  s!"failed to get storage (Error Code: {code}, Msg: {description})"

def Failure.message : Failure → String
  | .abi e => e.message
  | .unknownFunction name => s!"Function '{name}' not found in ABI"
  | .conversion e => e.message
  | .parameter e => e.message
  | .storage code description => storageMessage code description
  | .field e => e.message
  | .file e => e.message
  | .misuse e => e.message
  | .client _ text => text

def Failure.violations? : Failure → Option (List Violation)
  | .abi (.invalid vs) => some vs
  | .parameter (.options vs) => some vs
  | _ => none

/-- Passes the literal text of a value on, unless an integer in it is too long to write. -/
def withLiteral (v : Value) (k : String → Except Failure α) : Except Failure α :=
  if v.hasLongInteger then .error (.misuse .longInteger) else k (String.ofList v.literal)

/-- What is wrong with asking a value for an operation that its type does not have. A member of a
record under that name is no operation either. -/
def Value.withoutOperation (operation : String) (v : Value) : Misuse :=
  match v with
  | .record _ members =>
    match Json.member? operation members with
    | some member => .notCallable member.typeName
    | none => .noMember v.typeName operation
  | v => .noMember v.typeName operation

def hexBytes (v : Value) : Except Failure Bytes :=
  match (v.text?.bind Text.whole?).bind Hex.decode? with
  | some b => .ok b
  | none => withLiteral v fun shown => .error (.conversion (.hex shown))

end Bindery
