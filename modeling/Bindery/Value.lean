import Bindery.Abi.Kind
import Bindery.Address
import Bindery.Binary64.Decimal
import Bindery.Json.Basic
import Bindery.P256.Key
import Bindery.Text.Encoding
import Bindery.Text.Quoted

/-!
# Untyped values

What a caller hands over before it is checked: arguments of calls, options, documents. A value knows
the name of its type and, for messages, its literal text.
-/

namespace Bindery

/-- A byte string that stays as it is, one that can be changed, or a window onto one. -/
inductive BlobForm
  | fixed | mutable | view
  deriving DecidableEq, Repr

inductive RecordType
  | interface | function | parameter | options
  deriving DecidableEq, Repr

namespace RecordType

def name : RecordType → String
  | .interface => "AbiInfo"
  | .function => "AbiFunction"
  | .parameter => "AbiParameter"
  | .options => "TxParams"

def home : RecordType → String
  | .interface | .function | .parameter => "typetology.types"
  | .options => "typetology.runtime"

end RecordType

inductive Value
  | null
  | bool (b : Bool)
  | int (n : Int)
  | float (x : Binary64)
  | text (t : Text)
  | kind (k : Kind)
  | blob (form : BlobForm) (data : Bytes)
  | list (items : List Value)
  | tuple (items : List Value)
  | dict (members : List (Text × Value))
  | address (a : Address)
  | key (k : PrivateKey)
  /-- A byte-array argument with the tag that says how `content` encodes it. -/
  | tagged (tag : String) (content : Value)
  /-- Named members in their order, the declared ones first. -/
  | record (type : RecordType) (members : List (Text × Value))
  /-- Any other object, known by its type alone. -/
  | foreign (type : String)
  deriving Inhabited

namespace Value

def typeName : Value → String
  | .null => "NoneType"
  | .bool _ => "bool"
  | .int _ => "int"
  | .float _ => "float"
  | .text _ => "str"
  | .kind _ => "ParameterKind"
  | .blob .fixed _ => "bytes"
  | .blob .mutable _ => "bytearray"
  | .blob .view _ => "memoryview"
  | .list _ => "list"
  | .tuple _ => "tuple"
  | .dict _ => "dict"
  | .address _ => "Address"
  | .key _ => "PrivateKey"
  | .tagged .. => "ByteArrayArg"
  | .record type _ => type.name
  | .foreign type => type

/-- The name of a value's type behind the module that declares it, if it is no built-in one. -/
def qualifiedTypeName : Value → String
  | .address _ => "ontology.common.address.Address"
  | .key _ => "typetology.utils.crypto.PrivateKey"
  | .tagged .. => "typetology.runtime.ByteArrayArg"
  | .record type _ => type.home ++ "." ++ type.name
  | v => v.typeName

def shownType (v : Value) : String :=
  match v with
  | .kind _ => s!"<enum '{v.typeName}'>"
  | v => s!"<class '{v.qualifiedTypeName}'>"

/-- The text of a text value; a kind counts as the text of its name. -/
def text? : Value → Option Text
  | .text t => some t
  | .kind k => some k.typeName
  | _ => none

/-- The number of an integer value; a truth value counts as one or zero. -/
def number? : Value → Option Int
  | .int n => some n
  | .bool b => some (if b then 1 else 0)
  | _ => none

/-- Whether an absent-looking value takes a default: nothing, no, zero, or empty. -/
def isFalsy : Value → Bool
  | .null => true
  | .bool b => !b
  | .int n => n = 0
  | .float x => x.magnitude = 0
  | .text t => t.isEmpty
  | .blob _ data => data.isEmpty
  | .list items | .tuple items => items.isEmpty
  | .dict members => members.isEmpty
  | _ => false

/-- The items of a value that is a run of values; a record is the run of its named members. -/
def sequence? : Value → Option (List Value)
  | .list items | .tuple items => some items
  | .blob .view data => some (data.map fun b => .int b.toNat)
  | .record _ members => some (members.map fun m => .tuple [.text m.1, m.2])
  | _ => none

/-- The elements of a value that can be gone through: its items, code points, bytes or member
names. -/
def elements? (v : Value) : Option (List Value) :=
  match v with
  | .blob _ data => some (data.map fun b => .int b.toNat)
  | .dict members => some (members.map fun m => .text m.1)
  | v =>
    match v.text? with
    | some t => some (t.points.map fun p => .text (.ofPoints [p]))
    | none => v.sequence?

mutual

def ofJson : Json → Value
  | .null => .null
  | .bool b => .bool b
  | .int n => .int n
  | .float x => .float x
  | .str t => .text t
  | .arr items => .list (ofJsonItems items)
  | .obj members => .dict (ofJsonMembers members)

def ofJsonItems : List Json → List Value
  | [] => []
  | x :: rest => ofJson x :: ofJsonItems rest

def ofJsonMembers : List (Text × Json) → List (Text × Value)
  | [] => []
  | (name, x) :: rest => (name, ofJson x) :: ofJsonMembers rest

end

mutual

def literal : Value → List Char
  | .null => "None".toList
  | .bool b => (if b then "True" else "False").toList
  | .int n => (toString n).toList
  | .float x => x.render.toList
  | .text t => Text.quotePoints t.points
  | .kind k => ("<ParameterKind." ++ k.constantName ++ ": '" ++ k.typeName ++ "'>").toList
  | .blob .fixed data => (Text.quoteBytes data).toList
  | .blob .mutable data => ("bytearray(" ++ Text.quoteMutableBytes data ++ ")").toList
  | .blob .view _ => "<memory>".toList
  | .list items => '[' :: literalItems items ++ [']']
  | .tuple [x] => '(' :: literal x ++ [',', ')']
  | .tuple items => '(' :: literalItems items ++ [')']
  | .dict members => '\x7b' :: literalMembers members ++ ['\x7d']
  | .address _ => "<Address>".toList
  | .key _ => "PrivateKey(<hidden>)".toList
  | .tagged tag content =>
    "ByteArrayArg(tag=".toList ++ Text.quoteChars tag.toList ++ ", value=".toList
      ++ literal content ++ [')']
  | .record type members => type.name.toList ++ '(' :: literalSettings [',', ' '] members ++ [')']
  | .foreign type => ("<" ++ type ++ ">").toList

def literalItems : List Value → List Char
  | [] => []
  | [x] => literal x
  | x :: rest => literal x ++ [',', ' '] ++ literalItems rest

def literalMembers : List (Text × Value) → List Char
  | [] => []
  | [(name, x)] => Text.quotePoints name.points ++ [':', ' '] ++ literal x
  | (name, x) :: rest =>
    Text.quotePoints name.points ++ [':', ' '] ++ literal x ++ [',', ' '] ++ literalMembers rest

def literalSettings (separator : List Char) : List (Text × Value) → List Char
  | [] => []
  | [(name, x)] => name.shown.toList ++ '=' :: literal x
  | (name, x) :: rest =>
    name.shown.toList ++ '=' :: literal x ++ separator ++ literalSettings separator rest

end

/-- How a value reads inside a sentence: a text as it is, a record by its members alone, and
anything else as its literal. -/
def plain : Value → List Char
  | .text t => t.shown.toList
  | .kind k => ("ParameterKind." ++ k.constantName).toList
  | .record _ members => literalSettings [' '] members
  | v => literal v

mutual

/-- Whether some integer in a value has more digits than can be written. -/
def hasLongInteger : Value → Bool
  | .int n => Json.isLong n
  | .list items | .tuple items => anyLongInteger items
  | .dict members | .record _ members => anyLongMember members
  | .tagged _ content => hasLongInteger content
  | _ => false

def anyLongInteger : List Value → Bool
  | [] => false
  | x :: rest => hasLongInteger x || anyLongInteger rest

def anyLongMember : List (Text × Value) → Bool
  | [] => false
  | (_, x) :: rest => hasLongInteger x || anyLongMember rest

end

end Value

end Bindery
