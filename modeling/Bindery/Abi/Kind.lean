/-!
# Parameter kinds

The closed set of kinds that an argument can be declared as. Every type name outside the set is of
the kind `other`; names are case-sensitive.
-/

namespace Bindery

inductive Kind
  | boolean | integer | int | long | intArray | longArray | byteArray | string | other
  deriving DecidableEq, Repr

namespace Kind

def typeName : Kind → String
  | .boolean => "Boolean"
  | .integer => "Integer"
  | .int => "Int"
  | .long => "Long"
  | .intArray => "IntArray"
  | .longArray => "LongArray"
  | .byteArray => "ByteArray"
  | .string => "String"
  | .other => "Other"

def known : List Kind :=
  [.boolean, .integer, .int, .long, .intArray, .longArray, .byteArray, .string]

def ofTypeName (name : String) : Kind := (known.find? (·.typeName = name)).getD .other

theorem ofTypeName_typeName (k : Kind) : ofTypeName k.typeName = k := by
  cases k <;> decide

/-- The kind's own name where kinds are listed as constants. -/
def constantName : Kind → String
  | .boolean => "BOOLEAN"
  | .integer => "INTEGER"
  | .int => "INT"
  | .long => "LONG"
  | .intArray => "INT_ARRAY"
  | .longArray => "LONG_ARRAY"
  | .byteArray => "BYTE_ARRAY"
  | .string => "STRING"
  | .other => "OTHER"

end Kind

end Bindery
