import Bindery.Abi.Kind
import Bindery.Hex
import Bindery.Value

/-!
# Contract interfaces

The interface of a deployed contract: the hash of its code and its functions with their typed
parameters, in document order. Members of the document that have no meaning here are kept beside the
declared ones, in their own order.
-/

namespace Bindery

structure Abi.Parameter where
  name : Text
  type : Text
  extra : List (Text × Value)

structure Abi.Function where
  name : Text
  parameters : List Abi.Parameter
  extra : List (Text × Value)

structure Abi where
  hash : Text
  functions : List Abi.Function
  extra : List (Text × Value)

/-- A broken type is no type name of any kind. -/
def Abi.Parameter.kind (p : Abi.Parameter) : Kind := .ofTypeName p.type.shown

/-- The names and kinds of the parameters, as a caller sees them. -/
def Abi.Function.signature (f : Abi.Function) : List (Text × Kind) :=
  f.parameters.map fun p => (p.name, p.kind)

namespace Abi

/-- The hash of the code without its `0x` marker. -/
def codeHash (abi : Abi) : Text := Hex.withoutMarker abi.hash

def function? (abi : Abi) (name : Text) : Option Function :=
  abi.functions.find? (·.name = name)

def Parameter.toValue (p : Parameter) : Value :=
  .record .parameter (("name", .text p.name) :: ("type", .text p.type) :: p.extra)

def Function.toValue (f : Function) : Value :=
  .record .function
    (("name", .text f.name) :: ("parameters", .list (f.parameters.map Parameter.toValue))
      :: f.extra)

def toValue (abi : Abi) : Value :=
  .record .interface
    (("hash", .text abi.hash) :: ("functions", .list (abi.functions.map Function.toValue))
      :: abi.extra)

end Abi

end Bindery
