import Bindery.Abi.Document
import Bindery.Binding.Identifier
import Bindery.Binding.Literal
import Bindery.Log

/-!
# Sources of bindings

The source of a binding module: the interface as a literal, a class that gives access to the
contract, and one method per function of the interface, which only records the call.
-/

namespace Bindery.Binding

def hint : Kind → String
  | .boolean => "bool"
  | .integer | .int | .long => "int"
  | .intArray | .longArray => "List[int]"
  | .byteArray => "Union[str, bytes]"
  | .string => "str"
  | .other => "Any"

def runtimeModule : String := "typetology_runtime"

def moduleNames : List String :=
  [ "annotations", "Any", "List", "Union", "AbiInfo", "DeferredTransactionWrapper",
    "TypetologyContract", "ABI" ]

def className (contract : String) : String :=
  let name := Identifier.ofName contract
  if moduleNames.contains name then name ++ "_" else name

def methodName (function : Text) : String := Identifier.ofName (function.shown ++ "Tx")

def parameterNames (f : Abi.Function) : List String :=
  Identifier.unique (f.parameters.map fun p => Identifier.ofName p.name.shown)

def unlines (lines : List String) : String := String.join (lines.map (· ++ "\n"))

def head (className runtime abiLiteral : String) : String :=
  unlines
    [ "\"\"\"",
      "Generated binding for the " ++ className ++ " contract.",
      "",
      "This file was generated by typetology. Do not edit by hand.",
      "\"\"\"",
      "from __future__ import annotations",
      "",
      "from typing import Any, List, Union",
      "",
      "from " ++ runtime ++ " import AbiInfo, DeferredTransactionWrapper, TypetologyContract",
      "",
      "ABI = " ++ abiLiteral ]

def classSource (className : String) : String :=
  unlines
    [ "",
      "",
      "class " ++ className ++ ":",
      "    def __init__(self, client):",
      "        self.contract = TypetologyContract(client, AbiInfo.from_dict(ABI))",
      "",
      "    @property",
      "    def abi_info(self) -> AbiInfo:",
      "        return self.contract.abi_info",
      "",
      "    @property",
      "    def client(self):",
      "        return self.contract.client",
      "",
      "    @property",
      "    def code_hash(self) -> str:",
      "        return self.contract.code_hash",
      "",
      "    @property",
      "    def address(self):",
      "        return self.contract.address",
      "",
      "    async def get_storage(self, key: str) -> Any:",
      "        return await self.contract.get_storage(key)",
      "",
      "    async def get_contract(self) -> Any:",
      "        return await self.contract.get_contract()",
      "",
      "    async def get_contract_json(self) -> Any:",
      "        return await self.contract.get_contract_json()" ]

/-- The line that declares a parameter; its comment shows the type as the interface writes it. -/
def parameterLine (name : String) (p : Abi.Parameter) : String :=
  "        " ++ name ++ ": " ++ hint p.kind ++ ",  # " ++ p.type.shown

/-- The first type of the function that no encoding writes. A type is the only part of a source that
stands there as it is and not by its escapes, so that such a source cannot be encoded either. -/
def brokenType? (f : Abi.Function) : Option Text.Broken :=
  f.parameters.findSome? fun p => p.type.broken?

def functionSource (f : Abi.Function) : String :=
  let names := parameterNames f
  unlines <|
    [ "",
      "    def " ++ methodName f.name ++ "(",
      "        self," ]
    ++ List.zipWith parameterLine names f.parameters
    ++ [ "    ) -> DeferredTransactionWrapper:",
      "        return DeferredTransactionWrapper(",
      "            self.contract,",
      "            " ++ f.name.quoted ++ ",",
      "            [" ++ String.intercalate ", " names ++ "],",
      "        )" ]

def repeated (names : List String) : List String :=
  names.eraseDups.filter fun n => 1 < names.count n

def methodNames (abi : Abi) : List String := abi.functions.map fun f => methodName f.name

/-- What is said about a binding before it is made: which methods hide others. -/
def warnings (contract : String) (abi : Abi) : List LogRecord :=
  match repeated (methodNames abi) with
  | [] => []
  | names =>
    [⟨.warning, .generator,
      contract ++ ": duplicate method names " ++ String.intercalate ", " names
        ++ "; the last definition of each method wins"⟩]

/-- The source of the binding module for a contract; `runtime` is the module it imports from. -/
def source (contract runtime : String) (abi : Abi) : Except Failure String := do
  let document ← abi.toJson
  if document.hasLongInteger then throw (.misuse .longInteger)
  let name := className contract
  return head name runtime (Literal.render document) ++ classSource name
    ++ String.join (abi.functions.map functionSource)

end Bindery.Binding
