import Bindery.Binding.Source

/-!
# The support module of bindings

Binding modules import what they share from a support module, which is written beside them.
-/

namespace Bindery.Binding

def supportLines : List String :=
  [ "\"\"\"Runtime support for generated typetology contract bindings.",
    "",
    "A copy of this module is written next to every set of generated bindings",
    "as ``typetology_runtime.py``; it therefore only uses absolute imports of",
    "the installed ``typetology`` package.",
    "",
    "Generated classes compose a :class:`TypetologyContract` (storage reads and",
    "identity derived from the embedded ABI) and return a",
    ":class:`DeferredTransactionWrapper` from every ``<function>Tx`` method. The",
    "wrapper describes the invocation; ``await wrapper.send(...)`` resolves the",
    "arguments, builds and signs the transaction and submits it.",
    "\"\"\"",
    "from __future__ import annotations",
    "",
    "import logging",
    "from dataclasses import dataclass",
    "from typing import Any, List, Literal, Mapping, Optional, Sequence, Union",
    "",
    "from pydantic import BaseModel, ConfigDict, ValidationError",
    "from pydantic.alias_generators import to_camel",
    "",
    "from typetology.clients.base_client import NetworkClient",
    "from typetology.config import MIN_GAS_LIMIT, MIN_GAS_PRICE",
    "from typetology.errors import (",
    "    ConversionError,",
    "    FunctionNotFoundError,",
    "    InvalidParameterError,",
    "    StorageError,",
    ")",
    "from typetology.types import AbiFunction, AbiInfo, ParameterKind, parse_abi",
    "from typetology.utils.address import Address, contract_address, parse_address",
    "from typetology.utils.codec import str2hexstr",
    "from typetology.utils.crypto import PrivateKey",
    "from typetology.utils.invocation import (",
    "    ContractInvocation,",
    "    Parameter,",
    "    make_invoke_transaction,",
    "    serialize_transaction,",
    "    sign_transaction,",
    "    transaction_hash,",
    ")",
    "",
    "logger = logging.getLogger(__name__)",
    "",
    "__all__ = [",
    "    \"MIN_GAS_LIMIT\",",
    "    \"MIN_GAS_PRICE\",",
    "    \"AbiInfo\",",
    "    \"ByteArrayArg\",",
    "    \"TxParams\",",
    "    \"DeferredTransactionWrapper\",",
    "    \"TypetologyContract\",",
    "]",
    "",
    "",
    "class TxParams(BaseModel):",
    "    \"\"\"Signing and gas options supplied to each ``send`` call.",
    "",
    "    Both snake_case and camelCase keys are accepted (``private_key`` or",
    "    ``privateKey``).",
    "",
    "    Attributes:",
    "        payer: Gas payer as a Base58/hex string or an Address; no payer if None.",
    "        private_key: Signing key as a hex string or a PrivateKey.",
    "        gas_price: Gas price; MIN_GAS_PRICE when unset.",
    "        gas_limit: Gas limit; MIN_GAS_LIMIT when unset.",
    "    \"\"\"",
    "    model_config = ConfigDict(",
    "        alias_generator=to_camel,",
    "        populate_by_name=True,",
    "        arbitrary_types_allowed=True,",
    "        frozen=True,",
    "    )",
    "",
    "    payer: Optional[Union[str, Address]] = None",
    "    private_key: Union[str, PrivateKey]",
    "    gas_price: Optional[Union[str, int]] = None",
    "    gas_limit: Optional[Union[str, int]] = None",
    "",
    "    @classmethod",
    "    def coerce(cls, value: Union[\"TxParams\", Mapping[str, Any]]) -> \"TxParams\":",
    "        if isinstance(value, TxParams):",
    "            return value",
    "        try:",
    "            return cls.model_validate(value)",
    "        except ValidationError as e:",
    "            raise InvalidParameterError(f\"Invalid transaction parameters: \x7be\x7d\") from e",
    "",
    "",
    "@dataclass(frozen=True)",
    "class ByteArrayArg:",
    "    \"\"\"A byte-array argument tagged with how its value is encoded.",
    "",
    "    Attributes:",
    "        tag: \"raw\" for a byte buffer, \"hex\" for an already hex-encoded string.",
    "        value: The bytes or the hex string.",
    "    \"\"\"",
    "    tag: Literal[\"raw\", \"hex\"]",
    "    value: Union[bytes, str]",
    "",
    "    @classmethod",
    "    def of(cls, value: Any) -> \"ByteArrayArg\":",
    "        \"\"\"Tags a positional argument declared as ByteArray.",
    "",
    "        Raises:",
    "            ConversionError: If ``value`` is neither bytes nor str.",
    "        \"\"\"",
    "        if isinstance(value, ByteArrayArg):",
    "            return value",
    "        if isinstance(value, (bytes, bytearray, memoryview)):",
    "            return cls(\"raw\", bytes(value))",
    "        if isinstance(value, str):",
    "            return cls(\"hex\", value)",
    "        raise ConversionError(f\"ByteArray argument must be bytes or str, got \x7btype(value).__name__\x7d\")",
    "",
    "    def to_hex(self) -> str:",
    "        if self.tag == \"raw\":",
    "            return self.value.hex()",
    "        return self.value",
    "",
    "",
    "class TypetologyContract:",
    "    \"\"\"Capabilities shared by every generated binding.",
    "",
    "    Holds the contract's ABI and the bound network client, derives the",
    "    contract's identity from the ABI hash and reads contract storage.",
    "    \"\"\"",
    "",
    "    def __init__(self, client: NetworkClient, abi_info: Union[AbiInfo, Mapping[str, Any], str]) -> None:",
    "        self.client = client",
    "        self.abi_info = abi_info if isinstance(abi_info, AbiInfo) else parse_abi(abi_info)",
    "",
    "    @property",
    "    def code_hash(self) -> str:",
    "        return self.abi_info.code_hash",
    "",
    "    @property",
    "    def address(self) -> Address:",
    "        return contract_address(self.code_hash)",
    "",
    "    async def get_storage(self, key: str) -> Any:",
    "        \"\"\"",
    "        Read a value from the contract's storage.",
    "",
    "        Args:",
    "            key: Storage key as text; it is hex-encoded before lookup.",
    "",
    "        Returns:",
    "            The raw ``Result`` value reported by the node.",
    "",
    "        Raises:",
    "            StorageError: If the node reports a non-zero error code.",
    "        \"\"\"",
    "        value = await self.client.get_storage(self.code_hash, str2hexstr(key))",
    "        if value.get(\"Error\") != 0:",
    "            raise StorageError(value.get(\"Error\"), value.get(\"Desc\"))",
    "        return value.get(\"Result\")",
    "",
    "    async def get_contract(self) -> Any:",
    "        return await self.client.get_contract(self.code_hash)",
    "",
    "    async def get_contract_json(self) -> Any:",
    "        return await self.client.get_contract_json(self.code_hash)",
    "",
    "",
    "class DeferredTransactionWrapper:",
    "    \"\"\"A contract invocation that has not been signed or sent yet.\"\"\"",
    "",
    "    def __init__(self, contract: TypetologyContract, method_name: str, method_args: Sequence[Any]) -> None:",
    "        self.contract = contract",
    "        self.method_name = method_name",
    "        self.method_args = list(method_args)",
    "",
    "    def _resolve_function(self) -> AbiFunction:",
    "        function = self.contract.abi_info.get_function(self.method_name)",
    "        if function is None:",
    "            raise FunctionNotFoundError(self.method_name)",
    "        return function",
    "",
    "    def _resolve_parameters(self, function: AbiFunction) -> List[Parameter]:",
    "        if len(self.method_args) != len(function.parameters):",
    "            raise InvalidParameterError(",
    "                f\"\x7bfunction.name\x7d takes \x7blen(function.parameters)\x7d argument(s), \"",
    "                f\"got \x7blen(self.method_args)\x7d\"",
    "            )",
    "",
    "        params: List[Parameter] = []",
    "        for abi_param, value in zip(function.parameters, self.method_args):",
    "            kind = abi_param.kind",
    "            if kind is ParameterKind.BYTE_ARRAY:",
    "                value = ByteArrayArg.of(value).to_hex()",
    "            params.append(Parameter(abi_param.name, kind, value))",
    "        return params",
    "",
    "    def build(self, tx_params: Union[TxParams, Mapping[str, Any]]) -> ContractInvocation:",
    "        \"\"\"",
    "        Build the unsigned invoke transaction for this call.",
    "",
    "        Args:",
    "            tx_params: Gas and payer options (the key is not used here).",
    "",
    "        Returns:",
    "            The unsigned ContractInvocation.",
    "",
    "        Raises:",
    "            FunctionNotFoundError: The function is not in the contract's ABI.",
    "            InvalidParameterError: Wrong number of arguments or bad options.",
    "            ConversionError: An argument, the payer or a gas value is malformed.",
    "        \"\"\"",
    "        options = TxParams.coerce(tx_params)",
    "        function = self._resolve_function()",
    "        params = self._resolve_parameters(function)",
    "",
    "        gas_price = str(options.gas_price) if options.gas_price else MIN_GAS_PRICE",
    "        gas_limit = str(options.gas_limit) if options.gas_limit else MIN_GAS_LIMIT",
    "        payer = parse_address(options.payer) if options.payer is not None else None",
    "",
    "        return make_invoke_transaction(",
    "            function.name,",
    "            params,",
    "            self.contract.address,",
    "            gas_price,",
    "            gas_limit,",
    "            payer,",
    "        )",
    "",
    "    async def send(",
    "        self,",
    "        tx_params: Union[TxParams, Mapping[str, Any]],",
    "        client: Optional[NetworkClient] = None,",
    "    ) -> Any:",
    "        \"\"\"",
    "        Sign the invocation and submit it to the network.",
    "",
    "        Args:",
    "            tx_params: Signing key plus optional payer and gas options.",
    "            client: Client to submit through instead of the contract's own.",
    "",
    "        Returns:",
    "            Whatever the client's ``send_raw_transaction`` returns.",
    "",
    "        Raises:",
    "            FunctionNotFoundError, InvalidParameterError, ConversionError:",
    "                Local failures, raised before anything is sent.",
    "            Exception: Submission failures from the client, unchanged.",
    "        \"\"\"",
    "        options = TxParams.coerce(tx_params)",
    "        tx = self.build(options)",
    "",
    "        private_key = (",
    "            PrivateKey.from_hex(options.private_key)",
    "            if isinstance(options.private_key, str)",
    "            else options.private_key",
    "        )",
    "        sign_transaction(tx, private_key)",
    "",
    "        selected = client if client is not None else self.contract.client",
    "        logger.debug(\"Submitting %s transaction %s\", self.method_name, transaction_hash(tx)[::-1].hex())",
    "        return await selected.send_raw_transaction(serialize_transaction(tx))" ]

def supportSource : String := unlines supportLines

end Bindery.Binding
