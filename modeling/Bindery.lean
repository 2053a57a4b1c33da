import Bindery.Abi.Document
import Bindery.Main
import Bindery.Contract.Call
import Bindery.Node.Session
import Bindery.Transaction.Handling
import Bindery.Proofs.Machine
import Bindery.Proofs.Packing
import Bindery.Proofs.Identifier
import Bindery.Proofs.SourceText
import Bindery.Proofs.Confinement
import Bindery.Proofs.Dispatch
import Bindery.Proofs.FileTree
import Bindery.Proofs.Generation
import Bindery.Proofs.AllOrNothing
import Bindery.Proofs.CurveGroup
import Bindery.Proofs.HexText
import Bindery.Proofs.Wire
import Bindery.Proofs.Submission
import Bindery.Proofs.Signing
import Bindery.Proofs.DeclaredFailures
import Bindery.Proofs.Rounding
import Bindery.Proofs.ShortestDecimal
import Bindery.Proofs.NumberText
import Bindery.Proofs.Documents
import Bindery.Proofs.NodeAddress
import Bindery.Proofs.NodeOutcome
import Bindery.Proofs.ReadDocuments
import Bindery.Proofs.CheckedValues
import Bindery.Proofs.JsonText
import Bindery.Proofs.DistinctNames
import Bindery.Proofs.InterfaceText
import Bindery.Proofs.EmbeddedLiteral
import Bindery.Proofs.KeptDocument
import Bindery.Proofs.GeneratedFiles
import Bindery.Proofs.WritableValues
import Bindery.Proofs.CommandOutcome
import Bindery.Proofs.ConcealedText
import Bindery.Proofs.FailureText
import Bindery.Proofs.KeySecrecy
import Bindery.Proofs.StorageLookup
import Bindery.Proofs.Base58Text
import Bindery.Proofs.HexSpelling
import Bindery.Proofs.AddressText
import Bindery.Proofs.ContractIdentity
import Bindery.Proofs.NestedTree
import Bindery.Proofs.StandingFiles
import Bindery.Proofs.Conversion
import Bindery.Proofs.IntegerText
import Bindery.Proofs.Conformance
import Bindery.Proofs.IssuedNames
import Bindery.Proofs.MethodText
import Bindery.Proofs.Hygiene
import Bindery.Proofs.ClassText
import Bindery.Proofs.Shadowing
import Bindery.Proofs.InterfaceGrammar
import Bindery.Proofs.GasSpelling
import Bindery.Proofs.ByteSpelling
import Bindery.Proofs.NestingLevels
import Bindery.Proofs.RawInput
import Bindery.Proofs.EncodedText
import Bindery.Proofs.DocumentValue
import Bindery.Proofs.HandedOver
import Bindery.Proofs.Verification
import Bindery.Proofs.KeyTexts
import Bindery.Proofs.SharedSession
import Bindery.Proofs.FoundPaths
import Bindery.Proofs.Collisions
