import ContractHost.SortedMap
import ContractHost.Hex
import ContractHost.Bech32
import ContractHost.Address
import ContractHost.Address.Text
import ContractHost.CodeMetadata
import ContractHost.Call
import ContractHost.Failure
import ContractHost.Gas
import ContractHost.Layers
import ContractHost.Ledger
import ContractHost.Config
import ContractHost.Machine
import ContractHost.Contract
import ContractHost.Gate
import ContractHost.Program
import ContractHost.Host
import ContractHost.Json
import ContractHost.Json.Parser
import ContractHost.Exchange
import ContractHost.ConfigFile
import ContractHost.Proofs.SortedMap
import ContractHost.Proofs.OutputMerge
import ContractHost.Proofs.Accumulator
import ContractHost.Proofs.LayerView
import ContractHost.Proofs.LayerSimulation
import ContractHost.Proofs.Outcome
import ContractHost.Proofs.ByteAccounting
import ContractHost.Proofs.Solvency
import ContractHost.Proofs.CallGas
import ContractHost.Proofs.ReadOnly
import ContractHost.Proofs.Refund
import ContractHost.Proofs.TokenSupply
import ContractHost.Proofs.CallChain
import ContractHost.Proofs.LayerContents
import ContractHost.Proofs.Namespaces
import ContractHost.Proofs.Commit
import ContractHost.Proofs.StorageWrite
import ContractHost.Proofs.FreshStart
import ContractHost.Proofs.HiddenStorage
import ContractHost.Proofs.ExchangeForms
import ContractHost.Proofs.SequentialCommit
import ContractHost.Proofs.MergeGrouping
import ContractHost.Proofs.Admission
import ContractHost.Proofs.WriteRefusal
import ContractHost.Proofs.CallContexts
import ContractHost.Proofs.Bech32Checksum
import ContractHost.Proofs.BitGroups
import ContractHost.Proofs.AddressText
import ContractHost.Proofs.ConfigFiles
import ContractHost.Proofs.ProtectionScopes
import ContractHost.Proofs.ExactCharges
import ContractHost.Proofs.GasMeter
import ContractHost.Proofs.ContractBuilding
