import CraftecCore.Library.RowReduction
import CraftecCore.Library.RowVector
import CraftecCore.Erasure.GF256
import CraftecCore.Erasure.Coding
import CraftecCore.Library.RowRank
import CraftecCore.Erasure.Independence
import CraftecCore.Library.Bytes
import CraftecCore.Erasure.Homomorphic
import CraftecCore.Erasure.Decoder
import CraftecCore.Erasure.Segmenter
import CraftecCore.Library.SortedMap
import CraftecCore.Library.MerkleTree
import CraftecCore.Prover.Merkle
import CraftecCore.Settlement.Receipt
import CraftecCore.Prover.Distribution
import CraftecCore.Prover.Aggregation
import CraftecCore.Prover.Binding
import CraftecCore.Aggregator.Batch
import CraftecCore.Aggregator.Persistence
import CraftecCore.Aggregator.Accounting
import CraftecCore.Aggregator.Delivery
import CraftecCore.Library.RowSolve
import CraftecCore.Erasure.Repair
import CraftecCore.Erasure.Acceptance
import CraftecCore.Library.ProRata
import CraftecCore.Settlement.Fee
import CraftecCore.Prover.Guest
import CraftecCore.Aggregator.Lifetime
import CraftecCore.Aggregator.Loop
import CraftecCore.Aggregator.Boundary
import CraftecCore.Library.Text
import CraftecCore.AgentRuntime.HostFns
import CraftecCore.Ipc.Protocol
import CraftecCore.Ipc.Server
import CraftecCore.Ipc.Client
import CraftecCore.Erasure.Completion
import CraftecCore.Erasure.Kernel
import CraftecCore.Aggregator.Reload
import CraftecCore.Library.ByteStream
import CraftecCore.Network.Wire
import CraftecCore.Network.Pex
import CraftecCore.Library.Base58
import CraftecCore.Identity.Did
import CraftecCore.Library.Hex
import CraftecCore.AgentRuntime.Governance
import CraftecCore.AgentRuntime.Storage
import CraftecCore.AgentRuntime.Session
import CraftecCore.Library.OverflowChecks
import CraftecCore.Prover.Overflow
import CraftecCore.Prover.Verification
import CraftecCore.Library.Json
import CraftecCore.Ipc.Encoding
import CraftecCore.Library.RowExchange
import CraftecCore.Erasure.Exchange
import CraftecCore.Library.RowBounds
import CraftecCore.Erasure.Ragged
import CraftecCore.Erasure.Layout
import CraftecCore.Erasure.PieceCount
import CraftecCore.Network.Report
import CraftecCore.Library.PathText
import CraftecCore.Network.Bootstrap
import CraftecCore.Library.WasmMemory
import CraftecCore.AgentRuntime.Sandbox
import CraftecCore.AgentRuntime.Lifecycle
import CraftecCore.Settlement.Pda
import CraftecCore.Aggregator.Rejection
import CraftecCore.Aggregator.Claims
import CraftecCore.Settlement.SignedMessage
import CraftecCore.Library.Split
import CraftecCore.Ipc.WebSocket
import CraftecCore.Ipc.Forwarder
import CraftecCore.Ipc.Namespace
import CraftecCore.Network.PexWire
import CraftecCore.Network.Exchange
import CraftecCore.Aggregator.Payments
import CraftecCore.Aggregator.Restarts
import CraftecCore.Erasure.Travel
import CraftecCore.Erasure.Pollution
import CraftecCore.Erasure.Recovery
import CraftecCore.Startup.Keystore
import CraftecCore.Library.StoredValue
import CraftecCore.Startup.App
import CraftecCore.AgentRuntime.Neighbours
import CraftecCore.Network.Pacing
