import StakeChain.Block.Execution
import StakeChain.Block.Header
import StakeChain.Bytes.Basic
import StakeChain.Bytes.Hex
import StakeChain.Chain.Basic
import StakeChain.Chain.Commit
import StakeChain.Chain.Devnet
import StakeChain.Chain.Open
import StakeChain.Chain.Receive
import StakeChain.Codec.Basic
import StakeChain.Codec.Records
import StakeChain.Config.Basic
import StakeChain.Config.Datum
import StakeChain.Config.Example
import StakeChain.Config.Load
import StakeChain.Consensus.Finality
import StakeChain.Consensus.ValidatorSet
import StakeChain.Consensus.Vote
import StakeChain.Curve.Edwards
import StakeChain.Curve.Field
import StakeChain.Data.KeyMap
import StakeChain.Decimal.Binary64
import StakeChain.Decimal.Shortest
import StakeChain.Evidence.Basic
import StakeChain.Gas
import StakeChain.Hash.Blake3
import StakeChain.Hash.Sha512
import StakeChain.Identity.Basic
import StakeChain.Identity.Keypair
import StakeChain.Json.Basic
import StakeChain.Json.Parse
import StakeChain.Json.Render
import StakeChain.Ledger.Apply
import StakeChain.Ledger.Basic
import StakeChain.Ledger.Block
import StakeChain.Ledger.StateRoot
import StakeChain.Main
import StakeChain.Mempool
import StakeChain.Merkle.Roots
import StakeChain.Merkle.Tree
import StakeChain.Request.Chain
import StakeChain.Request.Config
import StakeChain.Request.Decode
import StakeChain.Request.Encode
import StakeChain.Request.Problem
import StakeChain.Request.Pure
import StakeChain.Request.Report
import StakeChain.Request.Respond
import StakeChain.Request.Session
import StakeChain.Request.Session.Basic
import StakeChain.Request.Session.Blocks
import StakeChain.Request.Session.Finality
import StakeChain.Request.Session.Ledger
import StakeChain.Request.Session.Pools
import StakeChain.Signature.Ed25519
import StakeChain.Slashing
import StakeChain.Store.Chain
import StakeChain.Store.Memory
import StakeChain.Text.Escape
import StakeChain.Text.GraphemeExtend
import StakeChain.Text.Printable
import StakeChain.Toml.Basic
import StakeChain.Toml.Lexical
import StakeChain.Toml.Parse
import StakeChain.Transaction.Basic
import StakeChain.Word
import StakeChain.Proofs.KeyMap
import StakeChain.Proofs.Steps
import StakeChain.Proofs.Ledger.Supply
import StakeChain.Proofs.Ledger.Lifecycle
import StakeChain.Proofs.Block.Value
import StakeChain.Proofs.Block.SignatureChecks
import StakeChain.Proofs.Block.Selection
import StakeChain.Proofs.Consensus.Finality
import StakeChain.Proofs.Consensus.Certificate
import StakeChain.Proofs.Consensus.Selection
import StakeChain.Proofs.Consensus.Accounting
import StakeChain.Proofs.Consensus.Parking
import StakeChain.Proofs.Consensus.Equivocation
import StakeChain.Proofs.Chain.Receive
import StakeChain.Proofs.Chain.Inputs
import StakeChain.Proofs.Chain.Commit
import StakeChain.Proofs.Chain.Pending
import StakeChain.Proofs.Chain.OwnVotes
import StakeChain.Proofs.Chain.Phases
import StakeChain.Proofs.Store.Layout
import StakeChain.Proofs.Chain.Reports
import StakeChain.Proofs.Ledger.Accounts
import StakeChain.Proofs.Store.Mirror
import StakeChain.Proofs.Merkle.Inclusion
import StakeChain.Proofs.Merkle.Completeness
import StakeChain.Proofs.Encoding.Signed
import StakeChain.Proofs.Slashing.Rejections
import StakeChain.Proofs.Block.Signatures
import StakeChain.Proofs.Chain.Durability
import StakeChain.Proofs.Ledger.Runs
import StakeChain.Proofs.Ledger.Consistency
import StakeChain.Proofs.Slashing.Inclusion
import StakeChain.Proofs.Ledger.Penalty
import StakeChain.Proofs.Ledger.Offenses
import StakeChain.Proofs.Mempool.Entries
import StakeChain.Proofs.Mempool.Invariant
import StakeChain.Proofs.Slashing.Books
import StakeChain.Proofs.Block.Passes
import StakeChain.Proofs.Chain.Equivocation
import StakeChain.Proofs.Consensus.Snapshot
import StakeChain.Proofs.Merkle.Binding
import StakeChain.Proofs.Merkle.StateTable
import StakeChain.Proofs.Ledger.Commitment
import StakeChain.Proofs.Ledger.Arithmetic
import StakeChain.Proofs.Consensus.Overflow
import StakeChain.Proofs.Chain.Redelivery
import StakeChain.Proofs.Store.Certificates
