import Snowside.Api.Patches
import Snowside.Blockchain.Announced
import Snowside.Blockchain.Canonical
import Snowside.Blockchain.Lookups
import Snowside.Bridge.Addresses
import Snowside.Bridge.Amounts
import Snowside.Bridge.Minting
import Snowside.Bridge.Payouts
import Snowside.Bridge.Peg
import Snowside.Bridge.Reserve
import Snowside.Bridge.Units
import Snowside.Bridge.Verification
import Snowside.Evm.FeeBounds
import Snowside.Evm.FeeRules
import Snowside.Evm.FeeWindow
import Snowside.Evm.PositiveFee
import Snowside.Evm.Time
import Snowside.Evm.Worker
import Snowside.Execution.BuildDelay
import Snowside.Execution.Dropped
import Snowside.Execution.Fees
import Snowside.Execution.Messages
import Snowside.Execution.Packing
import Snowside.Federation.Payment
import Snowside.Header.Syntactic
import Snowside.Network.Selection
import Snowside.Precompile.Discipline
import Snowside.Precompile.FeeSetting
import Snowside.Precompile.Settings
import Snowside.Signing.Standing
import Snowside.Snapshot.Snapshots
import Snowside.State.FifoCache
import Snowside.State.Referenced
import Snowside.Sync.Answers
import Snowside.Sync.Blocks
import Snowside.Sync.Closing
import Snowside.Sync.Hashing
import Snowside.Sync.Queue
import Snowside.Sync.Responses
import Snowside.Sync.Resuming
import Snowside.TxPool.Underpriced
import Snowside.Upgrades.Applied
import Snowside.Upgrades.Equality
import Snowside.Upgrades.ForkOrder
import Snowside.Upgrades.Mints
import Snowside.Upgrades.Replacement
import Snowside.Upgrades.Roles
import Snowside.Upgrades.StateChanges
