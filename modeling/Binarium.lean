import Binarium.Pow.NextWork
import Binarium.BlockPayments
import Binarium.Spork
import Binarium.InstantSend.EarlyVotes
import Binarium.Coins.Stack
import Binarium.Validation.Conservation
import Binarium.InstantSend.Persistence
import Binarium.InstantSend.Upkeep
import Binarium.PaymentVotes
import Binarium.Governance.Identity
import Binarium.Merkle.Partial
import Binarium.Script.SigOps
import Binarium.Mempool.LockPoints
import Binarium.Validation.IndexRoundTrip
import Binarium.Serialize.Compressor
import Binarium.Chain.SkipList
import Binarium.Chain.VersionBits
import Binarium.Script.MultiSig
import Binarium.Script.Safety
import Binarium.Mempool.Trim
import Binarium.Mempool.Conflicts
import Binarium.Script.SignatureHash
import Binarium.Script.SignatureEncoding
import Binarium.PrivateSend.Denominate
import Binarium.PrivateSend.Exits
import Binarium.Governance.ProcessVote
import Binarium.Governance.Sync
import Binarium.MasternodeMan
import Binarium.LastPaid
