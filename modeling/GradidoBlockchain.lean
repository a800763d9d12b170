import GradidoBlockchain.Index.Interval
import GradidoBlockchain.Index.MonthSearch
import GradidoBlockchain.Index.MonthCount
import GradidoBlockchain.Index.Agreement
import GradidoBlockchain.Index.Enumeration
import GradidoBlockchain.Index.Rollback
import GradidoBlockchain.Chain.CrossCommunity
import GradidoBlockchain.Chain.Trigger
import GradidoBlockchain.Chain.Atomic
import GradidoBlockchain.Chain.Bookkeeping
import GradidoBlockchain.Chain.Replay
import GradidoBlockchain.Chain.Registration
import GradidoBlockchain.Chain.Clear
import GradidoBlockchain.Chain.AddressType
import GradidoBlockchain.Chain.Conservation
import GradidoBlockchain.Chain.Overflow
import GradidoBlockchain.Chain.CreationLimit
import GradidoBlockchain.Chain.CreationSum
import GradidoBlockchain.Chain.Elements
import GradidoBlockchain.Chain.Anchors
import GradidoBlockchain.Chain.RunningHash
import GradidoBlockchain.Chain.Recomputed
import GradidoBlockchain.Chain.CompactForm
import GradidoBlockchain.Chain.AccountCheck
import GradidoBlockchain.Interaction.Accepted
import GradidoBlockchain.Builder.Pairing
import GradidoBlockchain.Concurrent.SameBlockchain
import GradidoBlockchain.Concurrent.Verified
import GradidoBlockchain.Wire.RoundTrip
import GradidoBlockchain.Builder.SignatureMap
import GradidoBlockchain.Builder.Calls
import GradidoBlockchain.Blockchain.RangeUtils
import GradidoBlockchain.Wire.TriggerEvent
import GradidoBlockchain.Wire.HieroId
import GradidoBlockchain.Data.ExpireCache
import GradidoBlockchain.Crypto.WordIndices
import GradidoBlockchain.Data.DataTypeConverter
import GradidoBlockchain.Wire.Communities
import GradidoBlockchain.Chain.Independence
import GradidoBlockchain.Chain.Authority
import GradidoBlockchain.Chain.AppendOnly
import GradidoBlockchain.Chain.Commitment
import GradidoBlockchain.Chain.Overrides
import GradidoBlockchain.Memory.Retained
import GradidoBlockchain.Wire.ReadBack
import GradidoBlockchain.Crypto.EncryptedMemo
import GradidoBlockchain.Crypto.Recovery
import GradidoBlockchain.Chain.Forged
import GradidoBlockchain.Concurrent.BulkVerify
