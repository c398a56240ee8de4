import Zcashd.Guarantees.AddressFile
import Zcashd.Guarantees.AddressManager
import Zcashd.Guarantees.AddressStrings
import Zcashd.Guarantees.AsyncOperations
import Zcashd.Guarantees.BestPointers
import Zcashd.Guarantees.BlockAncestors
import Zcashd.Guarantees.BlockDownload
import Zcashd.Guarantees.BlockRewards
import Zcashd.Guarantees.BlockStorage
import Zcashd.Guarantees.ByteQueue
import Zcashd.Guarantees.ChainWork
import Zcashd.Guarantees.CheckRounds
import Zcashd.Guarantees.CoinsCache
import Zcashd.Guarantees.CoinsFormat
import Zcashd.Guarantees.EvictionMemory
import Zcashd.Guarantees.FeeOrder
import Zcashd.Guarantees.FoundersReward
import Zcashd.Guarantees.KeyReservations
import Zcashd.Guarantees.MerkleRoots
import Zcashd.Guarantees.MultiSig
import Zcashd.Guarantees.NoteCommitments
import Zcashd.Guarantees.OrphanPool
import Zcashd.Guarantees.PartialMerkleTrees
import Zcashd.Guarantees.PoolIndexes
import Zcashd.Guarantees.PushedScripts
import Zcashd.Guarantees.RecursiveRemoval
import Zcashd.Guarantees.Reindexing
import Zcashd.Guarantees.RollingFilter
import Zcashd.Guarantees.ScriptFlags
import Zcashd.Guarantees.ShieldedCache
import Zcashd.Guarantees.SignatureHashes
import Zcashd.Guarantees.SizeLimit
import Zcashd.Guarantees.SpendOnce
import Zcashd.Guarantees.TextCodecs
import Zcashd.Guarantees.TransactionCopies
import Zcashd.Guarantees.TransactionFormat
import Zcashd.Guarantees.TreeEncoding
import Zcashd.Guarantees.VarIntFormat
import Zcashd.Guarantees.WalletNotifications
import Zcashd.Guarantees.WeightedEviction
