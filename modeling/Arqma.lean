import Arqma.Common.Varint
import Arqma.Epee.IntUtil
import Arqma.Lib.Radix
import Arqma.Common.Base58
import Arqma.Lib.Word64
import Arqma.Lib.ListSums
import Arqma.Lib.FoldInv
import Arqma.ServiceNodes.Rules
import Arqma.ServiceNodes.Info
import Arqma.ServiceNodes.Registration
import Arqma.ServiceNodes.State
import Arqma.ServiceNodes.Winner
import Arqma.ServiceNodes.Accounting
import Arqma.Cryptonote.Reward
import Arqma.Cryptonote.MinerTx
import Arqma.Lib.MersenneTwister
import Arqma.Lib.ArgMinFold
import Arqma.Common.Random
import Arqma.ServiceNodes.Quorum
import Arqma.ServiceNodes.Determinism
import Arqma.Lib.Counter
import Arqma.Cryptonote.HardFork
import Arqma.Cryptonote.HardForkWindow
import Arqma.Cryptonote.HardForkReorg
import Arqma.Lib.KeyedList
import Arqma.Lib.Buckets
import Arqma.ServiceNodes.Voting
import Arqma.ServiceNodes.VotePool
import Arqma.Cryptonote.TxPool
import Arqma.Cryptonote.TxPoolInv
import Arqma.Lib.SortedGaps
import Arqma.ServiceNodes.Swarm
import Arqma.Lib.Stripes
import Arqma.Common.Pruning
import Arqma.Lib.Decimal
import Arqma.Arqnet.BtSerialize
import Arqma.Checkpoints.Checkpoints
import Arqma.Lib.ExceptRun
import Arqma.ServiceNodes.RegistrationArgs
import Arqma.Mnemonics.ElectrumWords
import Arqma.Cryptonote.Difficulty
import Arqma.Cryptonote.DifficultyCache
import Arqma.Cryptonote.Address
import Arqma.Lib.KeySet
import Arqma.ServiceNodes.StateHistory
import Arqma.Cryptonote.Lwma
