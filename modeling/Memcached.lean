import Memcached.Accounting
import Memcached.Arithmetic
import Memcached.Automove
import Memcached.BinaryLengths
import Memcached.CrawlCommand
import Memcached.CrawlRun
import Memcached.GetAnswers
import Memcached.HashTable
import Memcached.LruOrder
import Memcached.MemoryLimit
import Memcached.MoverRefs
import Memcached.RoundTrip
import Memcached.SaslGate
import Memcached.Segmentation
import Memcached.SlabClasses
import Memcached.SlabListBounds
import Memcached.TailRepair
import Memcached.KeyTokens
import Memcached.Transmit
import Memcached.PrefixDump
import Memcached.StatsReply
import Memcached.QuietCommands
import Memcached.PasswordFile
import Memcached.Errno
import Memcached.LockSwitch
import Memcached.Cache
import Memcached.Dispatch
import Memcached.HashFunctions
import Memcached.ThreadStats
import Memcached.ObjectCache
import Memcached.Listening
import Memcached.Reassign
import Memcached.LockProgress
import Memcached.CacheDump
import Memcached.EventLoop
import Memcached.StatsSizes
