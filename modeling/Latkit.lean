import Latkit.HoleInvariance
import Latkit.Capture
import Latkit.Isolation
import Latkit.TlsRouter
import Latkit.PgBatchLaw
import Latkit.PgInterleave
import Latkit.PgTextLaw
import Latkit.RedisLoss
import Latkit.S3Identity
import Latkit.SqlRelex
import Latkit.RegConserve
import Latkit.CgroupGlobLaw
import Latkit.OtlpClient
import Latkit.PgHonesty
import Latkit.PgAnchor
import Latkit.MyGlue
import Latkit.MyAttrs
import Latkit.RedisIdentity
import Latkit.HttpBasic
import Latkit.HttpConserve
import Latkit.HttpClose
import Latkit.SqlCollapse
import Latkit.ConnSweep
import Latkit.HistPoints
import Latkit.RegTopK
import Latkit.SpanRing
import Latkit.LabelUtf8
import Latkit.GoLookup
import Latkit.X86Concat
import Latkit.EvDecode
import Latkit.HttpEnds
import Latkit.HttpGrammar
import Latkit.RedisConserve
import Latkit.ConnHeap
import Latkit.RespSafe
import Latkit.ElfSyms
