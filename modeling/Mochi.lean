import Mochi.ForMathlib.Finmap
import Mochi.Native.Basic
import Mochi.Native.Storage
import Mochi.Native.GC
import Mochi.Spec.ShardOps
import Mochi.Spec.ShardInvariant
import Mochi.Spec.Reachable
import Mochi.Spec.Disjoint
import Mochi.Spec.Graduate
import Mochi.Spec.GCCorrect
import Mochi.Spec.Announce
import Mochi.Spec.ShardIndex
import Mochi.Spec.FlatStore
import Mochi.Native.ConnectionID
import Mochi.Spec.ConnectionIDCorrect
import Mochi.Spec.PutDelete
import Mochi.Native.Schedule
import Mochi.Spec.ScheduleRuns
import Mochi.Native.ClientApproval
import Mochi.Spec.ClientApprovalCorrect
import Mochi.Native.DataStore
import Mochi.Spec.DataStoreCorrect
import Mochi.Spec.GCRuns
import Mochi.Spec.Lifecycle
import Mochi.Native.TorrentApproval
import Mochi.Spec.ConcurrentGC
import Mochi.Spec.Goroutines
import Mochi.Spec.Interleaving
import Mochi.Spec.StopRace
