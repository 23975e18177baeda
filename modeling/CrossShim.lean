import CrossShim.Memory.Calloc
import CrossShim.Memory.Realloc
import CrossShim.Threads.Once
import CrossShim.Calls.Workers
import CrossShim.Loader.Symbols
import CrossShim.Loader.DlOpen
import CrossShim.Sync.MutexExclusion
import CrossShim.Sync.RwLockRuns
import CrossShim.Sync.Semaphore
import CrossShim.Sync.BarrierRuns
import CrossShim.Threads.StackRange
import CrossShim.Threads.CreateClean
import CrossShim.Threads.Joins
import CrossShim.Threads.TlsExit
import CrossShim.Signals.Delivery
import CrossShim.Signals.Handlers
import CrossShim.Sync.SteadyDeadline
import CrossShim.Time.Deadlines
import CrossShim.Time.Timers
import CrossShim.Process.ExitRuns
import CrossShim.Stdio.FormatArgs
import CrossShim.Stdlib.Bsearch
import CrossShim.Network.Addresses
import CrossShim.Network.RecvMsg
import CrossShim.Stdio.StreamText
import CrossShim.Stdlib.Environment
import CrossShim.Dir.Scandir
import CrossShim.Stdio.MemStreams
import CrossShim.Search.Walk
import CrossShim.Search.HashRuns
import CrossShim.Stdio.ScanLoop
import CrossShim.Locale.Encoders
import CrossShim.Stdio.FormatBinary
import CrossShim.Wchar.Concat
import CrossShim.Signals.Jumps
import CrossShim.Calls.EarlyReturn
import CrossShim.Process.VirtualFiles
import CrossShim.Memory.Conservation
import CrossShim.Stdio.PathTranslation
import CrossShim.Threads.Trampoline
import CrossShim.Stdio.FormatBounds
