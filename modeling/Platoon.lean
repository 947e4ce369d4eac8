import Platoon.Foundation.Transition
import Platoon.Foundation.Composition
import Platoon.Foundation.Slab
import Platoon.Foundation.Budget
import Platoon.Foundation.Chain
import Platoon.Foundation.OrderedMap
import Platoon.Foundation.RefCount
import Platoon.Foundation.HeldCells
import Platoon.Rust.Prelude
import Platoon.Sys.Poller
import Platoon.Sys.Epoll
import Platoon.Sys.Kqueue
import Platoon.Sync.Semaphore
import Platoon.Sync.WaiterLine
import Platoon.Sync.Fifo
import Platoon.Sync.LineInvariant
import Platoon.Sync.FifoInvariant
import Platoon.Sync.FifoHistory
import Platoon.Sync.SemaphoreRuns
import Platoon.Sync.SemaphoreOrder
import Platoon.Sync.SemaphoreCounting
import Platoon.Sync.Lock
import Platoon.Sync.LockInvariant
import Platoon.Sync.LockRuns
import Platoon.Sync.Oneshot
import Platoon.Sync.OneshotRuns
import Platoon.Sync.UnwokenWaiters
import Platoon.Runtime.Clock
import Platoon.Runtime.Alarms
import Platoon.Runtime.Reactor
import Platoon.Runtime.Waiters
import Platoon.Runtime.EpollReactor
import Platoon.Runtime.Interests
import Platoon.Runtime.ReactorRuns
import Platoon.Runtime.Timeouts
import Platoon.Runtime.Readiness
import Platoon.Runtime.Executor
import Platoon.Runtime.ExecutorSteps
import Platoon.Runtime.TaskLife
import Platoon.Runtime.TaskTracking
import Platoon.Runtime.ExecutorRuns
import Platoon.Runtime.PayloadBorrows
import Platoon.Runtime.WakerCounts
import Platoon.Runtime.Context
import Platoon.Runtime.Completion
import Platoon.Runtime.JoinHandles
import Platoon.Runtime.Loops
import Platoon.Runtime.Parking
import Platoon.Runtime.Ticks
import Platoon.Runtime.Nesting
import Platoon.Runtime.YieldNow
import Platoon.Runtime.Repolling
import Platoon.Runtime.Ownership
import Platoon.Runtime.OwnershipRuns
import Platoon.Runtime.Ledger
import Platoon.Runtime.LedgerRuns
import Platoon.Runtime.Pinning
import Platoon.Time.Sleep
import Platoon.Time.Timers
import Platoon.Time.SleepRuns
import Platoon.Time.Intervals
import Platoon.Net.Async
import Platoon.Runtime.World
import Platoon.Runtime.Reentry
import Platoon.Time.Alarmed
import Platoon.Time.Timeout
import Platoon.Runtime.Assembly
import Platoon.Runtime.AssemblyRuns
import Platoon.Runtime.Owed
import Platoon.Runtime.Fairness
import Platoon.Runtime.Delivery
import Platoon.Runtime.Hosting
import Platoon.Runtime.Stranding
import Platoon.Runtime.Unwinding
import Platoon.Runtime.PanicSafety
import Platoon.Sync.BoundedWaiting
import Platoon.Sync.Guarded
import Platoon.Foundation.Pairing
import Platoon.Runtime.Registrations
import Platoon.Runtime.KqueueReactor
import Platoon.Runtime.KqueueNotes
import Platoon.Net.Sockets
import Platoon.Net.Lifecycle
import Platoon.Net.Readiness
import Platoon.Net.DoIo
import Platoon.Net.Connect
