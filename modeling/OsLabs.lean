import OsLabs.Uthreadpool.Completion
import OsLabs.Uthreadpool.SlotReuse
import OsLabs.Uthreadpool.RingInvariant
import OsLabs.Proxy.Sessions
import OsLabs.Proxy.Answers
import OsLabs.Proxy.CompleteDelivery
import OsLabs.SwapList.Deadlock
import OsLabs.BoundedQueue.LockedQueue
import OsLabs.BoundedQueue.SemaphoreQueue
import OsLabs.BoundedQueue.Shutdown
import OsLabs.FutexMutex.StaleOwner
import OsLabs.Threadpool.Conservation
import OsLabs.Threadpool.Handles
import OsLabs.Proxy.HashmapMemory
import OsLabs.Proxy.ChunkMemory
import OsLabs.Proxy.RequestText
import OsLabs.Proxy.Cache
import OsLabs.Proxy.LineEnds
import OsLabs.Proxy.CacheName
import OsLabs.Proxy.CacheFaults
import OsLabs.Proxy.LockDiscipline
import OsLabs.Proxy.HandlerRun
import OsLabs.Proxy.SubscriberList
import OsLabs.FutexMutex.Counter
import OsLabs.Threadpool.Shutdown
import OsLabs.Threadpool.Draining
import OsLabs.Proxy.CacheSessions
import OsLabs.Proxy.SessionEnd
import OsLabs.BoundedQueue.SemaphoreReaderWriter
import OsLabs.BoundedQueue.LockedReaderWriter
import OsLabs.BoundedQueue.LockedCancellation
import OsLabs.BoundedQueue.SemaphoreCancellation
import OsLabs.Proxy.HashmapLife
import OsLabs.Proxy.ChunkLife
import OsLabs.Proxy.Forwarding
import OsLabs.Uthreadpool.Waiting
import OsLabs.SwapList.Ending
import OsLabs.Proxy.CacheRoundTrip
