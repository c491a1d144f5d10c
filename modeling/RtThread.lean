import RtThread.Kernel.MqOrder
import RtThread.Kernel.MutexRuns
import RtThread.Kernel.NoLostWakeup
import RtThread.Kernel.TimerWindow
import RtThread.Kernel.Ceiling
import RtThread.Kernel.EventCleared
import RtThread.Kernel.WaitOrder
import RtThread.Kernel.Rotation
import RtThread.Kernel.SignalBits
import RtThread.SmallMem.Complete
import RtThread.SmallMem.Service
import RtThread.MemPool
import RtThread.Object
import RtThread.Signal
import RtThread.MmPage
import RtThread.Aspace.Pages
import RtThread.Memblock.Handover
import RtThread.Workqueue.Handler
import RtThread.Workqueue.CancelSync
import RtThread.Completion.Counting
import RtThread.Condvar.Consistency
import RtThread.Pipe.Stream
import RtThread.Pipe.Written
import RtThread.DataQueue.Fifo
import RtThread.Ctime.RoundTrip
import RtThread.Dfs.Canonical
import RtThread.Dfs.RefCounts
import RtThread.Lwp.SigQueue
import RtThread.Lwp.Futex
import RtThread.RidBitmap
import RtThread.Creation
import RtThread.RingBlock.Queue
import RtThread.RingBuffer.Indices
