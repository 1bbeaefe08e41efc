import Alnp.Lib.Machine
import Alnp.Lib.Access
import Alnp.Lib.PrefixTable
import Alnp.Lib.Descriptor
import Alnp.Kernel.ConnTable
import Alnp.IoSelect.Model
import Alnp.IoSelect.Table
import Alnp.IoSelect.Runs
import Alnp.IoSelect.Correctness
import Alnp.IoPoll.Model
import Alnp.IoPoll.Table
import Alnp.IoPoll.Runs
import Alnp.Lib.Fifo
import Alnp.CondVar.WorkQueue
import Alnp.CondVar.Sections
import Alnp.Lib.Monitor
import Alnp.CondVar.Threads
import Alnp.Kernel.SysvSem
import Alnp.SysvSem.CriticalSection
import Alnp.SysvSem.Instances
import Alnp.SysvSem.Exclusion
import Alnp.EpollTimerfd.SessionList
import Alnp.Kernel.Epoll
import Alnp.EpollTimerfd.Model
import Alnp.EpollTimerfd.Ownership
import Alnp.EpollTimerfd.Outcomes
import Alnp.EpollTimerfd.Turns
import Alnp.EpollTimerfd.Timeouts
import Alnp.EpollTimerfd.Registration
import Alnp.EpollTimerfd.FailedAdd
import Alnp.CondVar.Delivery
import Alnp.CondVar.Notifications
import Alnp.Lib.Notice
import Alnp.Kernel.Sigchld
import Alnp.Reaping.SigNocldstop
import Alnp.Reaping.PosixNamedSem
import Alnp.Reaping.SignalfdChld
import Alnp.Lib.Ledger
import Alnp.Prefork.Model
import Alnp.Prefork.Hygiene
import Alnp.Prefork.Availability
import Alnp.Lib.Patch
import Alnp.AioListio.Copy
import Alnp.IoEpoll.Dispatch
import Alnp.IoRts.Notify
import Alnp.Lib.Loop
import Alnp.IoPoll.Dispatch
import Alnp.IoSelect.Dispatch
import Alnp.Reaping.Drain
import Alnp.Reaping.SigWaitid
import Alnp.Lib.Mutex
import Alnp.Pthread.CleanupMutex
import Alnp.Kernel.CString
import Alnp.Pthread.SumStrnumTls
import Alnp.Kernel.SysvMsg
import Alnp.SysvMsg.Meeting
import Alnp.Shm.MutexPshared
import Alnp.Shm.PosixShm
import Alnp.Shm.Sized
import Alnp.Shm.HandOver
import Alnp.SocketTable.Agreement
import Alnp.AioListio.Batches
import Alnp.EpollTimerfd.SessionMap
import Alnp.Prefork.SessionEnd
import Alnp.Prefork.StaleBuffer
import Alnp.Lib.Buffer
import Alnp.Shm.Commands
import Alnp.Kernel.SemTable
import Alnp.SysvSem.Semget
import Alnp.Kernel.Stdio
import Alnp.LineTransport.Senders
import Alnp.Lib.Regex
import Alnp.SysvMsgRegex.Pattern
import Alnp.SysvMsgRegex.Bounds
import Alnp.SysvMsgRegex.Extraction
import Alnp.AioListio.Offsets
import Alnp.Lib.CInt
import Alnp.Kernel.Timespec
import Alnp.Timing.DiffTimespec
import Alnp.Timing.Stamps
import Alnp.MmapHugepage.ArrayInit
import Alnp.IoEpoll.EventBuffer
import Alnp.Pthread.CleanThread
import Alnp.Shm.Loops
import Alnp.Shm.Overrun
import Alnp.Shm.Display
import Alnp.LineTransport.Underflow
import Alnp.Lib.Progress
import Alnp.Lib.Crew
import Alnp.Lib.Barrier
import Alnp.Pthread.Barrier
import Alnp.Pthread.MutexType
import Alnp.Pthread.NamelessSem
import Alnp.Events.IoEventfd
import Alnp.Lib.Post
import Alnp.PosixMsq.Queue
import Alnp.SysvMsg.Transport
import Alnp.SysvSem.ZeroWait
import Alnp.Prefork.Echo
import Alnp.Lib.Handlers
import Alnp.Signals.Nesting
import Alnp.Lib.Pipe
import Alnp.MyFifo.Stream
import Alnp.Lib.Parts
import Alnp.Lib.Service
import Alnp.Lib.Scan
import Alnp.IoPoll.Service
import Alnp.IoSelect.Service
import Alnp.IoEpoll.Service
import Alnp.UnixUdp.Datagrams
import Alnp.Lib.Since
import Alnp.Signals.Pending
import Alnp.Signals.Sigwait
import Alnp.Events.IoTimerfd
import Alnp.SysvSem.ZeroWaitRuns
