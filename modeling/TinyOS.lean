import TinyOS.Transition
import TinyOS.FreeList
import TinyOS.Tally
import TinyOS.Monitor
import TinyOS.RingBuffer
import TinyOS.Sched
import TinyOS.SchedInvariant
import TinyOS.SchedSections
import TinyOS.Aging
import TinyOS.SchedGuarantees
import TinyOS.Timeouts
import TinyOS.TimedWaits
import TinyOS.Streams
import TinyOS.Pipe
import TinyOS.PipeQueue
import TinyOS.Proc
import TinyOS.Socket
import TinyOS.SocketRun
import TinyOS.SocketView
import TinyOS.PipeEvents
import TinyOS.SocketTables
import TinyOS.Connection
import TinyOS.Duplex
import TinyOS.PipeLives
import TinyOS.PortTable
import TinyOS.SocketWaits
import TinyOS.AcceptWaits
import TinyOS.Connect
import TinyOS.ProcessTree
import TinyOS.TreeInvariant
import TinyOS.TableInvariant
import TinyOS.Reaping
import TinyOS.ReapedOnce
import TinyOS.FileTable
import TinyOS.StreamLedger
import TinyOS.StreamRefs
import TinyOS.StreamCalls
import TinyOS.StreamOpens
import TinyOS.LastExit
import TinyOS.StreamCounts
import TinyOS.PlainPipe
import TinyOS.PipeEnds
import TinyOS.PipeLifetime
import TinyOS.Rings
import TinyOS.ResourceList
import TinyOS.SpliceAlgebra
import TinyOS.ListDeque
import TinyOS.ListSelect
import TinyOS.Barrier
import TinyOS.Symposium
import TinyOS.Reserve
import TinyOS.PipeResults
import TinyOS.Threads
import TinyOS.ThreadsInvariant
import TinyOS.ThreadCalls
import TinyOS.ProcessLife
import TinyOS.ThreadRun
import TinyOS.ThreadSteps
import TinyOS.ThreadLife
import TinyOS.ThreadJoins
import TinyOS.RequestOrder
import TinyOS.FailedAccept
import TinyOS.Directions
import TinyOS.ListenerClose
import TinyOS.Peers
import TinyOS.SocketFids
import TinyOS.ShutDown
import TinyOS.ArgVector
import TinyOS.ProcInfo
import TinyOS.Execute
import TinyOS.InfoStream
import TinyOS.RemoteShell
import TinyOS.UnpackBounds
import TinyOS.JoinOnce
import TinyOS.ExitStatus
import TinyOS.Termination
import TinyOS.TableFlow
import TinyOS.PipeOwners
import TinyOS.Pipeline
import TinyOS.Plumbing
import TinyOS.LineSplit
import TinyOS.KernelLockInvariant
import TinyOS.Bits
import TinyOS.Interrupts
import TinyOS.InterruptDelivery
import TinyOS.IoDevice
import TinyOS.IoContract
import TinyOS.SerialDriver
import TinyOS.SerialReads
import TinyOS.SchedCounts
import TinyOS.SchedFairness
import TinyOS.Spinlocks
import TinyOS.SpinOrder
import TinyOS.MutexLock
import TinyOS.MutexSpins
import TinyOS.RemoteServer
import TinyOS.ServerSteps
import TinyOS.ServerShutdown
import TinyOS.TimeSlices
import TinyOS.SliceEnds
