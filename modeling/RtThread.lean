import RtThread.Avl.Runs
import RtThread.Board.DispFlush
import RtThread.Board.FlashCritical
import RtThread.Board.JpegConfig
import RtThread.Dfs.Descriptors
import RtThread.Dfs.Lifetime
import RtThread.Dfs.MountTable
import RtThread.Dfs.TmpfsData
import RtThread.Dfs.TmpfsListing
import RtThread.Drivers.Alarm
import RtThread.Drivers.CanBox
import RtThread.Drivers.CanMail
import RtThread.Drivers.Completion
import RtThread.Drivers.DataQueue
import RtThread.Drivers.McanRx
import RtThread.Drivers.Pipe
import RtThread.Drivers.RingBlockRuns
import RtThread.Drivers.RingIndex
import RtThread.Drivers.SerialOpen
import RtThread.Drivers.SerialRx
import RtThread.Drivers.SerialTx
import RtThread.Drivers.SpiDma
import RtThread.Drivers.SpiFifo
import RtThread.Drivers.SpiPolling
import RtThread.Drivers.SpiSelect
import RtThread.Drivers.UartTx
import RtThread.Drivers.WorkqueueDelay
import RtThread.Drivers.WorkqueueSync
import RtThread.Finsh.Complete
import RtThread.Ipc.Event
import RtThread.Ipc.Mailbox
import RtThread.Ipc.MempoolInit
import RtThread.Ipc.MessageOrder
import RtThread.Kservice.Kprintf
import RtThread.Kservice.Malloc
import RtThread.Kservice.PrintNumber
import RtThread.Ktime.Rearm
import RtThread.Ktime.TimerIds
import RtThread.Libc.Ctime
import RtThread.Memory.MemheapSizes
import RtThread.Memory.SlabAlign
import RtThread.Memory.SlabUsage
import RtThread.Memory.SmallMemSizes
import RtThread.Mutex.Terminate
import RtThread.Mutex.UserPriority
import RtThread.Mutex.WaitOrder
import RtThread.Pthreads.CondWake
import RtThread.Pthreads.RwProgress
import RtThread.Rtlink.BufferFifo
import RtThread.Sched.Resume
import RtThread.Sched.TimeSlice
import RtThread.Signal.Runs
import RtThread.Timer.Sorted
import RtThread.Timer.Termination
import RtThread.Utilities.Ulog
import RtThread.Utilities.UlogRaw
import RtThread.Utilities.YmodemCrc
