import NucleoBase.Lib.Run
import NucleoBase.Lib.IntrusiveList
import NucleoBase.Lib.Ring
import NucleoBase.Lib.FixedWidth
import NucleoBase.Lib.CharArray
import NucleoBase.Lib.Gregorian
import NucleoBase.Lib.NorCells
import NucleoBase.Lib.NameTree
import NucleoBase.Lib.ByteFile
import NucleoBase.Lib.Memory
import NucleoBase.Lib.Lazy
import NucleoBase.ThreadX.Mutex
import NucleoBase.Backend.Once
import NucleoBase.Backend.OnceCorrect
import NucleoBase.Backend.Keys
import NucleoBase.Backend.KeysCorrect
import NucleoBase.Backend.KeyDestructors
import NucleoBase.Backend.Mutexes
import NucleoBase.Backend.Semaphores
import NucleoBase.Backend.Condition
import NucleoBase.Backend.ConditionList
import NucleoBase.Backend.ConditionInv
import NucleoBase.Backend.ConditionCorrect
import NucleoBase.Backend.ConditionDestroy
import NucleoBase.Backend.Threads
import NucleoBase.Backend.ThreadLife
import NucleoBase.Backend.ThreadLifeGood
import NucleoBase.Backend.ThreadLifeOwned
import NucleoBase.Backend.ThreadsRefine
import NucleoBase.Backend.ThreadIdWrap
import NucleoBase.Backend.ThreadsCorrect
import NucleoBase.Backend.SystemClock
import NucleoBase.Backend.CxxGuard
import NucleoBase.Backend.CxxGuardCorrect
import NucleoBase.Backend.SteadyTicks
import NucleoBase.Backend.ThreadAtexit
import NucleoBase.Backend.ThreadAtexitCorrect
import NucleoBase.Backend.Emutls
import NucleoBase.Backend.EmutlsHeld
import NucleoBase.Backend.EmutlsCorrect
import NucleoBase.Backend.TimedWait
import NucleoBase.Backend.Sleep
import NucleoBase.Backend.HighResolution
import NucleoBase.Hal.LinuxConsole
import NucleoBase.Hal.LinuxConsoleCorrect
import NucleoBase.Hal.SerialInput
import NucleoBase.Hal.SerialInputCorrect
import NucleoBase.Hal.EthernetTransmit
import NucleoBase.Hal.EthernetTransmitCorrect
import NucleoBase.Lib.PeriodicCounter
import NucleoBase.Hal.LinuxTimer
import NucleoBase.Hal.LinuxTimerCorrect
import NucleoBase.Hal.LinuxTimerTicks
import NucleoBase.Hal.TimerDuration
import NucleoBase.Hal.Rtc
import NucleoBase.Lib.Bpf
import NucleoBase.Hal.EtherTypeFilter
import NucleoBase.Lib.Rounds
import NucleoBase.Hal.ReceiveDeadline
import NucleoBase.Lib.Chain
import NucleoBase.Hal.EtherType
import NucleoBase.Hal.EthernetReceive
import NucleoBase.Hal.EthernetReceiveCorrect
import NucleoBase.Lib.Program
import NucleoBase.Libc.Path
import NucleoBase.Libc.PathName
import NucleoBase.Libc.Normalize
import NucleoBase.Libc.Chrono
import NucleoBase.Libc.FileX
import NucleoBase.Libc.Filesystem
import NucleoBase.Libc.FileCalls
import NucleoBase.Libc.Entry
import NucleoBase.Libc.Acts
import NucleoBase.Libc.Serve
import NucleoBase.Libc.Trace
import NucleoBase.Libc.Handles
import NucleoBase.Libc.Durability
import NucleoBase.Libc.Forest
import NucleoBase.Libc.CurrentDirectory
import NucleoBase.Libc.Rename
import NucleoBase.Libc.OpenFiles
import NucleoBase.Libc.Identity
import NucleoBase.Lib.Total
import NucleoBase.Libc.FileData
import NucleoBase.Libc.PosixFile
import NucleoBase.Libc.SectorDriver
import NucleoBase.Libc.CpuClock
import NucleoBase.Libc.NorFlash
import NucleoBase.Libc.LockPool
