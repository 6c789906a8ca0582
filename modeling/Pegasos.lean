import Pegasos.Boot.KernelLoad
import Pegasos.Clib.Calloc
import Pegasos.Clib.FopenMode
import Pegasos.Clib.Realloc
import Pegasos.Clib.Startup
import Pegasos.Clib.StdioInput
import Pegasos.Fat.NewEntry
import Pegasos.Hosted.Fat.DirRuns
import Pegasos.Hosted.Fat.FileTimes
import Pegasos.Hosted.Fat.MakeDir
import Pegasos.Hosted.Fat.OutOfSpace
import Pegasos.Hosted.WriteBack
import Pegasos.Kernel.Cache.DeviceRead
import Pegasos.Kernel.Cache.Holders
import Pegasos.Kernel.Cache.RangeRead
import Pegasos.Kernel.Cache.TransferResults
import Pegasos.Kernel.Console.KeyReader
import Pegasos.Kernel.Console.ScreenInterrupts
import Pegasos.Kernel.Console.Terminal
import Pegasos.Kernel.Debug.Breakpoints
import Pegasos.Kernel.Debug.DisasmBounds
import Pegasos.Kernel.Dma.Setup
import Pegasos.Kernel.Exec.Relocators
import Pegasos.Kernel.Fat.RootRead
import Pegasos.Kernel.Fat.SectorAgreement
import Pegasos.Kernel.Fat.Stat
import Pegasos.Kernel.Fdd.Handshake
import Pegasos.Kernel.Fdd.Rest
import Pegasos.Kernel.Fdd.Transfer
import Pegasos.Kernel.Files.DriverPairs
import Pegasos.Kernel.Files.FileStream
import Pegasos.Kernel.Files.RefCounts
import Pegasos.Kernel.Memory.DmaHeap
import Pegasos.Kernel.Memory.SharedHeaps
import Pegasos.Kernel.Proc.NewProcess
import Pegasos.Kernel.Proc.Pids
import Pegasos.Kernel.Proc.ProcAlloc
import Pegasos.Kernel.Proc.Reclaim
import Pegasos.Kernel.Proc.WaitExit
import Pegasos.Kernel.Sched.ContextSwitch
import Pegasos.Kernel.Sched.FifoQueues
import Pegasos.Kernel.Sched.RoundRobin
import Pegasos.Kernel.Syscall.Dispatcher
import Pegasos.Kernel.Tty.CloseReaders
import Pegasos.Kernel.Tty.EchoMutex
import Pegasos.Kernel.Tty.EchoRing
import Pegasos.Kernel.Tty.FreeOnce
import Pegasos.Kernel.Tty.LineRoom
import Pegasos.Kernel.Tty.ReadWakeup
import Pegasos.Kernel.Tty.UartTransmit
import Pegasos.Printf.Format
import Pegasos.Shell.Parse
