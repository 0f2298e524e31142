import RtosKernel.Lib.Loop
import RtosKernel.Lib.Run
import RtosKernel.Lib.Ring
import RtosKernel.Lib.Scan
import RtosKernel.Lib.Memory
import RtosKernel.Lib.BlockList
import RtosKernel.Lib.Bitmap
import RtosKernel.Lib.RingBuffer
import RtosKernel.Lib.CString
import RtosKernel.Lib.SlotTable
import RtosKernel.Lib.WordBits
import RtosKernel.Lib.SignedWord
import RtosKernel.Lib.Words
import RtosKernel.Lib.Numeral
import RtosKernel.Lib.Field
import RtosKernel.Lib.WordRange
import RtosKernel.Lib.LiveList
import RtosKernel.Basic
import RtosKernel.Task
import RtosKernel.Mutex
import RtosKernel.Semaphore
import RtosKernel.Heap
import RtosKernel.Process
import RtosKernel.Interrupts
import RtosKernel.Paging
import RtosKernel.Timer
import RtosKernel.Kernel
import RtosKernel.Pipe
import RtosKernel.Queue
import RtosKernel.Vfs
import RtosKernel.Signal
import RtosKernel.SignalBounds
import RtosKernel.Log
import RtosKernel.Terminal
import RtosKernel.Syscall
import RtosKernel.Screen
import RtosKernel.Keyboard
import RtosKernel.Uptime
import RtosKernel.Shell
import RtosKernel.ShellCommands
import RtosKernel.Printing
import RtosKernel.Messages
import RtosKernel.Proofs.MutexProofs
import RtosKernel.Proofs.SemaphoreProofs
import RtosKernel.Proofs.HeapMemoryProofs
import RtosKernel.Proofs.HeapRunProofs
import RtosKernel.Proofs.HeapSafetyProofs
import RtosKernel.Proofs.HeapFitProofs
import RtosKernel.Proofs.ProcessProofs
import RtosKernel.Proofs.ProcessScheduleProofs
import RtosKernel.Proofs.ProcessListProofs
import RtosKernel.Proofs.ProcessSleepProofs
import RtosKernel.Proofs.PidProofs
import RtosKernel.Proofs.PidIdentityProofs
import RtosKernel.Proofs.PagingProofs
import RtosKernel.Proofs.PageRunProofs
import RtosKernel.Proofs.PageFitProofs
import RtosKernel.Proofs.PagingLockProofs
import RtosKernel.Proofs.PagingWalkProofs
import RtosKernel.Proofs.TranslationProofs
import RtosKernel.Proofs.IdentityMapProofs
import RtosKernel.Proofs.InterruptProofs
import RtosKernel.Proofs.TaskProofs
import RtosKernel.Proofs.TaskScheduleProofs
import RtosKernel.Proofs.TaskRunProofs
import RtosKernel.Proofs.TaskContextProofs
import RtosKernel.Proofs.ClockProofs
import RtosKernel.Proofs.TimerProofs
import RtosKernel.Proofs.TaskSleepProofs
import RtosKernel.Proofs.PipeProofs
import RtosKernel.Proofs.PipeBlockingProofs
import RtosKernel.Proofs.ExclusionProofs
import RtosKernel.Proofs.SleepProofs
import RtosKernel.Proofs.QueueProofs
import RtosKernel.Proofs.VfsProofs
import RtosKernel.Proofs.VfsRunProofs
import RtosKernel.Proofs.SignalProofs
import RtosKernel.Proofs.SignalKillProofs
import RtosKernel.Proofs.SignalDeliveryProofs
import RtosKernel.Proofs.SignalContextProofs
import RtosKernel.Proofs.SignalBoundsProofs
import RtosKernel.Proofs.LogProofs
import RtosKernel.Proofs.TerminalProofs
import RtosKernel.Proofs.TerminalTextProofs
import RtosKernel.Proofs.ScrollMarkerProofs
import RtosKernel.Proofs.ScreenProofs
import RtosKernel.Proofs.UptimeProofs
import RtosKernel.Proofs.SyscallHeapProofs
import RtosKernel.Proofs.UserRangeProofs
import RtosKernel.Proofs.KeyboardProofs
import RtosKernel.Proofs.ArgumentProofs
import RtosKernel.Proofs.ShellDataProofs
import RtosKernel.Proofs.ShellCommandProofs
import RtosKernel.Proofs.PrintingProofs
import RtosKernel.Proofs.ShellProofs
import RtosKernel.Proofs.ShellScreenProofs
import RtosKernel.Proofs.HistoryProofs
import RtosKernel.Proofs.MessageLockProofs
import RtosKernel.Proofs.MessageNumberProofs
import RtosKernel.Proofs.MessageProofs
import RtosKernel.Proofs.MessageTaskProofs
import RtosKernel.Proofs.MessageStallProofs
import RtosKernel.Lib.StackPush
import RtosKernel.Stubs
import RtosKernel.Switch
import RtosKernel.Protection
import RtosKernel.Proofs.StubProofs
import RtosKernel.Proofs.SwitchProofs
import RtosKernel.Panic
import RtosKernel.Proofs.ProtectionProofs
import RtosKernel.Proofs.PanicProofs
import RtosKernel.SyscallGate
import RtosKernel.Proofs.SyscallGateProofs
import RtosKernel.Console
import RtosKernel.Proofs.TaskAccountProofs
import RtosKernel.Proofs.ConsoleProcessProofs
import RtosKernel.Proofs.ConsoleCommandProofs
import RtosKernel.Proofs.ConsoleProofs
