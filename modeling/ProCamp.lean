import ProCamp.Machine
import ProCamp.Progress
import ProCamp.Fifo
import ProCamp.CyclicBuffer
import ProCamp.Overrun
import ProCamp.Monitor
import ProCamp.History
import ProCamp.WaitEvent
import ProCamp.Registry
import ProCamp.FillUntil
import ProCamp.GpioLines
import ProCamp.ReadModifyWrite
import ProCamp.CString
import ProCamp.Numeral
import ProCamp.Decimal
import ProCamp.Escaping
import ProCamp.Kernel
import ProCamp.PlatDummy
import ProCamp.RingTransfer
import ProCamp.Driver
import ProCamp.AtomicSections
import ProCamp.DriverInvariant
import ProCamp.RingAccess
import ProCamp.FailingCalls
import ProCamp.DrainedRing
import ProCamp.ShortReads
import ProCamp.RingHistory
import ProCamp.ReaderWakeup
import ProCamp.SendData
import ProCamp.FrameOwnership
import ProCamp.FileTransfer
import ProCamp.TransferProgress
import ProCamp.EventList
import ProCamp.EventReport
import ProCamp.Hw3
import ProCamp.LedCoherence
import ProCamp.ButtonEvents
import ProCamp.AtomicBoard
import ProCamp.DeviceLifetime
import ProCamp.FailingBoardCalls
import ProCamp.CallProgress
import ProCamp.ProbeStore
import ProCamp.UserBuffers
import ProCamp.Hw3App
import ProCamp.Hw1
import ProCamp.Hw2
import ProCamp.HelloLists
import ProCamp.Mmap
import ProCamp.MmapSplit
import ProCamp.MmapReload
import ProCamp.LedsGpio
import ProCamp.LedProbe
import ProCamp.LedRebind
import ProCamp.DndAttribute
import ProCamp.IntFiles
import ProCamp.UeventDump
import ProCamp.Threads
import ProCamp.Deferred
import ProCamp.Alarm
import ProCamp.OneShot
import ProCamp.SimpleWq
import ProCamp.Hrt
import ProCamp.HrtWorks
import ProCamp.OnboardIo
import ProCamp.TimerExit
import ProCamp.TimerSchedule
import ProCamp.HrtSchedule
import ProCamp.PressCounter
import ProCamp.IrqReload
import ProCamp.ThreadCounter
import ProCamp.ThreadUnload
import ProCamp.EventModule
import ProCamp.TimerCounts
import ProCamp.NodeLifetime
import ProCamp.AtomicCallbacks
import ProCamp.DummyDts
import ProCamp.DummyCdev
import ProCamp.DtsLifetime
import ProCamp.DeviceTable
import ProCamp.CdevInit
import ProCamp.ReadData
import ProCamp.MmapDump
import ProCamp.PollWork
import ProCamp.Polling
import ProCamp.PollHistory
