import BlackHV.Runs
import BlackHV.Bytes
import BlackHV.Circular
import BlackHV.BoundedFifo
import BlackHV.Fault
import BlackHV.Queue
import BlackHV.QueueCalls
import BlackHV.QueueThreads
import BlackHV.QueuePair
import BlackHV.QueuePairSafety
import BlackHV.Chains
import BlackHV.Ledgers
import BlackHV.LinkedList
import BlackHV.LinkedListLinks
import BlackHV.LinkedListShape
import BlackHV.LinkedListGrowth
import BlackHV.Spans
import BlackHV.Memory
import BlackHV.MemoryRanges
import BlackHV.HostMappings
import BlackHV.FlatMemory
import BlackHV.GuestMemory
import BlackHV.E820
import BlackHV.AllocOutcome
import BlackHV.KvmSlots
import BlackHV.MemoryAvailable
import BlackHV.LinkedListFree
import BlackHV.LinkedListWalk
import BlackHV.LinkedListBackLinks
import BlackHV.LinkedListRemoval
import BlackHV.LinkedListDeque
import BlackHV.LinkedListFifo
import BlackHV.MemoryHeap
import BlackHV.MemoryDestroy
import BlackHV.VmT
import BlackHV.VcpuState
import BlackHV.VmResources
import BlackHV.Mmio
import BlackHV.MmioDispatch
import BlackHV.MmioRegister
import BlackHV.MmioRanges
import BlackHV.MmioRounds
import BlackHV.MmioSlots
import BlackHV.MmioProcess
import BlackHV.Io
import BlackHV.PortTable
import BlackHV.Serial
import BlackHV.SerialOutput
import BlackHV.SerialSizes
import BlackHV.SerialInput
import BlackHV.SerialFamily
import BlackHV.SerialLifetime
import BlackHV.Atapi
import BlackHV.AtapiAccess
import BlackHV.AtapiBounds
import BlackHV.AtapiRead
import BlackHV.AtapiPhases
import BlackHV.AtapiLeftover
import BlackHV.AtapiResync
import BlackHV.AtapiPackets
import BlackHV.AtapiTransfer
import BlackHV.AtapiChannels
import BlackHV.AtapiDrives
import BlackHV.IoExit
import BlackHV.AtapiSeek
import BlackHV.Families
import BlackHV.Devices
import BlackHV.VmRun
import BlackHV.Machine
import BlackHV.MachineRuns
import BlackHV.MachineDisk
import BlackHV.Flows
import BlackHV.Console
import BlackHV.GuestAccess
import BlackHV.GuestRouting
import BlackHV.Screen
import BlackHV.ScreenFrames
import BlackHV.ScreenLifetime
import BlackHV.Copies
import BlackHV.HostCopies
import BlackHV.GuestReads
import BlackHV.KLoader
import BlackHV.KBoot
import BlackHV.KGuest
import BlackHV.LinuxLoader
import BlackHV.LinuxBoot
import BlackHV.LinuxGuest
import BlackHV.EchoProgram
import BlackHV.EchoSpec
import BlackHV.EchoRuns
import BlackHV.SplashScreen
import BlackHV.SplashRuns
import BlackHV.GuestLoader
