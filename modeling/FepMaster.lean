import FepMaster.Lib.Transition
import FepMaster.Lib.Fifo
import FepMaster.Lib.Mutex
import FepMaster.Lib.Watchdog
import FepMaster.Lib.Signal
import FepMaster.Lib.LinkedList
import FepMaster.Lib.Window
import FepMaster.Lib.Hex
import FepMaster.Lib.RecordRing
import FepMaster.Lib.Waiters
import FepMaster.Lib.Register
import FepMaster.Lib.Mailbox
import FepMaster.Lib.Ring
import FepMaster.Lib.Memory
import FepMaster.Lib.Chunk
import FepMaster.Lib.Arena
import FepMaster.Packet
import FepMaster.Device
import FepMaster.Uart
import FepMaster.UartIndex
import FepMaster.UartFraming
import FepMaster.TableUpdates
import FepMaster.Report
import FepMaster.DeviceHistory
import FepMaster.UartProvenance
import FepMaster.Tasks
import FepMaster.Moves
import FepMaster.Sections
import FepMaster.Conservation
import FepMaster.SlotValues
import FepMaster.Timeouts
import FepMaster.ReportDecoding
import FepMaster.ReportAssembly
import FepMaster.ReportContention
import FepMaster.Flags
import FepMaster.DeviceList
import FepMaster.DeviceListRemove
import FepMaster.DeviceListRuns
import FepMaster.DeviceRecords
import FepMaster.FreeId
import FepMaster.Sockets
import FepMaster.UdpTask
import FepMaster.ReportDestination
import FepMaster.ServerList
import FepMaster.IntelHexText
import FepMaster.IntelHexRecords
import FepMaster.IntelHexChecksum
import FepMaster.Buzzer
import FepMaster.EthernetLink
import FepMaster.EthernetDescriptors
import FepMaster.EthernetTransmit
import FepMaster.TransmitDescriptors
import FepMaster.TransmitIntegrity
import FepMaster.EthernetReceive
import FepMaster.ReceiveDescriptors
import FepMaster.ReceiveOutcomes
import FepMaster.ReceivePhases
import FepMaster.ReceiveSteps
import FepMaster.ReceiveIntegrity
import FepMaster.Console
import FepMaster.ConsoleOutput
import FepMaster.ConsoleInput
import FepMaster.Heap
import FepMaster.HeapFreeList
import FepMaster.HeapBlocks
import FepMaster.HeapMalloc
import FepMaster.HeapSafety
import FepMaster.HeapRuns
import FepMaster.Queue
import FepMaster.QueueStorage
import FepMaster.QueueProtocol
import FepMaster.QueueSteps
import FepMaster.QueueContents
import FepMaster.QueueCalls
import FepMaster.QueueRuns
import FepMaster.QueueTimeOut
