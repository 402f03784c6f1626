import CanIpcLayer.Acks
import CanIpcLayer.Balance
import CanIpcLayer.Batches
import CanIpcLayer.BrokerRefines
import CanIpcLayer.CanDevice
import CanIpcLayer.CanStruct
import CanIpcLayer.ClientFrames
import CanIpcLayer.ClientManager
import CanIpcLayer.ClientProcess
import CanIpcLayer.ClientProgress
import CanIpcLayer.ClientSends
import CanIpcLayer.ClientServer
import CanIpcLayer.ClientTables
import CanIpcLayer.Crossing
import CanIpcLayer.DecodeBounds
import CanIpcLayer.Delivery
import CanIpcLayer.Framing
import CanIpcLayer.HandleClient
import CanIpcLayer.Indexes
import CanIpcLayer.LayerImpl
import CanIpcLayer.Lib.Brokers
import CanIpcLayer.Lib.Buffers
import CanIpcLayer.Lib.CArrays
import CanIpcLayer.Lib.Captures
import CanIpcLayer.Lib.Censuses
import CanIpcLayer.Lib.Codecs
import CanIpcLayer.Lib.Flows
import CanIpcLayer.Lib.Gates
import CanIpcLayer.Lib.Matchings
import CanIpcLayer.Lib.OrdSets
import CanIpcLayer.Lib.RefCounts
import CanIpcLayer.Lib.Refinements
import CanIpcLayer.Lib.Runs
import CanIpcLayer.Lib.Tables
import CanIpcLayer.Lib.TwoPhase
import CanIpcLayer.LinkProgress
import CanIpcLayer.Links
import CanIpcLayer.LiveCallbacks
import CanIpcLayer.Orders
import CanIpcLayer.PackageBytes
import CanIpcLayer.PackageWire
import CanIpcLayer.PauseModel
import CanIpcLayer.PauseWindow
import CanIpcLayer.PeerClose
import CanIpcLayer.Pipeline
import CanIpcLayer.PipelineSerial
import CanIpcLayer.PollTargets
import CanIpcLayer.PortAgreement
import CanIpcLayer.QueueFifo
import CanIpcLayer.QueueLimit
import CanIpcLayer.QueueStop
import CanIpcLayer.QueueThreads
import CanIpcLayer.QueueWakeups
import CanIpcLayer.RawCanData
import CanIpcLayer.ReadFull
import CanIpcLayer.Reassembly
import CanIpcLayer.Receiver
import CanIpcLayer.ReceiverRefines
import CanIpcLayer.RefusedOrders
import CanIpcLayer.Residue
import CanIpcLayer.Serial
import CanIpcLayer.Server
import CanIpcLayer.ServicePath
import CanIpcLayer.Shutdown
import CanIpcLayer.TaskSteps
import CanIpcLayer.Teardown
import CanIpcLayer.Wakeups
import CanIpcLayer.WholeOrders
import CanIpcLayer.WorkQueue
