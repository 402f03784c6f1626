import CanIpcLayer.Batches
import CanIpcLayer.ClientSends

/-! # Crossing the bus — from a client of one service to the clients of another

    Two machines on one CAN bus run the service.  What a client of the first sends goes
    through its socket, its handler and the driver; the bus carries it to the driver of
    the second, whose receive task decodes it, and whose work task writes it to the
    sockets of the clients that ask for it.

    The bus is the transport of `RawCanData`: it gives back type, length and payload, and
    the identifier with its bytes the other way round. -/

namespace Crossing

open CanStruct LayerImpl RawCanData HandleClient Orders Server WholeOrders Acks ClientProcesses
open Links ClientServer ClientTables ClientFrames ClientSends BrokerRefines Batches Flows Runs

/-- A client of the other service asks for the frame that `socketSendCanData` sends. -/
def listening : List Event :=
  [.connect 5 [singleOrder .addFilter 0x2FF, singleOrder .removeFilter 0x2FF], .client 5 .write,
    .check 5, .pass 5]

end Crossing
