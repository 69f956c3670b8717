import Aquila.Library.Ring
import Aquila.Library.OpenRing
import Aquila.Library.Traced
import Aquila.Library.Run
import Aquila.Library.SlotTable
import Aquila.Library.Memory
import Aquila.Library.Stuffing
import Aquila.Library.Register
import Aquila.Library.Counter
import Aquila.Library.Progression
import Aquila.Library.Feedback
import Aquila.Library.Countdown
import Aquila.Library.Window
import Aquila.Library.Table
import Aquila.Persist
import Aquila.Persist.Isolation
import Aquila.Persist.Blocks
import Aquila.ProtocolDB.Layout
import Aquila.ProtocolDB.Operations
import Aquila.ProtocolDB.Index
import Aquila.ProtocolDB.Refinement
import Aquila.ProtocolDB.Iterator
import Aquila.ProtocolDB.Restart
import Aquila.ProtocolDB.Failures
import Aquila.Bridge.Crc
import Aquila.Bridge.Slip
import Aquila.Bridge.Frames
import Aquila.Bridge.Validation
import Aquila.Bridge.Resync
import Aquila.Bridge.Command
import Aquila.Bridge.CrcErrors
import Aquila.Mesh.Packet
import Aquila.Mesh.Tx
import Aquila.Mesh.TxRuns
import Aquila.Mesh.Rx
import Aquila.Mesh.Control
import Aquila.Mesh.Probing
import Aquila.Mesh.Layer
import Aquila.Mesh.Security
import Aquila.Mesh.Sleep
import Aquila.Bridge.ParseCommand
import Aquila.Bridge.Replies
import Aquila.Bridge.Options
import Aquila.Bridge.Forwarding
import Aquila.Protocol.Packet
import Aquila.Protocol.ParseBounds
import Aquila.Services.Receive
import Aquila.Services.ReceiveBounds
import Aquila.Services.Requests
import Aquila.Services.Correlation
import Aquila.Services.Chaining
import Aquila.Services.Timeout
import Aquila.Services.RoundTrip
import Aquila.Protocol.Reception
import Aquila.Endpoints
import Aquila.Protocol.Node
import Aquila.Protocol.Registration
import Aquila.Protocol.EmitBuffers
import Aquila.Protocol.Events
import Aquila.Protocol.UserCode
import Aquila.Protocol.NestedEvents
import Aquila.Protocol.Replies
import Aquila.Protocol.Answers
import Aquila.Protocol.Exchange
import Aquila.Protocol.ExchangeRuns
import Aquila.Protocol.RuleChanges
import Aquila.Protocol.Delivery
import Aquila.Protocol.Enumeration
import Aquila.Protocol.Restore
import Aquila.Protocol.OneReply
import Aquila.WSerial.Transmit
import Aquila.WSerial.Interval
import Aquila.WSerial.Stream
import Aquila.WSerial.Blocking
import Aquila.WSerial.Receive
import Aquila.Acknowledgements
import Aquila.Lwm.Frame
import Aquila.Lwm.Security
import Aquila.Lwm.Route
import Aquila.Lwm.Duplicates
import Aquila.Lwm.Nwk
import Aquila.Lwm.Moves
import Aquila.Lwm.Requests
import Aquila.Lwm.Buffers
import Aquila.Lwm.Provenance
import Aquila.Lwm.Overrun
import Aquila.Lwm.Confirmations
import Aquila.Lwm.Network
import Aquila.Lwm.Settle
