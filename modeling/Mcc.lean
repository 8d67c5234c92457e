import Mcc.Lib.PriorityQueue
import Mcc.Lib.Transition
import Mcc.Lib.Lease
import Mcc.Lib.Xml
import Mcc.Lib.Relay
import Mcc.Lib.Forest
import Mcc.Lib.CondVar
import Mcc.Lib.Blocks
import Mcc.Lib.EraseLoop
import Mcc.Lib.Checksum
import Mcc.Lib.Buffer
import Mcc.Lib.Calendar
import Mcc.Lib.Tiling
import Mcc.Lib.Split
import Mcc.Lib.Heap
import Mcc.Lib.Register
import Mcc.Lib.SearchTree
import Mcc.Lib.Session
import Mcc.Model.Ident
import Mcc.Model.AgentMessage
import Mcc.Model.Resource
import Mcc.Model.Manager
import Mcc.Model.Handlers
import Mcc.Model.System
import Mcc.Model.Frontend
import Mcc.Model.Jxj
import Mcc.Model.IntOp
import Mcc.Model.JxjEn
import Mcc.Model.Squeue
import Mcc.Model.PrioQueue
import Mcc.Model.Conditional
import Mcc.Model.Serial
import Mcc.Model.StringUtil
import Mcc.Model.Config
import Mcc.Model.Framing
import Mcc.Model.Notify
import Mcc.Model.TimeUtil
import Mcc.Model.RcPort
import Mcc.Model.Chain
import Mcc.Model.Tree
import Mcc.Model.Pair
import Mcc.Model.ConfFile
import Mcc.Model.Startup
import Mcc.Model.TcpServer
import Mcc.Model.Client
import Mcc.Correctness.Ptz
import Mcc.Correctness.Steps
import Mcc.Correctness.Trunk
import Mcc.Correctness.TrunkLease
import Mcc.Correctness.TrunkUsers
import Mcc.Correctness.Purge
import Mcc.Correctness.TrunkSearch
import Mcc.Correctness.Monitor
import Mcc.Correctness.Cascade
import Mcc.Correctness.Lookup
import Mcc.Correctness.Pin
import Mcc.Correctness.Ranking
import Mcc.Correctness.Codec
import Mcc.Correctness.RoundTrip
import Mcc.Correctness.Malformed
import Mcc.Correctness.Grammar
import Mcc.Correctness.TextLength
import Mcc.Correctness.Discard
import Mcc.Correctness.Traffic
import Mcc.Correctness.Relay
import Mcc.Correctness.Pending
import Mcc.Correctness.Upward
import Mcc.Correctness.Routing
import Mcc.Correctness.ChildList
import Mcc.Correctness.Tree
import Mcc.Correctness.Picture
import Mcc.Correctness.Broadcast
import Mcc.Correctness.Dispatch
import Mcc.Correctness.Selection
import Mcc.Correctness.PacketFraming
import Mcc.Correctness.Notify
import Mcc.Correctness.TextFraming
import Mcc.Correctness.JxjCodec
import Mcc.Correctness.Checksum
import Mcc.Correctness.RcPort
import Mcc.Correctness.RcBounds
import Mcc.Correctness.Window
import Mcc.Correctness.Stream
import Mcc.Correctness.Poll
import Mcc.Correctness.Squeue
import Mcc.Correctness.Heap
import Mcc.Correctness.PrioQueue
import Mcc.Correctness.Deadline
import Mcc.Correctness.Serial
import Mcc.Correctness.StringUtil
import Mcc.Correctness.Config
import Mcc.Correctness.TimeUtil
import Mcc.Correctness.ConfFile
import Mcc.Correctness.ConfGrammar
import Mcc.Correctness.ConfLines
import Mcc.Correctness.ConfSave
import Mcc.Correctness.Startup
import Mcc.Correctness.TcpServer
import Mcc.Correctness.ServerSessions
import Mcc.Correctness.Client
