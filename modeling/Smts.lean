import Smts.Lib.Circular
import Smts.Lib.Simulation
import Smts.Lib.Transition
import Smts.Proto.Dispatch
import Smts.Proto.Layout
import Smts.Tcp.Framing
import Smts.Tcp.Bounds
import Smts.Tcp.Ownership
import Smts.Tcp.Server
import Smts.Session.Manager
import Smts.Session.Name
import Smts.Server.Rings
import Smts.Server.Status
import Smts.Server.Messages
import Smts.Server.Channel
import Smts.Server.Lifecycle
import Smts.Server.Teardown
import Smts.Server.Startup
import Smts.Server.Ledger
import Smts.Server.Received
import Smts.Server.Frames
import Smts.Server.Relay
import Smts.Server.Dvrs
import Smts.Server.Arith
import Smts.Server.Exits
import Smts.Server.Requests
import Smts.Server.Truth
import Smts.Server.Delivery
import Smts.Net.Addrs
import Smts.Log.Rotation
import Smts.Log.Writer
import Smts.Log.InFlight
import Smts.Log.Format
import Smts.Log.Expansion
import Smts.Log.Strings
import Smts.Mem.Guard
import Smts.Server.Memory
import Smts.Server.Progress
import Smts.Server.Wire
import Smts.Server.Conversation
import Smts.Server.Reuse
import Smts.Server.Commands
import Smts.Server.Sockets
import Smts.Test.Client
import Smts.Test.Dvr
import Smts.Test.Bed
