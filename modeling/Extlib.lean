import Extlib.Srrp.RoundTrip
import Extlib.Srrp.CopySafety
import Extlib.Srrp.Grammar
import Extlib.Srrp.NextPacket
import Extlib.Buffer.AtbufRefinement
import Extlib.Buffer.AtbufGrowth
import Extlib.Buffer.AtbufWords
import Extlib.Buffer.RingCells
import Extlib.Timers.Drift
import Extlib.Timers.FirstFiring
import Extlib.Timers.Sleep
import Extlib.Timers.Handlers
import Extlib.Options.FrontEnds
import Extlib.Options.Resolution
import Extlib.Options.Lifecycle
import Extlib.Bus.Lifecycle
import Extlib.Bus.Order
import Extlib.Bus.Connections
import Extlib.Bus.Assertions
import Extlib.Bus.Segmentation
import Extlib.Bus.Recovery
import Extlib.Bus.Timeout
import Extlib.Bus.Topics
import Extlib.Bus.EndToEnd
import Extlib.Bus.Routing
import Extlib.Bus.Stations
import Extlib.Bus.Authenticity
import Extlib.Bus.Descriptors
import Extlib.Bus.Rebinding
import Extlib.Errors.Registry
import Extlib.Services.Svchub
import Extlib.Modules.Params
import Extlib.Json.Members
import Extlib.Json.Scoping
import Extlib.Timers.Threads
import Extlib.Bus.Keys
import Extlib.Bus.Relays
import Extlib.Modules.Directory
import Extlib.Bus.Teardown
import Extlib.Buffer.AtbufCapacity
import Extlib.Buffer.AtbufRuns
