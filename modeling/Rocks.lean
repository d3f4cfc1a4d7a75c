import Rocks.Async
import Rocks.Segments
import Rocks.Buffer
import Rocks.World
import Rocks.Answers
import Rocks.FailureCodes
import Rocks.Tunnel
import Rocks.HalfClose
import Rocks.LineChunking
import Rocks.HeaderChunking
import Rocks.LineCalls
import Rocks.LineStale
import Rocks.HeaderSlots
import Rocks.Joining
import Rocks.FlagFuture
import Rocks.TlsWrite
import Rocks.TlsRead
import Rocks.Quiescence
import Rocks.Settling
import Rocks.Idle
import Rocks.Directions
import Rocks.SideBySide
import Rocks.Config
import Rocks.Server
import Rocks.Fairness
import Rocks.Contracts
import Rocks.Histories
import Rocks.ConnectionManager
import Rocks.Websocket
import Rocks.HeaderPipeline
import Rocks.Racing
import Rocks.HyperSvr
import Rocks.ActixApp
