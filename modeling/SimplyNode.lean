import SimplyNode.Lib.Transition
import SimplyNode.Lib.Threads
import SimplyNode.Lib.PointerForest
import SimplyNode.Lib.SlotVector
import SimplyNode.World
import SimplyNode.Executor
import SimplyNode.Node
import SimplyNode.Timer
import SimplyNode.Removal
import SimplyNode.Destroy
import SimplyNode.Forest
import SimplyNode.Edits
import SimplyNode.Books
import SimplyNode.Registration
import SimplyNode.Ownership
import SimplyNode.Migration
import SimplyNode.MoveSubtree
import SimplyNode.Deferred
import SimplyNode.Queues
import SimplyNode.Names
import SimplyNode.Requests
import SimplyNode.Affinity
import SimplyNode.NodeRun
import SimplyNode.Aging
import SimplyNode.Trees
import SimplyNode.DeleteLoop
import SimplyNode.ChildQueues
import SimplyNode.TickRequests
import SimplyNode.StaleDeletes
import SimplyNode.Moves
import SimplyNode.OwnerDeletes
import SimplyNode.PoolLoop
import SimplyNode.LateDrains
import SimplyNode.StrandDrain
import SimplyNode.Recycling
import SimplyNode.LeftBehind
import SimplyNode.Lib.IndexedQueue
import SimplyNode.TimerService
import SimplyNode.TimerRun
import SimplyNode.TimerEntries
import SimplyNode.Undisturbed
import SimplyNode.ArmedTimers
import SimplyNode.Emissions
import SimplyNode.DueTimers
import SimplyNode.PoolTimeouts
import SimplyNode.CallOrder
import SimplyNode.Lib.Monitor
import SimplyNode.LoopWait
import SimplyNode.Lib.TreeWalk
import SimplyNode.Atomicity
import SimplyNode.Lib.Frontier
import SimplyNode.TickCalls
import SimplyNode.TickPass
import SimplyNode.Lib.Tickets
import SimplyNode.LoopIO
import SimplyNode.IoService
import SimplyNode.Lib.Feed
import SimplyNode.HttpRequest
import SimplyNode.HttpRequestParser
import SimplyNode.HttpPieces
import SimplyNode.ThreadPool
import SimplyNode.PoolShutdown
import SimplyNode.WorkerLoops
import SimplyNode.IOEvent
import SimplyNode.Connection
import SimplyNode.Lib.Forwarding
import SimplyNode.DeliveryOrder
import SimplyNode.Destructors
import SimplyNode.Addresses
import SimplyNode.Layout
import SimplyNode.DataWidgetMapper
import SimplyNode.WidgetRun
import SimplyNode.Lib.Pipeline
import SimplyNode.Logger
import SimplyNode.LoggerWakeups
import SimplyNode.LoggerCounts
import SimplyNode.StreamSocket
import SimplyNode.TcpWrites
import SimplyNode.TcpDisconnects
import SimplyNode.EndOfStream
import SimplyNode.Lib.FileTree
import SimplyNode.TextLines
import SimplyNode.HttpServer
import SimplyNode.StaticFiles
import SimplyNode.HttpConnection
import SimplyNode.HttpFlush
import SimplyNode.WebSocketKey
import SimplyNode.WebSocketHandshake
import SimplyNode.Lib.Incremental
import SimplyNode.WebSocketFrame
import SimplyNode.WebSocketConnection
import SimplyNode.WebSocketReads
import SimplyNode.WebSocketGrammar
import SimplyNode.WebSocketEncoding
import SimplyNode.WebSocketLengths
import SimplyNode.TraceBuffer
import SimplyNode.ResponseFraming
import SimplyNode.TextNumbers
import SimplyNode.ChunkedBodies
import SimplyNode.RequestHeads
import SimplyNode.NextRequest
import SimplyNode.Lib.Countdown
import SimplyNode.AsyncTaskSequence
import SimplyNode.SequenceRun
import SimplyNode.SequenceWaiters
import SimplyNode.IniParser
import SimplyNode.IniText
import SimplyNode.CommandLineParser
import SimplyNode.UdpSocket
import SimplyNode.WebSocketMessages
import SimplyNode.WebSocketServer
import SimplyNode.ProcessStdin
import SimplyNode.LiveWebSocket
import SimplyNode.WebSocketClosing
import SimplyNode.WebSocketFailure
import SimplyNode.WebSocketSlots
import SimplyNode.SnmpOid
import SimplyNode.SnmpValue
import SimplyNode.SnmpWalk
import SimplyNode.TaskGraphs
import SimplyNode.Lib.KeyedList
import SimplyNode.SqlTableModel
import SimplyNode.SqlLiteral
import SimplyNode.TableView
import SimplyNode.TableSelection
import SimplyNode.Lib.Renumbering
import SimplyNode.TableIdentities
import SimplyNode.Lib.ExclusiveGroups
import SimplyNode.RadioButton
import SimplyNode.NodeConstruction
import SimplyNode.HostAddress
import SimplyNode.Base64
import SimplyNode.Lib.SecureHash
import SimplyNode.Sha1Digest
import SimplyNode.Lib.JsonText
import SimplyNode.TraceEvents
import SimplyNode.MemoryTracker
import SimplyNode.TimerClock
import SimplyNode.WebSocketWire
import SimplyNode.WebSocketSpeech
import SimplyNode.Conversation
import SimplyNode.ConversationEnd
import SimplyNode.Invocation
import SimplyNode.Lib.Duplex
import SimplyNode.TcpPair
import SimplyNode.HttpExchange
import SimplyNode.TcpServer
import SimplyNode.HttpService
import SimplyNode.Lib.Callbacks
import SimplyNode.MySqlDatabase
